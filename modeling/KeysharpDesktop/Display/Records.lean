import KeysharpDesktop.Display.Readable

/-! What the reader of window records makes of a window that the generic view writes: a record of its handle and its
strings, whatever is in them. -/
namespace KeysharpDesktop.Wayland

open Json

section Lists

variable {name : String} {names : List String}

/-- A name in a list of names, and what follows it. -/
theorem value_quoted (h : Name name) (rest : Bytes) :
    value (quoted (ascii name) ++ rest) = some (quoted (ascii name), rest) := by
  rw [quoted_eq h.plain]
  exact span_string (ascii name) rest _ 0 (by omega) (by omega)

/-- The scan of a list looks at a name's length and letters only, which decide it behind a quote. -/
theorem listed_quoted {n : String} (hname : Name name) (hn : Name n) :
    ((quoted (ascii n)).length == (ascii name).length + 2 &&
      ((quoted (ascii n)).drop 1).take (ascii name).length == ascii name) = decide (name = n) := by
  have hkey := keyIs_quoted (ascii name) (ascii n)
  have hsame : (decide (ascii n = ascii name)) = decide (name = n) :=
    decide_eq_decide.mpr ((ascii_eq_iff hn hname).trans eq_comm)
  have hhead : ((quoted (ascii n)).head? == some 34) = true := rfl
  rw [keyIs, hhead, Bool.and_true, hsame] at hkey
  exact hkey

/-- The scan of a list finds the names that are in it. -/
theorem listNames_joined (hname : Name name) (h : ∀ n ∈ names, Name n) {turns : ℕ} (hturns : names.length ≤ turns) :
    listNames (ascii name) turns (joined (names.map fun n => quoted (ascii n)) ++ [93]) = decide (name ∈ names) := by
  induction names generalizing turns with
  | nil =>
    have hnone : value (joined [] ++ [93]) = none := by decide +kernel
    cases turns with
    | zero => rfl
    | succ turns =>
      rw [List.map_nil, listNames, hnone]
      rfl
  | cons n names ih =>
    obtain ⟨turns, rfl⟩ := Nat.exists_eq_add_of_le' (Nat.le_trans (Nat.le_add_left 1 _) hturns)
    have hn := h n List.mem_cons_self
    have hfewer : names.length ≤ turns := by simpa using hturns
    have hrest := ih (fun m hm => h m (List.mem_cons_of_mem _ hm)) hfewer
    rw [List.map_cons, joined, List.append_assoc, listNames, value_quoted hn]
    dsimp only
    rw [listed_quoted hname hn, Bool.decide_congr List.mem_cons, Bool.decide_or, ← hrest]
    congr 1
    cases names with
    | nil =>
      have hclose : listNames (ascii name) turns (joined [] ++ [93]) = false := by
        rw [List.map_nil] at hrest
        rw [hrest, decide_eq_false (List.not_mem_nil)]
      rw [List.map_nil, hclose]
      rfl
    | cons m names =>
      have hskip : skipSpace (44 :: (joined ((m :: names).map fun n => quoted (ascii n)) ++ [93])) =
          44 :: (joined ((m :: names).map fun n => quoted (ascii n)) ++ [93]) := List.dropWhile_cons_of_neg (by decide)
      have hcomma : (((m :: names).map fun n => quoted (ascii n)).flatMap fun part => 44 :: part) ++ [93] =
          44 :: (joined ((m :: names).map fun n => quoted (ascii n)) ++ [93]) := by
        simp only [joined, List.map_cons, List.flatMap_cons, List.cons_append, List.append_assoc]
      rw [hcomma, hskip]
      rfl

end Lists

section Generic

variable {outputs : List Output} {item : Toplevel} {name : String}

/-- The members of the generic view, each listed as valid. -/
def genericNames : List String := ["id", "compositorId", "captureId", "title", "appId"]

/-- The bits of the fields that the generic view writes. -/
def genericFields : BitVec 64 := 0x44007

theorem field_generic (hname : Name name) :
    field (View.generic.windowText outputs item) name =
      ((View.generic.members outputs item).find? fun m => m.1 == name).map fun m => m.2.bytes :=
  field_windowText .generic outputs item hname

theorem field_generic_none (hname : Name name) (hother : name ∉ "validFields" :: genericNames) :
    field (View.generic.windowText outputs item) name = none := by
  rw [field_generic hname, Option.map_eq_none_iff, List.find?_eq_none]
  intro m hm heq
  rw [beq_iff_eq] at heq
  subst heq
  simp only [View.members, View.others, List.mem_cons, List.not_mem_nil, or_false] at hm
  apply hother
  obtain rfl | rfl | rfl | rfl | rfl | rfl := hm <;> simp [genericNames]

theorem genericNames_written : ∀ name ∈ genericNames, name ∈ writtenNames := by
  intro name hname
  simp only [genericNames, List.mem_cons, List.not_mem_nil, or_false] at hname
  obtain rfl | rfl | rfl | rfl | rfl := hname <;> simp [writtenNames]

/-- A member of the generic view is valid exactly where it is written. -/
theorem fieldValid_generic (hname : Name name) (hlist : name ≠ "validFields") :
    fieldValid (View.generic.windowText outputs item) name = decide (name ∈ genericNames) := by
  by_cases hmem : name ∈ genericNames
  · have hnames : ∀ n ∈ genericNames, Name n := fun n hn => writtenNames_name n (genericNames_written n hn)
    have hfield : (field (View.generic.windowText outputs item) name).isSome := by
      rw [field_generic hname, Option.isSome_map, List.find?_isSome]
      simp only [genericNames, List.mem_cons, List.not_mem_nil, or_false] at hmem
      obtain rfl | rfl | rfl | rfl | rfl := hmem <;> simp [View.members, View.others]
    have hfields : field (View.generic.windowText outputs item) "validFields" =
        some (WindowValue.names genericNames).bytes := by
      rw [field_generic (writtenNames_name _ (by simp [writtenNames]))]
      rfl
    have hbytes : (WindowValue.names genericNames).bytes =
        91 :: (joined (genericNames.map fun n => quoted (ascii n)) ++ [93]) := rfl
    have hlength := length_joined (genericNames.map fun n => quoted (ascii n)) (by
      intro part hpart
      obtain ⟨n, -, rfl⟩ := List.mem_map.mp hpart
      exact List.cons_ne_nil _ _)
    rw [List.length_map] at hlength
    have htwo : 2 ≤ (WindowValue.names genericNames).bytes.length := by
      rw [hbytes, List.length_cons, List.length_append, List.length_singleton]
      omega
    have hturns : genericNames.length ≤ (WindowValue.names genericNames).bytes.length := by
      rw [hbytes, List.length_cons, List.length_append]
      omega
    have hlisted := listNames_joined hname hnames hturns
    unfold fieldValid
    rw [hfield, hfields, Bool.true_and]
    dsimp only
    rw [decide_eq_true htwo, Bool.true_and]
    exact hlisted
  · have hnone : field (View.generic.windowText outputs item) name = none := by
      apply field_generic_none hname
      rw [List.mem_cons, not_or]
      exact ⟨hlist, hmem⟩
    rw [fieldValid, hnone, decide_eq_false hmem]
    rfl

theorem fieldNames_name : ∀ name ∈ fieldNames, Name name ∧ name ≠ "validFields" := by
  unfold fieldNames
  repeat refine List.forall_mem_cons.mpr ⟨⟨Name.ofList (by decide), by simp⟩, ?_⟩
  exact List.forall_mem_nil _

theorem flagNames_name : ∀ name ∈ flagNames, Name name ∧ name ∉ "validFields" :: genericNames := by
  unfold flagNames
  repeat refine List.forall_mem_cons.mpr ⟨⟨Name.ofList (by decide), by simp [genericNames]⟩, ?_⟩
  exact List.forall_mem_nil _

theorem jsonValidFields_generic : jsonValidFields (View.generic.windowText outputs item) = genericFields := by
  have hstep : ∀ (fields : BitVec 64), ∀ p ∈ fieldNames.zipIdx,
      (if fieldValid (View.generic.windowText outputs item) p.1 then fields ||| 1 <<< (p.2 + 1) else fields) =
        if p.1 ∈ genericNames then fields ||| 1 <<< (p.2 + 1) else fields := by
    intro fields p hp
    obtain ⟨hname, hlist⟩ := fieldNames_name p.1 (List.fst_mem_of_mem_zipIdx hp)
    rw [fieldValid_generic hname hlist]
    simp only [decide_eq_true_eq]
  have hfold : jsonValidFields (View.generic.windowText outputs item) =
      fieldNames.zipIdx.foldl (fun (fields : BitVec 64) p =>
        if p.1 ∈ genericNames then fields ||| 1 <<< (p.2 + 1) else fields) Field.id :=
    List.foldl_ext _ _ _ hstep
  rw [hfold]
  decide +kernel

theorem jsonFlags_generic : jsonFlags (View.generic.windowText outputs item) = 0 := by
  have hstep : ∀ (flags : BitVec 32), ∀ p ∈ flagNames.zipIdx,
      (if truth (View.generic.windowText outputs item) p.1 then flags ||| 1 <<< p.2 else flags) = flags := by
    intro flags p hp
    obtain ⟨hname, hother⟩ := flagNames_name p.1 (List.fst_mem_of_mem_zipIdx hp)
    have hfalse : truth (View.generic.windowText outputs item) p.1 = false := by
      rw [truth, field_generic_none hname hother]
      rfl
    rw [hfalse, if_neg Bool.false_ne_true]
  have hfold : jsonFlags (View.generic.windowText outputs item) = flagNames.zipIdx.foldl (fun flags _ => flags) 0 :=
    List.foldl_ext _ _ _ hstep
  rw [hfold]
  rfl

end Generic

section RoundTrip

variable {outputs : List Output} {item : Toplevel} {b : Buffer}

/-- The strings of a window as the view writes them: an absent one is empty. -/
def written (text : Option ClientText) : Bytes := (text.getD ClientText.empty).bytes

/-- A window whose strings are text. -/
structure Textual (item : Toplevel) : Prop where
  identifier : utf8Valid false (written item.identifier)
  title : utf8Valid false (written item.title)
  appId : utf8Valid false (written item.appId)

/-- The record of a window's handle and strings, with every other field zero. -/
structure ReadBack (item : Toplevel) (w : WindowRecord) : Prop where
  handle : w.handle = item.id
  title : w.title.bytes = written item.title
  appId : w.appId.bytes = written item.appId
  captureId : w.captureId.bytes = written item.identifier
  compositorId : w.compositorId.bytes = written item.identifier
  validFields : w.validFields = genericFields
  others : { w with
    handle := 0, title := .empty, appId := .empty, captureId := .empty, compositorId := .empty, validFields := 0 } =
      windowRecordInit

/-- A string that is text reads back from its member. -/
theorem jsonTextField_generic (hfits : (View.generic.windowText outputs item).length ≤ maxTextBytes) (name : String)
    (text : Option ClientText)
    (hmember : field (View.generic.windowText outputs item) name = some (optionalText text).bytes)
    (hvalid : utf8Valid false (written text)) :
    ∃ t, jsonTextField (View.generic.windowText outputs item) name = some t ∧ t.bytes = written text := by
  have hlength := sum_field_le (View.generic.windowText outputs item) [name] (by simp)
  have hquotes := length_jsonString (written text)
  have hbytes : (optionalText text).bytes = jsonString false (written text) := rfl
  simp only [List.map_cons, List.map_nil, List.sum_cons, List.sum_nil, hmember, hbytes, Option.map_some,
    Option.getD_some] at hlength
  rw [jsonTextField, hmember, hbytes]
  dsimp only
  rw [jsonText_eq, dif_pos ⟨hvalid, by omega⟩]
  exact ⟨_, rfl, rfl⟩

theorem stateWindowJson_generic (hfits : (View.generic.windowText outputs item).length ≤ maxTextBytes)
    (htexts : Textual item) :
    ∃ w, stateWindowJson (View.generic.windowText outputs item) = some w ∧ ReadBack item w := by
  obtain ⟨hid, hobject⟩ := windowText_id View.generic outputs item
  obtain ⟨hnumber, hnamed⟩ := number_handle item
  obtain ⟨title, htitle, htitleBytes⟩ := jsonTextField_generic hfits "title" item.title
    (by rw [field_generic (writtenNames_name _ (by simp [writtenNames]))]; rfl) htexts.title
  obtain ⟨appId, happId, happIdBytes⟩ := jsonTextField_generic hfits "appId" item.appId
    (by rw [field_generic (writtenNames_name _ (by simp [writtenNames]))]; rfl) htexts.appId
  obtain ⟨captureId, hcaptureId, hcaptureIdBytes⟩ := jsonTextField_generic hfits "captureId" item.identifier
    (by rw [field_generic (writtenNames_name _ (by simp [writtenNames]))]; rfl) htexts.identifier
  obtain ⟨compositorId, hcompositorId, hcompositorIdBytes⟩ := jsonTextField_generic hfits "compositorId" item.identifier
    (by rw [field_generic (writtenNames_name _ (by simp [writtenNames]))]; rfl) htexts.identifier
  have habsent : ∀ name ∈ ["pid", "parent", "transparency", "frame", "client", "surface", "buffer"],
      field (View.generic.windowText outputs item) name = none := by
    have hnames : ∀ name ∈ ["pid", "parent", "transparency", "frame", "client", "surface", "buffer"],
        Name name ∧ name ∉ "validFields" :: genericNames := by
      repeat refine List.forall_mem_cons.mpr ⟨⟨Name.ofList (by decide), by simp [genericNames]⟩, ?_⟩
      exact List.forall_mem_nil _
    exact fun name hmem => field_generic_none (hnames name hmem).1 (hnames name hmem).2
  have hunborrowed : ¬(genericFields &&& Field.buffer ≠ 0 ∧ True ∧ (none : Option Bytes).isSome) := by decide
  have hhandle : BitVec.ofNat 64 item.id.toNat = item.id := BitVec.ofNat_toNat 64 item.id
  unfold stateWindowJson
  simp only [hobject, hid, hnumber, Option.bind_eq_bind, Option.bind_some, if_neg hnamed, htitle, happId, hcaptureId,
    hcompositorId, jsonValidFields_generic, jsonFlags_generic, integer, jsonRect, habsent, List.mem_cons,
    List.not_mem_nil, or_false, or_true, String.reduceEq, Option.map_none, Option.getD_none, Option.bind_none,
    if_neg hunborrowed, hhandle]
  exact ⟨_, rfl, rfl, htitleBytes, happIdBytes, hcaptureIdBytes, hcompositorIdBytes, rfl, rfl⟩

/-- Two records that are read back agree in all but their titles and application ids. -/
theorem ReadBack.eq {other : Toplevel} {w w' : WindowRecord} (h : ReadBack item w) (h' : ReadBack other w')
    (hid : other.id = item.id) (hidentifier : other.identifier = item.identifier) :
    { w' with title := w.title, appId := w.appId } = w := by
  have htext : ∀ {s t : StateText}, s.bytes = t.bytes → s = t := by
    rintro ⟨s, _, _⟩ ⟨t, _, _⟩ hbytes
    cases hbytes
    rfl
  have hhandle : w'.handle = w.handle := by rw [h.handle, h'.handle, hid]
  have hcaptureId : w'.captureId = w.captureId := htext (by rw [h.captureId, h'.captureId, hidentifier])
  have hcompositorId : w'.compositorId = w.compositorId := htext (by rw [h.compositorId, h'.compositorId, hidentifier])
  have hvalidFields : w'.validFields = w.validFields := by rw [h.validFields, h'.validFields]
  have hothers := h'.others.trans h.others.symm
  obtain ⟨flags, validFields, handle, parent, pid, transparency, frame, client, surface, bufferWidth, bufferHeight,
    title, appId, captureId, compositorId, stackingOrder⟩ := w
  simp only [WindowRecord.mk.injEq, true_and] at hothers ⊢
  obtain ⟨hflags, hparent, hpid, htransparency, hframe, hclient, hsurface, hbufferWidth, hbufferHeight, hstacking⟩ :=
    hothers
  exact ⟨hflags, hvalidFields, hhandle, hparent, hpid, htransparency, hframe, hclient, hsurface, hbufferWidth,
    hbufferHeight, hcaptureId, hcompositorId, hstacking⟩

/-- A window whose object fits a text reads back as it was written, and no title or application id changes another
field of its record. -/
theorem window_roundTrip (outputs : List Output) {item : Toplevel} (htexts : Textual item) {b : Buffer}
    (hwritten : View.generic.appendWindow outputs item (bufferInit maxTextBytes) = some b) :
    ∃ w, stateWindowJson b.data = some w ∧ ReadBack item w ∧
      ∀ title appId c, Textual { item with title, appId } →
        View.generic.appendWindow outputs { item with title, appId } (bufferInit maxTextBytes) = some c →
          ∃ w', stateWindowJson c.data = some w' ∧ { w' with title := w.title, appId := w.appId } = w := by
  have hread : ∀ {item : Toplevel} {b : Buffer}, Textual item →
      View.generic.appendWindow outputs item (bufferInit maxTextBytes) = some b →
        ∃ w, stateWindowJson b.data = some w ∧ ReadBack item w := by
    intro item b htexts hwritten
    have hwrites := appendWindow_writes .generic outputs item
    have hfits := (hwrites.isSome (bufferInit_fits maxTextBytes)).mp (by rw [hwritten]; rfl)
    rw [hwrites.data hwritten]
    apply stateWindowJson_generic ?_ htexts
    simpa [bufferInit] using hfits
  obtain ⟨w, hw, hback⟩ := hread htexts hwritten
  refine ⟨w, hw, hback, ?_⟩
  intro title appId c hother hothers
  obtain ⟨w', hw', hback'⟩ := hread hother hothers
  exact ⟨w', hw', hback.eq hback' rfl rfl⟩

/-- A title that imitates the members behind it. -/
theorem window_roundTrip_imitation :
    let item := titled 7 (by decide) ⟨ascii "a\",\"appId\":\"b\x7d", by decide⟩
    ∃ b, View.generic.appendWindow [] item (bufferInit maxTextBytes) = some b ∧
      ∃ w, stateWindowJson b.data = some w ∧ ReadBack item w ∧
        ∀ title appId c, Textual { item with title, appId } →
          View.generic.appendWindow [] { item with title, appId } (bufferInit maxTextBytes) = some c →
            ∃ w', stateWindowJson c.data = some w' ∧ { w' with title := w.title, appId := w.appId } = w := by
  intro item
  have htexts : Textual item := ⟨by decide +kernel, by decide +kernel, by decide +kernel⟩
  have hsome : (View.generic.appendWindow [] item (bufferInit maxTextBytes)).isSome := by decide +kernel
  obtain ⟨b, hwritten⟩ := Option.isSome_iff_exists.mp hsome
  exact ⟨b, hwritten, window_roundTrip [] htexts hwritten⟩

end RoundTrip

end KeysharpDesktop.Wayland
