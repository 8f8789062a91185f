import KeysharpDesktop.Display.Toplevels

/-! When the answers about Wayland windows can be read: the strings of other applications are copied byte by byte, so
an answer is text exactly when every string in it is. -/
namespace KeysharpDesktop.Wayland

open Json

section Names

/-- A member's name: ASCII that stands in a string as it is. -/
def Name (name : String) : Prop := ∀ c ∈ name.toList, c.toNat < 128 ∧ c.toNat ≠ 0 ∧
  jsonEscape false (UInt8.ofNat c.toNat) = [UInt8.ofNat c.toNat]

instance (name : String) : Decidable (Name name) := List.decidableBAll _ _

/-- A literal is a name by its characters. -/
theorem Name.ofList {l : List Char} (h : l.all fun c => c.toNat < 128 ∧ c.toNat ≠ 0 ∧
    jsonEscape false (UInt8.ofNat c.toNat) = [UInt8.ofNat c.toNat]) : Name (String.ofList l) := by
  rw [Name, String.toList_ofList]
  exact List.all_iff_forall_prop.mp h

theorem Name.plain {name : String} (h : Name name) : Json.Plain (ascii name) := by
  intro b hb
  obtain ⟨c, hc, rfl⟩ := List.mem_map.mp hb
  exact (h c hc).2.2

theorem Name.low {name : String} (h : Name name) : ∀ b ∈ ascii name, b < 0x80 ∧ b ≠ 0 := by
  intro b hb
  obtain ⟨c, hc, rfl⟩ := List.mem_map.mp hb
  obtain ⟨hlow, hzero, -⟩ := h c hc
  have hbyte : (UInt8.ofNat c.toNat).toNat = c.toNat := by
    rw [UInt8.toNat_ofNat', Nat.mod_eq_of_lt (by omega)]
  refine ⟨UInt8.lt_iff_toNat_lt.mpr (by rw [hbyte]; exact hlow), ?_⟩
  intro heq
  rw [heq] at hbyte
  exact hzero hbyte.symm

theorem ascii_eq_iff {a b : String} (ha : Name a) (hb : Name b) : ascii a = ascii b ↔ a = b := by
  have hchars : ∀ xs ys : List Char, (∀ c ∈ xs, c.toNat < 128) → (∀ c ∈ ys, c.toNat < 128) →
      (xs.map fun c => UInt8.ofNat c.toNat) = (ys.map fun c => UInt8.ofNat c.toNat) → xs = ys := by
    intro xs
    induction xs with
    | nil =>
      intro ys _ _ h
      cases ys with
      | nil => rfl
      | cons y ys => cases h
    | cons x xs ih =>
      intro ys hx hy h
      cases ys with
      | nil => cases h
      | cons y ys =>
        rw [List.map_cons, List.map_cons, List.cons.injEq] at h
        have hsame : x.toNat = y.toNat := by
          have hbyte := congrArg UInt8.toNat h.1
          have hxlow := hx x (by simp)
          have hylow := hy y (by simp)
          rw [UInt8.toNat_ofNat', UInt8.toNat_ofNat'] at hbyte
          omega
        rw [Char.toNat_inj.mp hsame, ih ys (fun c hc => hx c (by simp [hc])) (fun c hc => hy c (by simp [hc])) h.2]
  constructor
  · intro h
    exact String.toList_injective (hchars _ _ (fun c hc => (ha c hc).1) (fun c hc => (hb c hc).1) h)
  · exact congrArg ascii

end Names

section Values

theorem Spans.mono {j k : ℕ} {v : Bytes} (h : Spans j v) (hjk : j ≤ k) : Spans k v where
  starts := h.starts
  span fuel depth rest hfuel hdepth hrest := h.span fuel depth rest hfuel (by omega) hrest

theorem spans_decimalText (n : ℕ) : Spans 0 (decimalText n) := by
  have hdigit : ∀ b : UInt8, isDigit b → endsScalar b = false ∧ b ≠ 34 ∧ b ≠ 123 ∧ b ≠ 91 :=
    forall_digit (by decide)
  apply spans_word
  · exact fun b hb => (hdigit b (decimalText_all n b hb)).1
  · cases hn : decimalText n with
    | nil => exact absurd hn (decimalText_ne_nil n)
    | cons b bs => exact ⟨b, rfl, (hdigit b (decimalText_all n b (by rw [hn]; simp))).2⟩

theorem spans_signedText (n : ℤ) : Spans 0 (signedText n) := by
  unfold signedText
  split_ifs
  · have hdigit : ∀ b : UInt8, isDigit b → endsScalar b = false := forall_digit (by decide)
    apply spans_word
    · intro b hb
      obtain hb | hb := List.mem_append.mp hb
      · obtain rfl : b = 45 := by simpa [ascii] using hb
        rfl
      · exact hdigit b (decimalText_all _ b hb)
    · exact ⟨45, rfl, by decide⟩
  · exact spans_decimalText _

/-- A value whose names, if it holds any, stand in a string as they are. -/
def WindowValue.Named : WindowValue → Prop
  | names ns => ∀ n ∈ ns, Name n
  | _ => True

def WindowValue.Valid : WindowValue → Prop
  | text t => utf8Valid false t.bytes
  | _ => True

theorem WindowValue.spans {v : WindowValue} (h : v.Named) : Spans 1 v.bytes := by
  cases v with
  | handle id => exact Spans.mono (spans_string _) (by omega)
  | text t => exact Spans.mono (spans_string _) (by omega)
  | flag value =>
    have hword : ∀ b ∈ flagText value, endsScalar b = false := by
      cases value <;> exact List.all_iff_forall_prop.mp (by decide)
    have hhead : ∃ b ∈ (flagText value).head?, b ≠ 34 ∧ b ≠ 123 ∧ b ≠ 91 := by
      cases value <;> exact ⟨_, rfl, by decide⟩
    exact Spans.mono (spans_word hword hhead) (by omega)
  | number n => exact Spans.mono (spans_signedText n) (by omega)
  | rect r =>
    have hname : ∀ name ∈ [ascii "x", ascii "y", ascii "width", ascii "height"], Json.Plain name := by decide
    apply spans_container
    intro part hpart
    simp only [List.map_cons, List.map_nil, List.mem_cons, List.not_mem_nil, or_false] at hpart
    obtain rfl | rfl | rfl | rfl := hpart <;> exact parts_member (hname _ (by simp)) (spans_signedText _)
  | names ns =>
    apply spans_container
    intro part hpart
    obtain ⟨name, hname, rfl⟩ := List.mem_map.mp hpart
    rw [quoted_eq (h name hname).plain]
    exact parts_string _

end Values

section Objects

variable {view : View} {outputs : List Output} {item : Toplevel}

/-- Every name that a view writes. -/
def writtenNames : List String :=
  ["id", "compositorId", "captureId", "title", "appId", "frame", "client", "pid", "transparency", "active", "minimized",
    "maximized", "visible", "alwaysOnTop", "onCurrentWorkspace", "validFields"]

theorem writtenNames_name : ∀ name ∈ writtenNames, Name name := by
  unfold writtenNames
  repeat refine List.forall_mem_cons.mpr ⟨Name.ofList (by decide), ?_⟩
  exact List.forall_mem_nil _

theorem members_named (view : View) (outputs : List Output) (item : Toplevel) :
    ∀ m ∈ view.members outputs item, Name m.1 ∧ m.2.Named := by
  have hall : ∀ m ∈ view.members outputs item, m.1 ∈ writtenNames ∧
      ∀ ns, m.2 = .names ns → ∀ n ∈ ns, n ∈ writtenNames := by
    cases view with
    | generic => simp [View.members, View.others, writtenNames, optionalText]
    | wlr => simp [View.members, View.others, writtenNames, optionalText]
    | cosmic =>
      cases hgeometry : resolveGeometry outputs item <;>
        simp [View.members, View.others, writtenNames, optionalText, hgeometry]
    | hypr =>
      by_cases hpid : 0 < item.hypr.pid.toInt <;> by_cases hopacity : 0 ≤ item.hyprOpacity.toInt <;>
        simp [View.members, View.others, writtenNames, optionalText, hpid, hopacity]
  intro m hm
  obtain ⟨hname, hnames⟩ := hall m hm
  refine ⟨writtenNames_name _ hname, ?_⟩
  cases hv : m.2 with
  | names ns => exact fun n hn => writtenNames_name n (hnames ns hv n hn)
  | _ => trivial

/-- The reader finds what a view wrote. -/
theorem field_windowText (view : View) (outputs : List Output) (item : Toplevel) {name : String} (hname : Name name) :
    field (view.windowText outputs item) name =
      ((view.members outputs item).find? fun m => m.1 == name).map fun m => m.2.bytes := by
  have hnamed := members_named view outputs item
  have hmembers : Members ((view.members outputs item).map fun m => (ascii m.1, m.2.bytes)) := by
    intro m hm
    obtain ⟨w, hw, rfl⟩ := List.mem_map.mp hm
    exact ⟨(hnamed w hw).1.plain, 1, by omega, WindowValue.spans (hnamed w hw).2⟩
  rw [View.windowText, field_objectText hmembers, List.find?_map, Option.map_map]
  have hsame : ∀ ms : List (String × WindowValue), (∀ m ∈ ms, Name m.1 ∧ m.2.Named) →
      (ms.find? fun m => decide (ascii m.1 = ascii name)) = ms.find? fun m => m.1 == name := by
    intro ms hms
    induction ms with
    | nil => rfl
    | cons m ms ih =>
      have heq : decide (ascii m.1 = ascii name) = (m.1 == name) := by
        rw [Bool.eq_iff_iff, decide_eq_true_iff, beq_iff_eq]
        exact ascii_eq_iff (hms m (by simp)).1 hname
      rw [List.find?_cons, List.find?_cons, heq, ih fun c hc => hms c (by simp [hc])]
  have hfind := hsame _ hnamed
  simp only [Function.comp_def] at hfind ⊢
  rw [hfind]

/-- The strings that a view writes of a window. -/
def View.texts : View → Toplevel → List (String × ClientText)
  | .generic, item => [("title", item.title.getD ClientText.empty), ("appId", item.appId.getD ClientText.empty),
      ("captureId", item.identifier.getD ClientText.empty), ("compositorId", item.identifier.getD ClientText.empty)]
  | .hypr, item => [("title", item.title.getD ClientText.empty), ("appId", item.appId.getD ClientText.empty),
      ("captureId", item.identifier.getD ClientText.empty), ("compositorId", item.identifier.getD ClientText.empty)]
  | .cosmic, item => [("title", item.title.getD ClientText.empty), ("appId", item.appId.getD ClientText.empty),
      ("captureId", item.identifier.getD ClientText.empty)]
  | .wlr, item => [("title", item.title.getD ClientText.empty), ("appId", item.appId.getD ClientText.empty)]

theorem members_text (view : View) (outputs : List Output) (item : Toplevel) :
    ∀ name ∈ ["title", "appId", "captureId", "compositorId"],
      (((view.members outputs item).find? fun m => m.1 == name).map fun m => m.2.bytes) =
        ((view.texts item).find? fun t => t.1 == name).map fun t => jsonString false t.2.bytes := by
  cases view with
  | generic => simp [View.members, View.others, View.texts, optionalText, WindowValue.bytes]
  | wlr => simp [View.members, View.others, View.texts, optionalText, WindowValue.bytes]
  | cosmic =>
    cases hgeometry : resolveGeometry outputs item <;>
      simp [View.members, View.others, View.texts, optionalText, WindowValue.bytes, hgeometry]
  | hypr => simp [View.members, View.others, View.texts, optionalText, WindowValue.bytes]

theorem jsonTextField_windowText (hfits : (view.windowText outputs item).length ≤ maxTextBytes) {name : String}
    (hname : name ∈ ["title", "appId", "captureId", "compositorId"]) :
    (jsonTextField (view.windowText outputs item) name).isSome ↔
      ∀ t, ((view.texts item).find? fun t => t.1 == name) = some t → utf8Valid false t.2.bytes := by
  have hwritten : Name name := writtenNames_name name (by revert name; decide)
  have hfield := field_windowText view outputs item hwritten
  rw [members_text view outputs item name hname] at hfield
  have hlength := sum_field_le (view.windowText outputs item) [name] (by simp)
  simp only [List.map_cons, List.map_nil, List.sum_cons, List.sum_nil] at hlength
  unfold jsonTextField
  cases hfind : (view.texts item).find? fun t => t.1 == name with
  | none =>
    rw [hfind, Option.map_none] at hfield
    rw [hfield]
    simp
  | some t =>
    rw [hfind, Option.map_some] at hfield
    rw [hfield] at hlength ⊢
    have hquotes := length_jsonString t.2.bytes
    have hroom : t.2.bytes.length + 1 ≤ maxTextBytes := by
      rw [Option.map_some, Option.getD_some] at hlength
      omega
    simp only [jsonText_jsonString, hroom, and_true, Option.some.injEq, forall_eq']

/-- A window's object starts with its handle, so that it stands for itself. -/
theorem windowText_id (view : View) (outputs : List Output) (item : Toplevel) :
    field (view.windowText outputs item) "id" = some (WindowValue.handle item.id).bytes ∧
      windowObject (view.windowText outputs item) = view.windowText outputs item := by
  have hid := field_windowText view outputs item (writtenNames_name "id" (by simp [writtenNames]))
  have hfirst : (view.members outputs item).find? (fun m => m.1 == "id") = some ("id", .handle item.id) := rfl
  rw [hfirst, Option.map_some] at hid
  refine ⟨hid, ?_⟩
  unfold windowObject
  rw [hid]

/-- The number that the reader takes from a handle. -/
theorem number_handle (item : Toplevel) :
    number (WindowValue.handle item.id).bytes = some item.id.toNat ∧ ¬item.id.toNat = 0 :=
  ⟨number_quoted item.id.isLt, fun hzero => item.named (BitVec.eq_of_toNat_eq hzero)⟩

/-- The reader takes a window's object exactly when every string in it is text. -/
theorem stateWindowJson_windowText (hfits : (view.windowText outputs item).length ≤ maxTextBytes) :
    (stateWindowJson (view.windowText outputs item)).isSome ↔ ∀ t ∈ view.texts item, utf8Valid false t.2.bytes := by
  obtain ⟨hid, hobject⟩ := windowText_id view outputs item
  obtain ⟨hnumber, hnamed⟩ := number_handle item
  have htitle := jsonTextField_windowText hfits (show "title" ∈ _ by simp)
  have happ := jsonTextField_windowText hfits (show "appId" ∈ _ by simp)
  have hcapture := jsonTextField_windowText hfits (show "captureId" ∈ _ by simp)
  have hcompositor := jsonTextField_windowText hfits (show "compositorId" ∈ _ by simp)
  have hall : (∀ t ∈ view.texts item, utf8Valid false t.2.bytes) ↔
      (jsonTextField (view.windowText outputs item) "title").isSome ∧
      (jsonTextField (view.windowText outputs item) "appId").isSome ∧
      (jsonTextField (view.windowText outputs item) "captureId").isSome ∧
      (jsonTextField (view.windowText outputs item) "compositorId").isSome := by
    rw [htitle, happ, hcapture, hcompositor]
    cases view <;> simp [View.texts]
  rw [hall]
  unfold stateWindowJson
  simp only [hobject, hid, hnumber, Option.bind_eq_bind, Option.bind_some, if_neg hnamed]
  cases jsonTextField (view.windowText outputs item) "title" <;>
    cases jsonTextField (view.windowText outputs item) "appId" <;>
    cases jsonTextField (view.windowText outputs item) "captureId" <;>
    cases jsonTextField (view.windowText outputs item) "compositorId" <;> simp

end Objects

section Texts

variable {view : View} {outputs : List Output} {item : Toplevel}

theorem utf8Valid_cons {b : UInt8} (hlow : b < 0x80) (hzero : b ≠ 0) (bs : Bytes) :
    utf8Valid false (b :: bs) = utf8Valid false bs :=
  utf8Valid_ascii_append (x := [b]) (by simpa using ⟨hlow, hzero⟩) bs

theorem utf8Valid_joined (parts : List Bytes) : utf8Valid false (joined parts) = parts.all (utf8Valid false) := by
  have hflat : ∀ parts : List Bytes,
      (∀ b ∈ (parts.flatMap fun part => (44 : UInt8) :: part).head?, b < 0x80) ∧
        utf8Valid false (parts.flatMap fun part => 44 :: part) = parts.all (utf8Valid false) := by
    intro parts
    induction parts with
    | nil => exact ⟨by simp, rfl⟩
    | cons part parts ih =>
      refine ⟨by simp, ?_⟩
      rw [List.flatMap_cons, List.cons_append, utf8Valid_cons (by decide) (by decide), utf8Valid_append ih.1, ih.2,
        List.all_cons]
  cases parts with
  | nil => rfl
  | cons part parts => rw [joined, utf8Valid_append (hflat parts).1, (hflat parts).2, List.all_cons]

theorem utf8Valid_containerText (object : Bool) (parts : List Bytes) :
    utf8Valid false (containerText object parts) = parts.all (utf8Valid false) := by
  have hclose : utf8Valid false [closing object] = true := by cases object <;> decide
  have hlow : ∀ b ∈ [closing object].head?, b < 0x80 := by cases object <;> simp [closing]
  rw [containerText, utf8Valid_cons (by cases object <;> decide) (by cases object <;> decide), utf8Valid_append hlow,
    hclose, Bool.and_true, utf8Valid_joined]

theorem utf8Valid_memberText {name : Bytes} (h : ∀ b ∈ name, b < 0x80 ∧ b ≠ 0) (v : Bytes) :
    utf8Valid false (memberText (name, v)) = utf8Valid false v := by
  rw [memberText, quoted, List.cons_append, utf8Valid_cons (by decide) (by decide), List.append_assoc,
    utf8Valid_ascii_append h, List.cons_append, utf8Valid_cons (by decide) (by decide), List.nil_append,
    utf8Valid_cons (by decide) (by decide)]

theorem decimalText_low (n : ℕ) : ∀ b ∈ decimalText n, b < 0x80 ∧ b ≠ 0 := by
  have hdigit : ∀ b : UInt8, isDigit b → b < 0x80 ∧ b ≠ 0 := forall_digit (by decide)
  exact fun b hb => hdigit b (decimalText_all n b hb)

theorem signedText_low (n : ℤ) : ∀ b ∈ signedText n, b < 0x80 ∧ b ≠ 0 := by
  intro b hb
  unfold signedText at hb
  split_ifs at hb
  · obtain hb | hb := List.mem_append.mp hb
    · obtain rfl : b = 45 := by simpa [ascii] using hb
      decide
    · exact decimalText_low _ b hb
  · exact decimalText_low _ b hb

theorem WindowValue.utf8Valid_bytes {v : WindowValue} (h : v.Named) : utf8Valid false v.bytes ↔ v.Valid := by
  cases v with
  | handle id =>
    have hlow := decimalText_low id.toNat
    have hzero : (0 : UInt8) ∉ decimalText id.toNat := fun hmem => (hlow 0 hmem).2 rfl
    simp only [WindowValue.bytes, utf8Valid_jsonString hzero, utf8Valid_of_ascii hlow, WindowValue.Valid]
  | text t => simp only [WindowValue.bytes, utf8Valid_jsonString t.terminated, WindowValue.Valid]
  | flag value =>
    have hword : ∀ value, utf8Valid false (flagText value) = true := by decide
    simp only [WindowValue.bytes, hword, WindowValue.Valid]
  | number n => simp only [WindowValue.bytes, utf8Valid_of_ascii (signedText_low n), WindowValue.Valid]
  | rect r =>
    have hname : ∀ name ∈ [ascii "x", ascii "y", ascii "width", ascii "height"], ∀ b ∈ name, b < 0x80 ∧ b ≠ 0 := by
      decide
    simp only [WindowValue.bytes, objectText, utf8Valid_containerText, List.map_cons, List.map_nil, List.all_cons,
      List.all_nil, WindowValue.Valid]
    rw [utf8Valid_memberText (hname _ (by simp)), utf8Valid_memberText (hname _ (by simp)),
      utf8Valid_memberText (hname _ (by simp)), utf8Valid_memberText (hname _ (by simp))]
    simp [utf8Valid_of_ascii (signedText_low _)]
  | names ns =>
    simp only [WindowValue.bytes, utf8Valid_containerText, WindowValue.Valid, iff_true]
    rw [List.all_eq_true]
    intro part hpart
    obtain ⟨name, hname, rfl⟩ := List.mem_map.mp hpart
    have hlow := (h name hname).low
    have hzero : (0 : UInt8) ∉ ascii name := fun hmem => (hlow 0 hmem).2 rfl
    rw [quoted_eq (h name hname).plain, utf8Valid_jsonString hzero]
    exact utf8Valid_of_ascii hlow false

/-- A window's object is text exactly when every string in it is. -/
theorem utf8Valid_windowText (view : View) (outputs : List Output) (item : Toplevel) :
    utf8Valid false (view.windowText outputs item) ↔ ∀ t ∈ view.texts item, utf8Valid false t.2.bytes := by
  have hnamed := members_named view outputs item
  have hmembers : utf8Valid false (view.windowText outputs item) ↔ ∀ m ∈ view.members outputs item, m.2.Valid := by
    rw [View.windowText, objectText, utf8Valid_containerText, List.all_eq_true]
    constructor
    · intro h m hm
      have hpart := h (memberText (ascii m.1, m.2.bytes)) (by
        simp only [List.map_map, List.mem_map]
        exact ⟨m, hm, rfl⟩)
      rw [utf8Valid_memberText (hnamed m hm).1.low] at hpart
      exact (WindowValue.utf8Valid_bytes (hnamed m hm).2).mp hpart
    · intro h part hpart
      simp only [List.map_map, List.mem_map] at hpart
      obtain ⟨m, hm, rfl⟩ := hpart
      rw [Function.comp_apply, utf8Valid_memberText (hnamed m hm).1.low]
      exact (WindowValue.utf8Valid_bytes (hnamed m hm).2).mpr (h m hm)
  rw [hmembers]
  cases view with
  | generic => simp [View.members, View.others, View.texts, optionalText, WindowValue.Valid]; tauto
  | wlr => simp [View.members, View.others, View.texts, optionalText, WindowValue.Valid]
  | cosmic =>
    cases hgeometry : resolveGeometry outputs item <;>
      simp [View.members, View.others, View.texts, optionalText, WindowValue.Valid, hgeometry]
  | hypr =>
    by_cases hpid : 0 < item.hypr.pid.toInt <;> by_cases hopacity : 0 ≤ item.hyprOpacity.toInt <;>
      simp [View.members, View.others, View.texts, optionalText, WindowValue.Valid, hpid, hopacity] <;> tauto

end Texts

section Answers

variable {view : View} {outputs : List Output} {table : List Toplevel}

/-- What an OK answer owes the client. -/
def AnswerReadable (result : OperationResult) : Prop :=
  result.status = Status.ok → (Client.parseOwnedString result.tail true).isSome

/-- What can be read of a window: its strings are text, and there is room for its object. -/
structure Readable (view : View) (outputs : List Output) (item : Toplevel) : Prop where
  texts : ∀ t ∈ view.texts item, utf8Valid false t.2.bytes
  fits : (view.windowText outputs item).length ≤ maxTextBytes

theorem appendWindow_writes (view : View) (outputs : List Output) (item : Toplevel) :
    Writes (view.appendWindow outputs item) (view.windowText outputs item) := by
  cases view with
  | generic => exact genericWindow_writes item
  | wlr => exact wlrWindow_writes item
  | cosmic => exact cosmicWindow_writes outputs item
  | hypr => exact hyprWindow_writes item

theorem refused_readable (status : Status) (diagnostic : Bytes) (h : status ≠ Status.ok) :
    AnswerReadable (resultError status 0 diagnostic) := fun hok => absurd hok h

theorem parseOwnedString_isSome {body : Bytes} (hfits : body.length ≤ maxTextBytes) :
    (Client.parseOwnedString (encodeU32 (BitVec.ofNat 32 body.length) ++ body) true).isSome ↔ utf8Valid false body := by
  have hmax : maxTextBytes < 2 ^ 32 := by decide
  have hlength : (BitVec.ofNat 32 body.length).toNat = body.length := by
    rw [BitVec.toNat_ofNat, Nat.mod_eq_of_lt (by omega)]
  have hread := cursorBytes_append body []
  rw [List.append_nil] at hread
  have hshort : ¬maxTextBytes < body.length := Nat.not_lt.mpr hfits
  simp only [Client.parseOwnedString, if_true, cursorU32_encodeU32, Option.bind_eq_bind, Option.bind_some, hlength,
    if_neg hshort, hread, cursorFinished, List.isEmpty_nil, decide_eq_false hshort, Bool.false_or]
  cases utf8Valid false body <;> simp

/-- A text that fits is framed, and one that does not is refused. -/
theorem textAnswer_eq {body : Buffer → Option Buffer} {text : Bytes} (hbody : Writes body text) (tooLarge : String) :
    textAnswer body tooLarge =
      if text.length ≤ maxTextBytes then resultTake (encodeU32 (BitVec.ofNat 32 text.length) ++ text)
      else resultError Status.resourceExhausted 0 (ascii tooLarge) := by
  unfold textAnswer
  cases hb : body (bufferInit maxTextBytes) with
  | none =>
    have hlong := hbody.bufferInit_eq_none.mp hb
    rw [if_neg (by omega)]
  | some b =>
    obtain ⟨hdata, hlength⟩ := hbody.bufferInit_eq_some hb
    rw [if_pos hlength]
    rw [← hdata] at hlength ⊢
    obtain ⟨c, hc, hframed⟩ := bufferFrameText_eq hlength
    simp only [resultTakeFramedText, hc, hframed]

/-- An answer can be read when the text that it frames is valid, or too long to be framed. -/
theorem textAnswer_readable_iff {body : Buffer → Option Buffer} {text : Bytes} (hbody : Writes body text)
    (tooLarge : String) :
    AnswerReadable (textAnswer body tooLarge) ↔ (text.length ≤ maxTextBytes → utf8Valid false text) := by
  rw [textAnswer_eq hbody]
  by_cases hlength : text.length ≤ maxTextBytes
  · rw [if_pos hlength]
    have hparse := parseOwnedString_isSome hlength
    simp only [AnswerReadable, resultTake, hparse, hlength, true_implies]
  · rw [if_neg hlength]
    constructor
    · exact fun _ hshort => absurd hshort hlength
    · exact fun _ => refused_readable _ _ (by decide)

theorem textAnswer_readable {body : Buffer → Option Buffer} {text : Bytes} (hbody : Writes body text)
    (hvalid : utf8Valid false text) (tooLarge : String) : AnswerReadable (textAnswer body tooLarge) :=
  (textAnswer_readable_iff hbody tooLarge).mpr fun _ => hvalid

theorem appendAll_writes {append : Toplevel → Buffer → Option Buffer} {text : Toplevel → Bytes}
    (h : ∀ item, Writes (append item) (text item)) (items : List Toplevel) :
    Writes (appendAll append true items) (joined (items.map text)) := by
  have hrest : ∀ items : List Toplevel,
      Writes (appendAll append false items) ((items.map text).flatMap fun part => 44 :: part) := by
    intro items
    induction items with
    | nil => exact Writes.skip
    | cons item items ih => exact ((bufferBytes_writes (ascii ",")).bind ((h item).bind ih)).of_eq (by simp [ascii])
  cases items with
  | nil => exact Writes.skip
  | cons item items => exact (h item).bind (hrest items)

theorem utf8Valid_between {before after : Bytes} (hbefore : ∀ b ∈ before, b < 0x80 ∧ b ≠ 0)
    (hafter : ∀ b ∈ after, b < 0x80 ∧ b ≠ 0) (text : Bytes) :
    utf8Valid false (before ++ (text ++ after)) = utf8Valid false text := by
  have hlow : ∀ b ∈ after.head?, b < 0x80 := fun b hb => (hafter b (List.mem_of_mem_head? hb)).1
  rw [utf8Valid_ascii_append hbefore, utf8Valid_append hlow, utf8Valid_of_ascii hafter, Bool.and_true]

/-- The text that `windowOf` writes. -/
def windowOfText (view : View) (outputs : List Output) (item : Option Toplevel) : Bytes :=
  ascii "\x7b\"ok\":true,\"window\":" ++ (item.elim (ascii "null") (view.windowText outputs) ++ ascii "\x7d")

theorem windowOf_writes (view : View) (outputs : List Output) (item : Option Toplevel) :
    Writes (windowOf view outputs item) (windowOfText view outputs item) := by
  cases item with
  | none => exact (bufferBytes_writes _).bind ((bufferBytes_writes _).bind (bufferBytes_writes _))
  | some i => exact (bufferBytes_writes _).bind ((appendWindow_writes view outputs i).bind (bufferBytes_writes _))

theorem windowOf_readable {item : Option Toplevel} (h : ∀ i ∈ item, Readable view outputs i) (tooLarge : String) :
    AnswerReadable (textAnswer (windowOf view outputs item) tooLarge) := by
  apply textAnswer_readable (windowOf_writes view outputs item)
  rw [windowOfText, utf8Valid_between (by decide) (by decide)]
  cases item with
  | none => exact (by decide : utf8Valid false (ascii "null"))
  | some i => exact (utf8Valid_windowText view outputs i).mpr (h i rfl).texts

def listText (view : View) (outputs : List Output) (table : List Toplevel) (includeHidden : Bool) : Bytes :=
  ascii "\x7b\"ok\":true,\"windows\":[" ++
    (joined ((table.filter (view.listed includeHidden)).map (view.windowText outputs)) ++ ascii "]\x7d")

/-- The list that fits can be read exactly when every string of a listed window is text. -/
theorem windowList_readable_iff (view : View) (outputs : List Output) (table : List Toplevel) (includeHidden : Bool) :
    AnswerReadable (windowList view outputs table includeHidden) ↔
      ((listText view outputs table includeHidden).length ≤ maxTextBytes →
        ∀ item ∈ table, view.listed includeHidden item → ∀ t ∈ view.texts item, utf8Valid false t.2.bytes) := by
  have hwrites := (bufferBytes_writes (ascii "\x7b\"ok\":true,\"windows\":[")).bind <|
    (appendAll_writes (appendWindow_writes view outputs) (table.filter (view.listed includeHidden))).bind <|
    (bufferBytes_writes (ascii "]\x7d"))
  have htext : utf8Valid false (listText view outputs table includeHidden) ↔
      ∀ item ∈ table, view.listed includeHidden item → ∀ t ∈ view.texts item, utf8Valid false t.2.bytes := by
    rw [listText, utf8Valid_between (by decide) (by decide), utf8Valid_joined, List.all_eq_true]
    simp only [List.forall_mem_map, utf8Valid_windowText, List.mem_filter, and_imp]
  have hreadable := textAnswer_readable_iff hwrites "the window list is too large"
  rw [← htext]
  exact hreadable

theorem windowHandles_readable (view : View) (table : List Toplevel) : AnswerReadable (windowHandles view table) := by
  have hwrites := (bufferBytes_writes (ascii "\x7b\"ok\":true,\"handles\":[")).bind <|
    (appendAll_writes (fun item => bufferJsonString_writes (decimalText item.id.toNat) false)
      (table.filter view.usable)).bind <|
    (bufferBytes_writes (ascii "]\x7d"))
  have htext : utf8Valid false
      (joined ((table.filter view.usable).map fun item => jsonString false (decimalText item.id.toNat))) := by
    rw [utf8Valid_joined, List.all_eq_true]
    intro part hpart
    obtain ⟨item, -, rfl⟩ := List.mem_map.mp hpart
    exact (WindowValue.utf8Valid_bytes (v := .handle item.id) trivial).mpr trivial
  refine textAnswer_readable hwrites ?_ _
  rw [utf8Valid_between (by decide) (by decide)]
  exact htext

theorem answer_readable (h : ∀ item ∈ table, view.usable item → Readable view outputs item) (query : Query) :
    AnswerReadable (answer view outputs table query) := by
  cases query with
  | list includeHidden =>
    apply (windowList_readable_iff view outputs table includeHidden).mpr
    intro _ item hitem hlisted
    rw [View.listed, Bool.and_eq_true] at hlisted
    exact (h item hitem hlisted.1).texts
  | window handle =>
    show AnswerReadable (windowQuery view outputs table handle)
    unfold windowQuery findWindow
    cases hfind : table.find? fun item => view.usable item && item.id == handle with
    | none => exact refused_readable _ _ (by decide)
    | some item =>
      have hmem := List.mem_of_find?_eq_some hfind
      have husable := List.find?_some hfind
      rw [Bool.and_eq_true] at husable
      refine windowOf_readable ?_ _
      intro i hi
      cases hi
      exact h item hmem husable.1
  | handles => exact windowHandles_readable view table
  | active =>
    show AnswerReadable (activeWindow view outputs table)
    unfold activeWindow
    split_ifs
    · exact refused_readable _ _ (by decide)
    · refine windowOf_readable ?_ _
      intro item hitem
      have hactive := List.find?_some hitem
      rw [Bool.and_eq_true] at hactive
      exact h item (List.mem_of_find?_eq_some hitem) hactive.1
  | atPoint x y =>
    unfold answer
    dsimp only
    split_ifs with hview
    · subst hview
      refine windowOf_readable ?_ _
      intro item hitem
      have hshown := List.find?_some hitem
      simp only [Bool.and_eq_true] at hshown
      exact h item (List.mem_reverse.mp (List.mem_of_find?_eq_some hitem)) hshown.1.1
    · exact refused_readable _ _ (by decide)

theorem mapM_isSome_iff {α β : Type*} (f : α → Option β) (l : List α) :
    (l.mapM f).isSome ↔ ∀ a ∈ l, (f a).isSome := by
  induction l with
  | nil => simp
  | cons a l ih =>
    rw [List.mapM_cons, List.forall_mem_cons, ← ih]
    cases f a with
    | none => simp
    | some b => cases List.mapM f l <;> simp

/-- The snapshot is taken exactly when every usable window can be read. -/
theorem snapshot_isSome_iff (view : View) (outputs : List Output) (table : List Toplevel) :
    (snapshot view outputs table).isSome ↔ ∀ item ∈ table, view.usable item → Readable view outputs item := by
  have hone : ∀ item : Toplevel,
      ((view.appendWindow outputs item (bufferInit maxTextBytes)).bind fun b => stateWindowJson b.data).isSome ↔
        Readable view outputs item := by
    intro item
    have hwrites := appendWindow_writes view outputs item
    cases hb : view.appendWindow outputs item (bufferInit maxTextBytes) with
    | none =>
      have hlong := hwrites.bufferInit_eq_none.mp hb
      simp only [Option.bind_none, Option.isSome_none, Bool.false_eq_true, false_iff]
      intro hreadable
      have hfits := hreadable.fits
      omega
    | some b =>
      obtain ⟨hdata, hfits⟩ := hwrites.bufferInit_eq_some hb
      rw [Option.bind_some, hdata, stateWindowJson_windowText hfits]
      constructor
      · exact fun htexts => ⟨htexts, hfits⟩
      · exact fun hreadable => hreadable.texts
  have hrecord : ∀ p : Toplevel × ℕ, (do
      let b ← view.appendWindow outputs p.1 (bufferInit maxTextBytes)
      let w ← stateWindowJson b.data
      some { w with
        stackingOrder := BitVec.ofNat 64 p.2
        validFields := w.validFields ||| Field.stackingOrder } : Option WindowRecord).isSome ↔
        Readable view outputs p.1 := by
    intro p
    rw [← hone p.1]
    cases view.appendWindow outputs p.1 (bufferInit maxTextBytes) with
    | none => rfl
    | some b => cases hw : stateWindowJson b.data <;> simp [hw]
  unfold snapshot
  rw [mapM_isSome_iff]
  constructor
  · intro h item hitem husable
    have hmem : item ∈ ((table.filter view.usable).zipIdx.map Prod.fst) := by
      rw [List.zipIdx_map_fst]
      exact List.mem_filter.mpr ⟨hitem, husable⟩
    obtain ⟨p, hp, rfl⟩ := List.mem_map.mp hmem
    exact (hrecord p).mp (h p hp)
  · intro h p hp
    have hmem : p.1 ∈ ((table.filter view.usable).zipIdx.map Prod.fst) := List.mem_map_of_mem hp
    rw [List.zipIdx_map_fst] at hmem
    obtain ⟨hitem, husable⟩ := List.mem_filter.mp hmem
    exact (hrecord p).mpr (h p.1 hitem husable)

/-- Every answer and the snapshot can be read exactly when every usable window can. -/
theorem answers_readable_iff (view : View) (outputs : List Output) (table : List Toplevel) :
    ((∀ query, AnswerReadable (answer view outputs table query)) ∧ (snapshot view outputs table).isSome) ↔
      ∀ item ∈ table, view.usable item → Readable view outputs item := by
  constructor
  · intro h
    exact (snapshot_isSome_iff view outputs table).mp h.2
  · intro h
    exact ⟨answer_readable h, (snapshot_isSome_iff view outputs table).mpr h⟩

end Answers

section Runs

def titled (id : BitVec 64) (named : id ≠ 0) (title : ClientText) : Toplevel where
  id
  named
  handle := true
  wlrHandle := false
  cosmicHandle := false
  closed := false
  ready := true
  title := some title
  appId := none
  identifier := some ⟨ascii "a1", by decide⟩
  state := 0
  geometries := []
  hyprKnown := false
  hypr := ⟨0, ⟨0, 0, 0, 0⟩, false, false, false, false, false, 0, []⟩
  hyprOpacity := 0

/-- Two windows, one with a title that is a single byte 0xff. -/
def illFormedTable : List Toplevel :=
  [titled 1 (by decide) ⟨ascii "notes", by decide⟩, titled 2 (by decide) ⟨[0xff], by decide⟩]

/-- One such title makes the list unreadable for the client and stops the watch. -/
theorem illFormedTable_unreadable :
    (answer .generic [] illFormedTable (.list true)).status = Status.ok ∧
      Client.parseOwnedString (answer .generic [] illFormedTable (.list true)).tail true = none ∧
      (snapshot .generic [] illFormedTable).isNone := by decide +kernel

end Runs

end KeysharpDesktop.Wayland
