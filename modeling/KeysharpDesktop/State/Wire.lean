import Mathlib.Data.Fin.VecNotation
import KeysharpDesktop.State.Codec

/-! The codec on the structs of the client interface: an event is filled field by field, and what
was filled before a failure is cleared. -/
namespace KeysharpDesktop

/-- `ksd_window_record`; the fourteen words from `frame_x` on stand one after another. -/
structure WindowStruct where
  flags : BitVec 32 := 0
  validFields : BitVec 64 := 0
  handle : BitVec 64 := 0
  parent : BitVec 64 := 0
  pid : BitVec 32 := 0
  transparency : BitVec 32 := 0
  geometry : Fin 14 → BitVec 32 := fun _ => 0
  title : Bytes := []
  appId : Bytes := []
  captureId : Bytes := []
  compositorId : Bytes := []
  stackingOrder : BitVec 64 := 0

/-- `ksd_state_event`. -/
structure EventStruct where
  kind : BitVec 32 := 0
  domain : BitVec 32 := 0
  epoch : BitVec 64 := 0
  sequence : BitVec 64 := 0
  window : WindowStruct := {}
  data : Bytes := []
  grantedScopes : BitVec 32 := 0
  revokedScopes : BitVec 32 := 0

def eventStructInit : EventStruct := {}

/-- The strings are given back, and every field is zero again. -/
def eventStructClear (_ : EventStruct) : EventStruct := eventStructInit

section Encode

def eventStructEncode (e : EventStruct) (b : Buffer) : Option Buffer := do
  let b ← bufferU32 b e.kind
  let b ← bufferU32 b e.domain
  let b ← bufferU64 b e.epoch
  let b ← bufferU64 b e.sequence
  let b ← bufferU32 b e.grantedScopes
  let b ← bufferU32 b e.revokedScopes
  let b ← bufferU32 b e.window.flags
  let b ← bufferU64 b e.window.validFields
  let b ← bufferU64 b e.window.handle
  let b ← bufferU64 b e.window.parent
  let b ← bufferU32 b e.window.pid
  let b ← bufferU32 b e.window.transparency
  let b ← (List.finRange 14).foldlM (fun b i => bufferU32 b (e.window.geometry i)) b
  let b ← bufferU64 b e.window.stackingOrder
  let b ← encodeText b e.window.title
  let b ← encodeText b e.window.appId
  let b ← encodeText b e.window.captureId
  let b ← encodeText b e.window.compositorId
  encodeText b e.data

end Encode

section Decode

/-- The event under construction, and what is left to read. -/
structure Decoding where
  event : EventStruct
  cursor : Cursor

/-- A read of one field, and whether it succeeded. -/
abbrev Decoder := Decoding → Bool × Decoding

def readField {α : Type} (read : Cursor → Option (α × Cursor)) (store : α → EventStruct → EventStruct) : Decoder :=
  fun s =>
    match read s.cursor with
    | none => (false, s)
    | some (v, cursor) => (true, ⟨store v s.event, cursor⟩)

/-- Reads joined by `&&`: the first that fails is the last that is done. -/
def readAll : List Decoder → Decoder
  | [], s => (true, s)
  | f :: fs, s =>
    let (ok, s) := f s
    if ok then readAll fs s else (false, s)

def storeWindow {α : Type} (store : α → WindowStruct → WindowStruct) (v : α) (e : EventStruct) : EventStruct :=
  { e with window := store v e.window }

def storeText (store : Bytes → WindowStruct → WindowStruct) (text : StateText) (e : EventStruct) : EventStruct :=
  { e with window := store text.bytes e.window }

def headFields : List Decoder :=
  [readField cursorU32 fun v e => { e with kind := v },
    readField cursorU32 fun v e => { e with domain := v },
    readField cursorU64 fun v e => { e with epoch := v },
    readField cursorU64 fun v e => { e with sequence := v },
    readField cursorU32 fun v e => { e with grantedScopes := v },
    readField cursorU32 fun v e => { e with revokedScopes := v },
    readField cursorU32 (storeWindow fun v w => { w with flags := v }),
    readField cursorU64 (storeWindow fun v w => { w with validFields := v }),
    readField cursorU64 (storeWindow fun v w => { w with handle := v }),
    readField cursorU64 (storeWindow fun v w => { w with parent := v }),
    readField cursorU32 (storeWindow fun v w => { w with pid := v }),
    readField cursorU32 (storeWindow fun v w => { w with transparency := v })]

/-- One turn of the loop over the words from `frame_x` on. -/
def geometryField (i : Fin 14) : Decoder :=
  readField cursorU32 (storeWindow fun v w => { w with geometry := Function.update w.geometry i v })

def tailFields : List Decoder :=
  [readField cursorU64 (storeWindow fun v w => { w with stackingOrder := v }),
    readField decodeText (storeText fun v w => { w with title := v }),
    readField decodeText (storeText fun v w => { w with appId := v }),
    readField decodeText (storeText fun v w => { w with captureId := v }),
    readField decodeText (storeText fun v w => { w with compositorId := v }),
    readField decodeText fun text e => { e with data := text.bytes }]

def eventFields : List Decoder := headFields ++ ((List.finRange 14).map geometryField ++ tailFields)

/-- The checks once every field is read. -/
def eventAcceptable (s : Decoding) : Bool :=
  cursorFinished s.cursor && StateKind.snapshotBegin.wire ≤ s.event.kind && s.event.kind ≤ StateKind.reset.wire &&
    s.event.domain != 0 && s.event.domain &&& (s.event.domain - 1) == 0 && s.event.domain &&& ~~~stateAll == 0

/-- Whether the bytes are an event, and the event that the caller is left with. -/
def eventStructDecode (data : Bytes) : Bool × EventStruct :=
  let (ok, s) := readAll eventFields ⟨eventStructInit, data⟩
  if ok && eventAcceptable s then (true, s.event) else (false, eventStructClear s.event)

end Decode

section Bytes

/-- The numbers in front of the geometry. -/
def headBytes (e : EventStruct) : Bytes :=
  encodeU32 e.kind ++ (encodeU32 e.domain ++ (encodeU64 e.epoch ++ (encodeU64 e.sequence ++
    (encodeU32 e.grantedScopes ++ (encodeU32 e.revokedScopes ++ (encodeU32 e.window.flags ++
      (encodeU64 e.window.validFields ++ (encodeU64 e.window.handle ++ (encodeU64 e.window.parent ++
        (encodeU32 e.window.pid ++ encodeU32 e.window.transparency))))))))))

def geometryBytes (w : WindowStruct) (is : List (Fin 14)) : Bytes := is.flatMap fun i => encodeU32 (w.geometry i)

def tailBytes (e : EventStruct) : Bytes :=
  encodeU64 e.window.stackingOrder ++ (textBytes e.window.title ++ (textBytes e.window.appId ++
    (textBytes e.window.captureId ++ (textBytes e.window.compositorId ++ textBytes e.data))))

/-- The one wire form of an event. -/
def structBytes (e : EventStruct) : Bytes :=
  headBytes e ++ (geometryBytes e.window (List.finRange 14) ++ tailBytes e)

def EventStruct.texts (e : EventStruct) : List Bytes :=
  [e.window.title, e.window.appId, e.window.captureId, e.window.compositorId, e.data]

/-- Strings that can be encoded. -/
def EventStruct.Short (e : EventStruct) : Prop := ∀ text ∈ e.texts, text.length ≤ maxTextBytes

/-- Strings that are valid and without NUL. -/
def EventStruct.Valid (e : EventStruct) : Prop := ∀ text ∈ e.texts, utf8Valid false text

/-- A kind from the first to the last, and one domain that is known. -/
structure EventStruct.Known (e : EventStruct) : Prop where
  first : StateKind.snapshotBegin.wire ≤ e.kind
  last : e.kind ≤ StateKind.reset.wire
  some : e.domain ≠ 0
  single : e.domain &&& (e.domain - 1) = 0
  known : e.domain &&& ~~~stateAll = 0

variable {e : EventStruct}

theorem eventStructEncode_writes (h : e.Short) : Writes (eventStructEncode e) (structBytes e) := by
  simp only [EventStruct.Short, EventStruct.texts, List.mem_cons, List.not_mem_nil, or_false, forall_eq_or_imp,
    forall_eq] at h
  obtain ⟨htitle, happ, hcapture, hcompositor, hdata⟩ := h
  have hgeometry : Writes (fun b => (List.finRange 14).foldlM (fun b i => bufferU32 b (e.window.geometry i)) b)
      (geometryBytes e.window (List.finRange 14)) :=
    Writes.foldlM (fun i => bufferU32_writes (e.window.geometry i)) (List.finRange 14)
  have hwhole := (bufferU32_writes e.kind).bind <| (bufferU32_writes e.domain).bind <|
    (bufferU64_writes e.epoch).bind <| (bufferU64_writes e.sequence).bind <|
    (bufferU32_writes e.grantedScopes).bind <| (bufferU32_writes e.revokedScopes).bind <|
    (bufferU32_writes e.window.flags).bind <| (bufferU64_writes e.window.validFields).bind <|
    (bufferU64_writes e.window.handle).bind <| (bufferU64_writes e.window.parent).bind <|
    (bufferU32_writes e.window.pid).bind <| (bufferU32_writes e.window.transparency).bind <|
    hgeometry.bind <| (bufferU64_writes e.window.stackingOrder).bind <| (encodeText_writes htitle).bind <|
    (encodeText_writes happ).bind <| (encodeText_writes hcapture).bind <|
    (encodeText_writes hcompositor).bind (encodeText_writes hdata)
  simp only [structBytes, headBytes, tailBytes, List.append_assoc]
  exact hwhole

end Bytes

section Reads

variable {α : Type} {read : Cursor → Option (α × Cursor)} {store : α → EventStruct → EventStruct}
  {s t : Decoding} {fs gs : List Decoder} {f : Decoder} {e : EventStruct} {c rest : Bytes} {v : α}

theorem readField_some (h : read c = some (v, rest)) (e : EventStruct) :
    readField read store ⟨e, c⟩ = (true, ⟨store v e, rest⟩) := by
  simp only [readField, h]

theorem readField_eq_true (h : readField read store s = (true, t)) :
    ∃ v rest, read s.cursor = some (v, rest) ∧ t = ⟨store v s.event, rest⟩ := by
  unfold readField at h
  split at h
  · cases h
  · next v rest hread =>
    cases h
    exact ⟨v, rest, hread, rfl⟩

theorem readAll_cons (h : f s = (true, t)) (fs : List Decoder) : readAll (f :: fs) s = readAll fs t := by
  simp only [readAll, h, if_true]

theorem readAll_cons_eq_true (h : readAll (f :: fs) s = (true, t)) :
    ∃ u, f s = (true, u) ∧ readAll fs u = (true, t) := by
  rcases hf : f s with ⟨ok, u⟩
  simp only [readAll, hf] at h
  cases ok with
  | true => exact ⟨u, rfl, h⟩
  | false => cases h

/-- A field at the front is read, and the others from there. -/
theorem readAll_field_eq_true (h : readAll (readField read store :: fs) ⟨e, c⟩ = (true, t)) :
    ∃ v rest, read c = some (v, rest) ∧ readAll fs ⟨store v e, rest⟩ = (true, t) := by
  obtain ⟨u, hf, hfs⟩ := readAll_cons_eq_true h
  obtain ⟨v, rest, hread, rfl⟩ := readField_eq_true hf
  exact ⟨v, rest, hread, hfs⟩

theorem readAll_append (h : readAll fs s = (true, t)) (gs : List Decoder) :
    readAll (fs ++ gs) s = readAll gs t := by
  induction fs generalizing s with
  | nil =>
    cases h
    rfl
  | cons f fs ih =>
    obtain ⟨u, hf, hfs⟩ := readAll_cons_eq_true h
    rw [List.cons_append, readAll_cons hf, ih hfs]

theorem readAll_append_eq_true (h : readAll (fs ++ gs) s = (true, t)) :
    ∃ u, readAll fs s = (true, u) ∧ readAll gs u = (true, t) := by
  induction fs generalizing s with
  | nil => exact ⟨s, rfl, h⟩
  | cons f fs ih =>
    obtain ⟨w, hf, hfs⟩ := readAll_cons_eq_true h
    obtain ⟨u, hu, hgs⟩ := ih hfs
    exact ⟨u, (readAll_cons hf fs).trans hu, hgs⟩

theorem decodeText_eq_some {text : StateText} (h : decodeText c = some (text, rest)) :
    c = textBytes text.bytes ++ rest := by
  simp only [decodeText, Option.bind_eq_bind, Option.bind_eq_some_iff] at h
  obtain ⟨⟨length, c₁⟩, hlength, ⟨data, c₂⟩, hdata, htext⟩ := h
  dsimp only at hdata htext
  split_ifs at htext
  cases htext
  obtain ⟨hsplit, hcount⟩ := cursorBytes_eq_some hdata
  rw [cursorU32_eq_some hlength, hsplit, textBytes, hcount, BitVec.ofNat_toNat, BitVec.setWidth_eq,
    List.append_assoc]

/-- The loop over the geometry reads as many words as it has turns. -/
theorem readAll_geometry (g : Fin 14 → BitVec 32) (is : List (Fin 14)) (e : EventStruct) (rest : Bytes) :
    readAll (is.map geometryField) ⟨e, is.flatMap (fun i => encodeU32 (g i)) ++ rest⟩ =
      (true, ⟨{ e with window := { e.window with
        geometry := fun i => if i ∈ is then g i else e.window.geometry i } }, rest⟩) := by
  induction is generalizing e with
  | nil => simp [readAll]
  | cons i is ih =>
    have hstep : geometryField i ⟨e, encodeU32 (g i) ++ (is.flatMap (fun i => encodeU32 (g i)) ++ rest)⟩ =
        (true, ⟨storeWindow (fun v w => { w with geometry := Function.update w.geometry i v }) (g i) e, _⟩) :=
      readField_some (cursorU32_encodeU32 (g i) _) e
    rw [List.map_cons, List.flatMap_cons, List.append_assoc, readAll_cons hstep, ih]
    congr 3
    simp only [storeWindow]
    congr 1
    funext j
    by_cases hj : j = i
    · simp [hj]
    · simp [hj]

theorem readAll_geometry_eq_true {is : List (Fin 14)} (hnodup : is.Nodup)
    (h : readAll (is.map geometryField) s = (true, t)) :
    s.cursor = geometryBytes t.event.window is ++ t.cursor ∧
      t.event = { s.event with window := { s.event.window with geometry := t.event.window.geometry } } ∧
      ∀ i ∉ is, t.event.window.geometry i = s.event.window.geometry i := by
  induction is generalizing s with
  | nil =>
    cases h
    exact ⟨rfl, rfl, fun _ _ => rfl⟩
  | cons i is ih =>
    obtain ⟨hi, hnodup⟩ := List.nodup_cons.mp hnodup
    obtain ⟨u, hu, hrest⟩ := readAll_cons_eq_true h
    obtain ⟨v, rest, hread, rfl⟩ := readField_eq_true hu
    obtain ⟨hcursor, hevent, hother⟩ := ih hnodup hrest
    have hword : t.event.window.geometry i = v := by
      rw [hother i hi]
      simp [storeWindow]
    refine ⟨?_, ?_, ?_⟩
    · rw [cursorU32_eq_some hread, geometryBytes, List.flatMap_cons, hword, List.append_assoc]
      exact congrArg _ hcursor
    · rw [hevent]
      rfl
    · intro j hj
      rw [List.mem_cons, not_or] at hj
      rw [hother j hj.2]
      exact Function.update_of_ne hj.1 _ _

theorem readAll_head (e : EventStruct) (rest : Bytes) :
    readAll headFields ⟨eventStructInit, headBytes e ++ rest⟩ =
      (true, ⟨{ e with
        window := { e.window with
          geometry := fun _ => 0, title := [], appId := [], captureId := [], compositorId := [],
          stackingOrder := 0 }
        data := [] }, rest⟩) := by
  simp [headFields, headBytes, readAll, readField, storeWindow, eventStructInit]

theorem readAll_head_eq_true (h : readAll headFields ⟨e, c⟩ = (true, t)) : c = headBytes t.event ++ t.cursor := by
  obtain ⟨kind, c₁, hkind, h⟩ := readAll_field_eq_true h
  obtain ⟨domain, c₂, hdomain, h⟩ := readAll_field_eq_true h
  obtain ⟨epoch, c₃, hepoch, h⟩ := readAll_field_eq_true h
  obtain ⟨sequence, c₄, hsequence, h⟩ := readAll_field_eq_true h
  obtain ⟨granted, c₅, hgranted, h⟩ := readAll_field_eq_true h
  obtain ⟨revoked, c₆, hrevoked, h⟩ := readAll_field_eq_true h
  obtain ⟨flags, c₇, hflags, h⟩ := readAll_field_eq_true h
  obtain ⟨fields, c₈, hfields, h⟩ := readAll_field_eq_true h
  obtain ⟨handle, c₉, hhandle, h⟩ := readAll_field_eq_true h
  obtain ⟨parent, c₁₀, hparent, h⟩ := readAll_field_eq_true h
  obtain ⟨pid, c₁₁, hpid, h⟩ := readAll_field_eq_true h
  obtain ⟨transparency, c₁₂, htransparency, h⟩ := readAll_field_eq_true h
  cases h
  rw [cursorU32_eq_some hkind, cursorU32_eq_some hdomain, cursorU64_eq_some hepoch, cursorU64_eq_some hsequence,
    cursorU32_eq_some hgranted, cursorU32_eq_some hrevoked, cursorU32_eq_some hflags, cursorU64_eq_some hfields,
    cursorU64_eq_some hhandle, cursorU64_eq_some hparent, cursorU32_eq_some hpid,
    cursorU32_eq_some htransparency]
  simp [headBytes, storeWindow]

theorem readAll_tail (hvalid : e.Valid) (hshort : e.Short) (start : EventStruct) :
    readAll tailFields ⟨start, tailBytes e⟩ =
      (true, ⟨{ start with
        window := { start.window with
          title := e.window.title, appId := e.window.appId, captureId := e.window.captureId,
          compositorId := e.window.compositorId, stackingOrder := e.window.stackingOrder }
        data := e.data }, []⟩) := by
  have htext : ∀ text ∈ e.texts, ∀ rest, ∃ t : StateText, t.bytes = text ∧
      decodeText (textBytes text ++ rest) = some (t, rest) := fun text htext rest =>
    ⟨⟨text, hvalid text htext, hshort text htext⟩, rfl, decodeText_textBytes ⟨text, _, _⟩ rest⟩
  simp only [EventStruct.texts, List.mem_cons, List.not_mem_nil, or_false, forall_eq_or_imp, forall_eq] at htext
  obtain ⟨htitle, happ, hcapture, hcompositor, hdata⟩ := htext
  obtain ⟨title, htitle, rtitle⟩ := htitle _
  obtain ⟨app, happ, rapp⟩ := happ _
  obtain ⟨capture, hcapture, rcapture⟩ := hcapture _
  obtain ⟨compositor, hcompositor, rcompositor⟩ := hcompositor _
  obtain ⟨data, hdata, rdata⟩ := hdata []
  rw [List.append_nil] at rdata
  rw [tailFields, tailBytes, readAll_cons (readField_some (cursorU64_encodeU64 _ _) _),
    readAll_cons (readField_some rtitle _), readAll_cons (readField_some rapp _),
    readAll_cons (readField_some rcapture _), readAll_cons (readField_some rcompositor _),
    readAll_cons (readField_some rdata _)]
  simp only [readAll, storeWindow, storeText, htitle, happ, hcapture, hcompositor, hdata]

/-- The strings come last, and each is checked as it is read. -/
theorem readAll_tail_eq_true (h : readAll tailFields ⟨e, c⟩ = (true, t)) :
    c = tailBytes t.event ++ t.cursor ∧ t.event.Valid ∧ t.event.Short ∧
      headBytes t.event = headBytes e ∧ t.event.window.geometry = e.window.geometry := by
  obtain ⟨order, c₁, horder, h⟩ := readAll_field_eq_true h
  obtain ⟨title, c₂, htitle, h⟩ := readAll_field_eq_true h
  obtain ⟨app, c₃, happ, h⟩ := readAll_field_eq_true h
  obtain ⟨capture, c₄, hcapture, h⟩ := readAll_field_eq_true h
  obtain ⟨compositor, c₅, hcompositor, h⟩ := readAll_field_eq_true h
  obtain ⟨data, c₆, hdata, h⟩ := readAll_field_eq_true h
  cases h
  simp only [storeWindow, storeText, EventStruct.Valid, EventStruct.Short, EventStruct.texts, headBytes, tailBytes,
    List.forall_mem_cons, List.append_assoc, List.not_mem_nil, IsEmpty.forall_iff, implies_true, and_true]
  refine ⟨?_, ⟨title.valid, app.valid, capture.valid, compositor.valid, data.valid⟩,
    title.short, app.short, capture.short, compositor.short, data.short⟩
  rw [cursorU64_eq_some horder, decodeText_eq_some htitle, decodeText_eq_some happ, decodeText_eq_some hcapture,
    decodeText_eq_some hcompositor, decodeText_eq_some hdata]

end Reads

section Codec

variable {e : EventStruct} {data : Bytes}

/-- Every field is read, in the order in which it was written. -/
theorem readAll_structBytes (hvalid : e.Valid) (hshort : e.Short) :
    readAll eventFields ⟨eventStructInit, structBytes e⟩ = (true, ⟨e, []⟩) := by
  rw [eventFields, structBytes, readAll_append (readAll_head e _), geometryBytes,
    readAll_append (readAll_geometry _ _ _ _), readAll_tail hvalid hshort]
  simp

/-- Bytes from which every field is read are the wire form of what was read. -/
theorem readAll_eventFields_eq_true {s : Decoding} (h : readAll eventFields ⟨eventStructInit, data⟩ = (true, s)) :
    data = structBytes s.event ++ s.cursor ∧ s.event.Valid ∧ s.event.Short := by
  obtain ⟨t, hhead, h⟩ := readAll_append_eq_true h
  obtain ⟨u, hgeometry, htail⟩ := readAll_append_eq_true h
  obtain ⟨hcursor, hsame, -⟩ := readAll_geometry_eq_true (List.nodup_finRange 14) hgeometry
  obtain ⟨htail, hvalid, hshort, hheads, hwords⟩ := readAll_tail_eq_true htail
  refine ⟨?_, hvalid, hshort⟩
  have hkept : headBytes u.event = headBytes t.event := by
    rw [hsame]
    rfl
  rw [readAll_head_eq_true hhead, hcursor, htail, structBytes, hheads, hkept, geometryBytes, geometryBytes, hwords]
  simp only [List.append_assoc]

theorem eventAcceptable_iff {c : Cursor} : eventAcceptable ⟨e, c⟩ ↔ c = [] ∧ e.Known := by
  simp only [eventAcceptable, cursorFinished, Bool.and_eq_true, List.isEmpty_iff, decide_eq_true_eq, bne_iff_ne,
    ne_eq, beq_iff_eq]
  constructor
  · rintro ⟨⟨⟨⟨⟨hend, hfirst⟩, hlast⟩, hsome⟩, hsingle⟩, hknown⟩
    exact ⟨hend, hfirst, hlast, hsome, hsingle, hknown⟩
  · rintro ⟨hend, hfirst, hlast, hsome, hsingle, hknown⟩
    exact ⟨⟨⟨⟨⟨hend, hfirst⟩, hlast⟩, hsome⟩, hsingle⟩, hknown⟩

theorem eventStructDecode_structBytes (hknown : e.Known) (hvalid : e.Valid) (hshort : e.Short) :
    eventStructDecode (structBytes e) = (true, e) := by
  have hacceptable : eventAcceptable ⟨e, []⟩ = true := eventAcceptable_iff.mpr ⟨rfl, hknown⟩
  simp only [eventStructDecode, readAll_structBytes hvalid hshort, hacceptable, Bool.and_self, if_true]

theorem eventStructDecode_eq_true (h : eventStructDecode data = (true, e)) :
    data = structBytes e ∧ e.Known ∧ e.Valid ∧ e.Short := by
  rcases hread : readAll eventFields ⟨eventStructInit, data⟩ with ⟨ok, s⟩
  simp only [eventStructDecode, hread] at h
  split_ifs at h with hok
  · cases h
    obtain ⟨rfl, hacceptable⟩ := Bool.and_eq_true_iff.mp hok
    obtain ⟨hend, hknown⟩ := eventAcceptable_iff.mp hacceptable
    obtain ⟨hdata, hvalid, hshort⟩ := readAll_eventFields_eq_true hread
    rw [hend, List.append_nil] at hdata
    exact ⟨hdata, hknown, hvalid, hshort⟩
  · cases h

theorem eventStructDecode_eq_false (h : eventStructDecode data = (false, e)) : e = eventStructInit := by
  rcases hread : readAll eventFields ⟨eventStructInit, data⟩ with ⟨ok, s⟩
  simp only [eventStructDecode, hread] at h
  split_ifs at h
  · cases h
  · cases h
    rfl

theorem length_structBytes (e : EventStruct) : (structBytes e).length = 152 + (e.texts.map List.length).sum := by
  have hgeometry : (geometryBytes e.window (List.finRange 14)).length = 56 := by
    simp [geometryBytes, List.length_flatMap]
  simp only [structBytes, headBytes, tailBytes, textBytes, EventStruct.texts, List.length_append, hgeometry,
    length_encodeU32, length_encodeU64, List.map_cons, List.map_nil, List.sum_cons, List.sum_nil]
  omega

theorem encodeText_eq_some {b b' : Buffer} {text : Bytes} (h : encodeText b text = some b') :
    text.length ≤ maxTextBytes := by
  unfold encodeText at h
  split_ifs at h with hshort
  exact hshort

theorem eventStructEncode_eq_some {b b' : Buffer} (h : eventStructEncode e b = some b') : e.Short := by
  simp only [eventStructEncode, Option.bind_eq_bind, Option.bind_eq_some_iff] at h
  obtain ⟨_, -, _, -, _, -, _, -, _, -, _, -, _, -, _, -, _, -, _, -, _, -, _, -, _, -, _, -, h⟩ := h
  obtain ⟨_, htitle, _, happ, _, hcapture, _, hcompositor, hdata⟩ := h
  simp only [EventStruct.Short, EventStruct.texts, List.forall_mem_cons]
  exact ⟨encodeText_eq_some htitle, encodeText_eq_some happ, encodeText_eq_some hcapture,
    encodeText_eq_some hcompositor, encodeText_eq_some hdata, nofun⟩

/-- Strings within the text limit, in a buffer with room for them and for the fixed fields. -/
def EventStruct.Fits (e : EventStruct) (b : Buffer) : Prop :=
  e.Short ∧ b.data.length + (152 + (e.texts.map List.length).sum) ≤ b.maximum

/-- Events and their wire forms correspond one to one, and a refusal leaves a cleared event. -/
theorem eventStruct_codec :
    (∀ (e : EventStruct) (b : Buffer), b.Fits → ((eventStructEncode e b).isSome ↔ e.Fits b)) ∧
      (∀ (e : EventStruct) (b : Buffer), e.Known → e.Valid → e.Fits b → ∃ b' written,
        eventStructEncode e b = some b' ∧ b'.data = b.data ++ written ∧ eventStructDecode written = (true, e)) ∧
      (∀ (data : Bytes) (e : EventStruct) (b : Buffer), eventStructDecode data = (true, e) →
        b.data.length + data.length ≤ b.maximum →
          ∃ b', eventStructEncode e b = some b' ∧ b'.data = b.data ++ data) ∧
      ∀ (data : Bytes) (e : EventStruct), eventStructDecode data = (false, e) → e = eventStructInit := by
  refine ⟨fun e b hb => ⟨fun h => ?_, fun h => ?_⟩, fun e b hknown hvalid hfits => ?_, fun data e b h hroom => ?_,
    fun data e => eventStructDecode_eq_false⟩
  · obtain ⟨b', hb'⟩ := Option.isSome_iff_exists.mp h
    have hshort := eventStructEncode_eq_some hb'
    have hroom := ((eventStructEncode_writes hshort).isSome hb).mp h
    rw [length_structBytes] at hroom
    exact ⟨hshort, hroom⟩
  · rw [(eventStructEncode_writes h.1).isSome hb, length_structBytes]
    exact h.2
  · obtain ⟨b', hb', hdata, -⟩ := (eventStructEncode_writes hfits.1).exists_of_fits (b := b) (by
      rw [length_structBytes]
      exact hfits.2)
    exact ⟨b', structBytes e, hb', hdata, eventStructDecode_structBytes hknown hvalid hfits.1⟩
  · obtain ⟨rfl, -, -, hshort⟩ := eventStructDecode_eq_true h
    obtain ⟨b', hb', hdata, -⟩ := (eventStructEncode_writes hshort).exists_of_fits hroom
    exact ⟨b', hb', hdata⟩

/-- A window titled “ä” whose frame starts at (-1, 0): one event with a two-byte string. -/
def titledEvent : EventStruct :=
  { kind := 2, domain := 1, epoch := 7, sequence := 3
    window := { handle := 9, geometry := Function.update (fun _ => 0) 0 (-1), title := [0xc3, 0xa4] } }

theorem titledEvent_codec :
    ∃ b' written, eventStructEncode titledEvent (bufferInit 154) = some b' ∧
      b'.data = (bufferInit 154).data ++ written ∧ eventStructDecode written = (true, titledEvent) :=
  eventStruct_codec.2.1 titledEvent (bufferInit 154)
    ⟨by decide, by decide, by decide, by decide, by decide⟩
    (by
      intro text htext
      simp only [EventStruct.texts, titledEvent, List.mem_cons, List.not_mem_nil, or_false] at htext
      rcases htext with rfl | rfl | rfl | rfl | rfl <;> decide)
    ⟨by
      intro text htext
      simp only [EventStruct.texts, titledEvent, List.mem_cons, List.not_mem_nil, or_false] at htext
      rcases htext with rfl | rfl | rfl | rfl | rfl <;> simp [maxTextBytes], by decide⟩

end Codec

section Typed

/-- The words from `frame_x` on. -/
def WindowRecord.words (w : WindowRecord) : Fin 14 → BitVec 32 :=
  ![w.frame.x, w.frame.y, w.frame.width, w.frame.height, w.client.x, w.client.y, w.client.width, w.client.height,
    w.surface.x, w.surface.y, w.surface.width, w.surface.height, w.bufferWidth, w.bufferHeight]

/-- An event of the other modules as the struct that holds it. -/
def StateEvent.raw (e : StateEvent) : EventStruct where
  kind := e.kind.wire
  domain := e.domain.mask
  epoch := e.epoch
  sequence := BitVec.ofNat 64 e.sequence
  window :=
    { flags := e.window.flags
      validFields := e.window.validFields
      handle := e.window.handle
      parent := e.window.parent
      pid := e.window.pid
      transparency := e.window.transparency
      geometry := e.window.words
      title := e.window.title.bytes
      appId := e.window.appId.bytes
      captureId := e.window.captureId.bytes
      compositorId := e.window.compositorId.bytes
      stackingOrder := e.window.stackingOrder }
  data := e.data
  grantedScopes := e.grantedScopes
  revokedScopes := e.revokedScopes

variable {e : StateEvent}

theorem structBytes_raw (e : StateEvent) : structBytes e.raw = eventBytes e := by
  have hwords : geometryBytes e.raw.window (List.finRange 14) =
      rectBytes e.window.frame ++ (rectBytes e.window.client ++ (rectBytes e.window.surface ++
        (encodeU32 e.window.bufferWidth ++ encodeU32 e.window.bufferHeight))) := by
    simp [geometryBytes, List.finRange_succ, StateEvent.raw, WindowRecord.words, rectBytes]
  rw [structBytes, hwords]
  simp only [headBytes, tailBytes, eventBytes, windowBytes, StateEvent.raw, List.append_assoc]

theorem known_raw (e : StateEvent) : e.raw.Known := by
  have hkind : ∀ kind : StateKind, StateKind.snapshotBegin.wire ≤ kind.wire ∧ kind.wire ≤ StateKind.reset.wire := by
    intro kind
    cases kind <;> decide
  have hdomain : ∀ domain : StateDomain, domain.mask ≠ 0 ∧ domain.mask &&& (domain.mask - 1) = 0 ∧
      domain.mask &&& ~~~stateAll = 0 := by
    intro domain
    cases domain <;> decide
  obtain ⟨hfirst, hlast⟩ := hkind e.kind
  obtain ⟨hsome, hsingle, hknown⟩ := hdomain e.domain
  exact ⟨hfirst, hlast, hsome, hsingle, hknown⟩

/-- What is sent for an event with a text is received as that event. -/
theorem eventStructDecode_eventBytes (hvalid : utf8Valid false e.data) (hshort : e.data.length ≤ maxTextBytes) :
    eventStructDecode (eventBytes e) = (true, e.raw) := by
  rw [← structBytes_raw]
  apply eventStructDecode_structBytes (known_raw e)
  · simp only [EventStruct.Valid, EventStruct.texts, StateEvent.raw, List.forall_mem_cons]
    exact ⟨e.window.title.valid, e.window.appId.valid, e.window.captureId.valid, e.window.compositorId.valid,
      hvalid, nofun⟩
  · simp only [EventStruct.Short, EventStruct.texts, StateEvent.raw, List.forall_mem_cons]
    exact ⟨e.window.title.short, e.window.appId.short, e.window.captureId.short, e.window.compositorId.short,
      hshort, nofun⟩

/-- Both encoders write the same bytes. -/
theorem eventStructEncode_raw_writes (h : e.data.length ≤ maxTextBytes) :
    Writes (eventStructEncode e.raw) (eventBytes e) := by
  rw [← structBytes_raw]
  apply eventStructEncode_writes
  simp only [EventStruct.Short, EventStruct.texts, StateEvent.raw, List.forall_mem_cons]
  exact ⟨e.window.title.short, e.window.appId.short, e.window.captureId.short, e.window.compositorId.short, h, nofun⟩

end Typed

end KeysharpDesktop
