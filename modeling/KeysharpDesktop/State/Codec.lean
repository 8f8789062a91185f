import KeysharpDesktop.State.Record

/-! The wire form of a state event: its bytes, its size, and that it reads back. -/
namespace KeysharpDesktop

def textBytes (text : Bytes) : Bytes := encodeU32 (BitVec.ofNat 32 text.length) ++ text

def rectBytes (r : Rect) : Bytes :=
  encodeU32 r.x ++ (encodeU32 r.y ++ (encodeU32 r.width ++ encodeU32 r.height))

def windowBytes (w : WindowRecord) : Bytes :=
  encodeU32 w.flags ++ (encodeU64 w.validFields ++ (encodeU64 w.handle ++ (encodeU64 w.parent ++
    (encodeU32 w.pid ++ (encodeU32 w.transparency ++ (rectBytes w.frame ++ (rectBytes w.client ++
      (rectBytes w.surface ++ (encodeU32 w.bufferWidth ++ (encodeU32 w.bufferHeight ++
        (encodeU64 w.stackingOrder ++ (textBytes w.title.bytes ++ (textBytes w.appId.bytes ++
          (textBytes w.captureId.bytes ++ textBytes w.compositorId.bytes))))))))))))))

def eventBytes (e : StateEvent) : Bytes :=
  encodeU32 e.kind.wire ++ (encodeU32 e.domain.mask ++ (encodeU64 e.epoch ++
    (encodeU64 (BitVec.ofNat 64 e.sequence) ++ (encodeU32 e.grantedScopes ++
      (encodeU32 e.revokedScopes ++ (windowBytes e.window ++ textBytes e.data))))))

/-- The bytes of a record's four strings. -/
def textLength (w : WindowRecord) : ℕ :=
  w.title.bytes.length + w.appId.bytes.length + w.captureId.bytes.length + w.compositorId.bytes.length

section Writing

theorem encodeText_writes {text : Bytes} (h : text.length ≤ maxTextBytes) :
    Writes (encodeText · text) (textBytes text) := by
  simp only [encodeText, h, if_true]
  exact (bufferU32_writes _).bind (bufferBytes_writes text)

theorem bufferRect_writes (r : Rect) : Writes (bufferRect · r) (rectBytes r) :=
  (bufferU32_writes _).bind ((bufferU32_writes _).bind ((bufferU32_writes _).bind (bufferU32_writes _)))

theorem bufferWindow_writes (w : WindowRecord) : Writes (bufferWindow · w) (windowBytes w) :=
  (bufferU32_writes _).bind <| (bufferU64_writes _).bind <| (bufferU64_writes _).bind <|
  (bufferU64_writes _).bind <| (bufferU32_writes _).bind <| (bufferU32_writes _).bind <|
  (bufferRect_writes _).bind <| (bufferRect_writes _).bind <| (bufferRect_writes _).bind <|
  (bufferU32_writes _).bind <| (bufferU32_writes _).bind <| (bufferU64_writes _).bind <|
  (encodeText_writes w.title.short).bind <| (encodeText_writes w.appId.short).bind <|
  (encodeText_writes w.captureId.short).bind (encodeText_writes w.compositorId.short)

theorem stateEventEncode_writes {e : StateEvent} (h : e.data.length ≤ maxTextBytes) :
    Writes (stateEventEncode e) (eventBytes e) :=
  (bufferU32_writes _).bind <| (bufferU32_writes _).bind <| (bufferU64_writes _).bind <|
  (bufferU64_writes _).bind <| (bufferU32_writes _).bind <| (bufferU32_writes _).bind <|
  (bufferWindow_writes _).bind (encodeText_writes h)

theorem length_eventBytes (e : StateEvent) :
    (eventBytes e).length = 152 + textLength e.window + e.data.length := by
  simp only [eventBytes, windowBytes, rectBytes, textBytes, textLength, List.length_append,
    length_encodeU32, length_encodeU64]
  omega

end Writing

section Reading

/-- One field read, and the rest from there. -/
private theorem read_then {α β : Type} {c : Cursor} {read : Cursor → Option (α × Cursor)}
    {next : α × Cursor → Option β} {a : α} {rest : Cursor} {result : β}
    (hread : read c = some (a, rest)) (hnext : next (a, rest) = some result) :
    (read c >>= next) = some result := by
  rw [hread]
  exact hnext

@[simp] theorem decodeText_textBytes (t : StateText) (rest : Bytes) :
    decodeText (textBytes t.bytes ++ rest) = some (t, rest) := by
  have hlen : (BitVec.ofNat 32 t.bytes.length).toNat = t.bytes.length := by
    have hmax : maxTextBytes < 2 ^ 32 := by decide
    have := t.short
    rw [BitVec.toNat_ofNat, Nat.mod_eq_of_lt (by omega)]
  simp [decodeText, textBytes, hlen, t.valid, t.short]

@[simp] theorem cursorRect_rectBytes (r : Rect) (rest : Bytes) :
    cursorRect (rectBytes r ++ rest) = some (r, rest) := by
  simp [cursorRect, rectBytes]

@[simp] theorem cursorWindow_windowBytes (w : WindowRecord) (rest : Bytes) :
    cursorWindow (windowBytes w ++ rest) = some (w, rest) := by
  unfold cursorWindow windowBytes
  simp only [List.append_assoc]
  exact read_then (cursorU32_encodeU32 _ _) <| read_then (cursorU64_encodeU64 _ _) <|
    read_then (cursorU64_encodeU64 _ _) <| read_then (cursorU64_encodeU64 _ _) <|
    read_then (cursorU32_encodeU32 _ _) <| read_then (cursorU32_encodeU32 _ _) <|
    read_then (cursorRect_rectBytes _ _) <| read_then (cursorRect_rectBytes _ _) <|
    read_then (cursorRect_rectBytes _ _) <| read_then (cursorU32_encodeU32 _ _) <|
    read_then (cursorU32_encodeU32 _ _) <| read_then (cursorU64_encodeU64 _ _) <|
    read_then (decodeText_textBytes _ _) <| read_then (decodeText_textBytes _ _) <|
    read_then (decodeText_textBytes _ _) <| read_then (decodeText_textBytes _ _) rfl

/-- An event whose data is a text reads back as it was written. -/
theorem stateEventDecode_eventBytes {e : StateEvent} (hseq : e.sequence < 2 ^ 64)
    (hvalid : utf8Valid false e.data) (hshort : e.data.length ≤ maxTextBytes) :
    stateEventDecode (eventBytes e) = some e := by
  have htext : decodeText (textBytes e.data) = some (⟨e.data, hvalid, hshort⟩, []) := by
    have := decodeText_textBytes ⟨e.data, hvalid, hshort⟩ []
    rwa [List.append_nil] at this
  have hsequence : (BitVec.ofNat 64 e.sequence).toNat = e.sequence := by
    rw [BitVec.toNat_ofNat, Nat.mod_eq_of_lt hseq]
  simp [stateEventDecode, eventBytes, htext, hsequence, cursorFinished, StateKind.ofWire_wire,
    StateDomain.ofMask_mask]

/-- An event whose data is no text does not read back. -/
theorem stateEventDecode_eq_none {e : StateEvent} (hinvalid : ¬utf8Valid false e.data)
    (hshort : e.data.length ≤ maxTextBytes) : stateEventDecode (eventBytes e) = none := by
  have hlen : (BitVec.ofNat 32 e.data.length).toNat = e.data.length := by
    have hmax : maxTextBytes < 2 ^ 32 := by decide
    rw [BitVec.toNat_ofNat, Nat.mod_eq_of_lt (by omega)]
  have hread : cursorBytes e.data e.data.length = some (e.data, []) := by
    have := cursorBytes_append e.data []
    rwa [List.append_nil] at this
  have htext : decodeText (textBytes e.data) = none := by
    simp [decodeText, textBytes, hlen, hread, hinvalid]
  simp [stateEventDecode, eventBytes, htext]

end Reading

/-- A copy is exact where it succeeds, and it succeeds where the record's wire form fits. -/
theorem stateWindowCopy_eq (w : WindowRecord) :
    stateWindowCopy w = if 152 + textLength w ≤ maxTextBytes then some w else none := by
  have hwrites := stateEventEncode_writes
    (e := { stateEventInit .changed .windows with window := w }) (Nat.zero_le _)
  have hlen := length_eventBytes { stateEventInit .changed .windows with window := w }
  simp only [stateEventInit, List.length_nil, Nat.add_zero] at hlen
  unfold stateWindowCopy
  split_ifs with hfits
  · obtain ⟨b, hb, hdata, -⟩ := hwrites.exists_of_fits (b := bufferInit maxTextBytes) (by
      simp only [bufferInit, List.length_nil, Nat.zero_add, stateEventInit, hlen]
      exact hfits)
    have hdecode := stateEventDecode_eventBytes
      (e := { stateEventInit .changed .windows with window := w }) (by simp [stateEventInit]) rfl
      (Nat.zero_le _)
    rw [hb]
    change (stateEventDecode b.data).bind (fun copy => some copy.window) = some w
    rw [hdata]
    change (stateEventDecode (eventBytes _)).bind (fun copy => some copy.window) = some w
    rw [hdecode]
    rfl
  · rw [hwrites.bufferInit_eq_none.mpr (by
      simp only [stateEventInit, hlen]
      omega)]
    rfl

@[simp] theorem stateWindowEqual_iff (a b : WindowRecord) : stateWindowEqual a b ↔ a = b := by
  constructor
  · intro h
    simp only [stateWindowEqual, Bool.and_eq_true, beq_iff_eq] at h
    cases a
    cases b
    simp_all
  · rintro rfl
    simp [stateWindowEqual]

end KeysharpDesktop
