import KeysharpDesktop.Lib.Stream
import KeysharpDesktop.Wire.Request

/-! Frames on a socket: the readers and the writers, over any chunking of what they transfer.
Deadlines do not pass, and no descriptor travels with a frame. -/
namespace KeysharpDesktop

section Transfer

/-- How a transfer ends: with what it was for, at the end of the stream before the first byte, or short. -/
inductive Transfer (α : Type)
  | done (value : α)
  | ended
  | failed
  deriving DecidableEq, Repr

/-- The loop of `ksd_transfer_until` on a read. -/
def receiveLoop (length : ℕ) : ℕ → Bytes → List Bytes → Transfer Bytes × List Bytes
  | 0, _, s => (.failed, s)
  | turns + 1, got, s =>
    if length ≤ got.length then (.done got, s)
    else
      match Stream.recv (length - got.length) s with
      | (.again, s) => receiveLoop length turns got s
      | (.closed, s) => (if got.isEmpty then .ended else .failed, s)
      | (.data bytes, s) => receiveLoop length turns (got ++ bytes) s

def transferIn (length : ℕ) (s : List Bytes) : Transfer Bytes × List Bytes :=
  receiveLoop length (Stream.size s + 1) [] s

/-- The loop of `ksd_transfer_until` on a write: whether all of it went, and what went. -/
def sendLoop : List ℕ → Bytes → Bytes → Bool × Bytes × List ℕ
  | rooms, sent, [] => (true, sent, rooms)
  | [], sent, _ :: _ => (false, sent, [])
  | room :: rooms, sent, rest =>
    match Stream.send rest.length (room :: rooms) with
    | (.sent count, _) => sendLoop rooms (sent ++ rest.take count) (rest.drop count)
    | (_, _) => sendLoop rooms sent rest

end Transfer

/-- What a reader of frames is told to accept. -/
structure FrameRules where
  magic : Bytes
  major : BitVec 16
  minor : BitVec 16
  maximumPayload : BitVec 32
  publicRules : Bool
  deriving DecidableEq, Repr

/-- A frame with the fields of a header. -/
def Header.frame (h : Header) (payload : Bytes) : Frame :=
  ⟨h.magic, h.major, h.minor, h.opcode, h.flags, h.requestId, payload⟩

section Readers

variable (rules : FrameRules)

def frameRead (s : List Bytes) : Transfer Frame × List Bytes :=
  match transferIn frameHeaderSize s with
  | (.ended, s) => (.ended, s)
  | (.failed, s) => (.failed, s)
  | (.done header, s) =>
    let h : Header :=
      { magic := header.take 4
        major := decodeU16 (header.drop 4)
        minor := decodeU16 (header.drop 6)
        opcode := decodeU16 (header.drop 8)
        flags := decodeU16 (header.drop 10)
        payloadLength := decodeU32 (header.drop 12)
        requestId := decodeU64 (header.drop 16) }
    if h.magic != rules.magic || h.major != rules.major || h.minor != rules.minor ||
        rules.maximumPayload < h.payloadLength || (rules.publicRules && !validPublicHeader (h.frame [])) then
      (.failed, s)
    else if h.payloadLength == 0 then (.done (h.frame []), s)
    else
      match transferIn h.payloadLength.toNat s with
      | (.done payload, s) => (.done (h.frame payload), s)
      | (_, s) => (.failed, s)

def frameHeaderAcceptable (h : Header) : Bool :=
  h.magic == rules.magic && h.major == rules.major && h.minor == rules.minor &&
    h.payloadLength ≤ rules.maximumPayload && (!rules.publicRules || validPublicHeader (h.frame []))

/-- The header comes in one call of `recvmsg`, which waits for all of it. -/
def frameReadFd (s : List Bytes) : Transfer Frame × List Bytes :=
  let (header, s) := Stream.recvAll frameHeaderSize s
  if header.length != frameHeaderSize then (.failed, s)
  else
    let h := decodeFrameHeader header
    if !frameHeaderAcceptable rules h then (.failed, s)
    else if h.payloadLength == 0 then (.done (h.frame []), s)
    else
      match transferIn h.payloadLength.toNat s with
      | (.done payload, s) => (.done (h.frame payload), s)
      | (_, s) => (.failed, s)

def frameUnpack (data : Bytes) : Option Frame :=
  if data.length < frameHeaderSize then none
  else
    let h : Header :=
      { magic := data.take 4
        major := decodeU16 (data.drop 4)
        minor := decodeU16 (data.drop 6)
        opcode := decodeU16 (data.drop 8)
        flags := decodeU16 (data.drop 10)
        payloadLength := decodeU32 (data.drop 12)
        requestId := decodeU64 (data.drop 16) }
    if h.magic != rules.magic || h.major != rules.major || h.minor != rules.minor ||
        rules.maximumPayload < h.payloadLength || data.length != frameHeaderSize + h.payloadLength.toNat ||
        (rules.publicRules && !validPublicHeader (h.frame [])) then none
    else if h.payloadLength == 0 then some (h.frame [])
    else some (h.frame ((data.drop frameHeaderSize).take h.payloadLength.toNat))

end Readers

/-- Whether the whole frame went, and what went of it. -/
def frameWrite (frame : Frame) (rooms : List ℕ) : Bool × Bytes :=
  match sendLoop rooms [] (encodeFrameHeader frame) with
  | (false, sent, _) => (false, sent)
  | (true, sent, rooms) =>
    if frame.payload.isEmpty then (true, sent)
    else
      let (ok, payload, _) := sendLoop rooms [] frame.payload
      (ok, sent ++ payload)

section Transferring

variable {length turns : ℕ} {got : Bytes} {s : List Bytes}

theorem receiveLoop_done (hturns : Stream.size s < turns) (hgot : got.length ≤ length)
    (h : length ≤ got.length + s.flatten.length) :
    ∃ t, receiveLoop length turns got s = (.done ((got ++ s.flatten).take length), t) ∧
      t.flatten = (got ++ s.flatten).drop length := by
  induction turns generalizing got s with
  | zero => omega
  | succ turns ih =>
    by_cases hfull : length ≤ got.length
    · have hlength : got.length = length := by omega
      rw [receiveLoop, if_pos hfull, List.take_left' hlength, List.drop_left' hlength]
      exact ⟨s, rfl, rfl⟩
    · rw [receiveLoop, if_neg hfull]
      rcases hrecv : Stream.recv (length - got.length) s with ⟨bytes | _ | _, t⟩
      · obtain ⟨-, hle, hsplit, hsize⟩ := Stream.recv_data (by omega) hrecv
        rw [hsplit, ← List.append_assoc]
        rw [hsplit, List.length_append] at h
        apply ih (by omega)
        · rw [List.length_append]
          omega
        · rw [List.length_append]
          omega
      · obtain ⟨hsame, hsize⟩ := Stream.size_again hrecv
        rw [← hsame]
        rw [← hsame] at h
        exact ih (by omega) hgot h
      · obtain ⟨rfl, rfl⟩ := Stream.recv_closed hrecv
        simp only [List.flatten_nil, List.length_nil] at h
        omega

theorem receiveLoop_short (h : got.length + s.flatten.length < length) :
    ∃ r t, receiveLoop length turns got s = (r, t) ∧ ∀ bytes, r ≠ .done bytes := by
  induction turns generalizing got s with
  | zero => exact ⟨.failed, s, rfl, nofun⟩
  | succ turns ih =>
    have hneeded : ¬length ≤ got.length := by omega
    rw [receiveLoop, if_neg hneeded]
    rcases hrecv : Stream.recv (length - got.length) s with ⟨bytes | _ | _, t⟩
    · obtain ⟨-, -, hsplit, -⟩ := Stream.recv_data (by omega) hrecv
      rw [hsplit, List.length_append] at h
      apply ih
      rw [List.length_append]
      omega
    · rw [← (Stream.size_again hrecv).1] at h
      exact ih h
    · refine ⟨_, t, rfl, fun bytes => ?_⟩
      split_ifs <;> exact nofun

/-- A read gives the first bytes of the stream, and leaves the others. -/
theorem transferIn_done (h : length ≤ s.flatten.length) :
    ∃ t, transferIn length s = (.done (s.flatten.take length), t) ∧ t.flatten = s.flatten.drop length :=
  receiveLoop_done (Nat.lt_succ_self _) (Nat.zero_le _) (by simpa using h)

theorem transferIn_short (h : s.flatten.length < length) :
    ∃ r t, transferIn length s = (r, t) ∧ ∀ bytes, r ≠ .done bytes :=
  receiveLoop_short (by simpa using h)

/-- What went is a part from the front, and all of it exactly when nothing is left. -/
theorem sendLoop_eq {rooms left : List ℕ} {sent rest out : Bytes} {ok : Bool}
    (h : sendLoop rooms sent rest = (ok, out, left)) :
    ∃ went unsent, out = sent ++ went ∧ rest = went ++ unsent ∧ ok = unsent.isEmpty := by
  induction rooms generalizing sent rest with
  | nil =>
    cases rest with
    | nil =>
      cases h
      exact ⟨[], [], by simp, rfl, rfl⟩
    | cons b rest =>
      cases h
      exact ⟨[], b :: rest, by simp, rfl, rfl⟩
  | cons room rooms ih =>
    cases rest with
    | nil =>
      cases h
      exact ⟨[], [], by simp, rfl, rfl⟩
    | cons b rest =>
      by_cases hroom : room = 0
      · simp only [sendLoop, Stream.send, hroom, if_true] at h
        exact ih h
      · simp only [sendLoop, Stream.send, hroom, if_false] at h
        obtain ⟨went, unsent, hout, hrest, hok⟩ := ih h
        refine ⟨(b :: rest).take (min room (b :: rest).length) ++ went, unsent, ?_, ?_, hok⟩
        · rw [hout, List.append_assoc]
        · rw [List.append_assoc, ← hrest, List.take_append_drop]

/-- A peer that takes something at as many calls as there are bytes gets them all. -/
theorem sendLoop_done {rooms : List ℕ} {sent rest : Bytes} (h : rest.length ≤ rooms.countP (0 < ·)) :
    ∃ left, sendLoop rooms sent rest = (true, sent ++ rest, left) ∧
      rooms.countP (0 < ·) ≤ left.countP (0 < ·) + rest.length := by
  induction rooms generalizing sent rest with
  | nil =>
    obtain rfl : rest = [] := List.eq_nil_of_length_eq_zero (by simpa using h)
    exact ⟨[], by simp [sendLoop], by simp⟩
  | cons room rooms ih =>
    cases rest with
    | nil => exact ⟨room :: rooms, by simp [sendLoop], by simp⟩
    | cons b rest =>
      by_cases hroom : room = 0
      · simp only [sendLoop, Stream.send, hroom, if_true]
        rw [List.countP_cons] at h ⊢
        simp only [hroom, lt_irrefl, decide_false, Bool.false_eq_true, if_false, Nat.add_zero] at h ⊢
        exact ih h
      · have hpos : 0 < room := Nat.pos_of_ne_zero hroom
        simp only [sendLoop, Stream.send, hroom, if_false]
        rw [List.countP_cons] at h ⊢
        simp only [hpos, decide_true, if_true] at h ⊢
        have hlength : ((b :: rest).drop (min room (b :: rest).length)).length ≤ rest.length := by
          rw [List.length_drop, List.length_cons]
          omega
        rw [List.length_cons] at h
        obtain ⟨left, hloop, hcount⟩ := @ih (sent ++ (b :: rest).take (min room (b :: rest).length))
          ((b :: rest).drop (min room (b :: rest).length)) (by omega)
        refine ⟨left, ?_, ?_⟩
        · rw [hloop, List.append_assoc, List.take_append_drop]
        · rw [List.length_cons]
          omega

end Transferring

section Agreement

variable {rules : FrameRules} {frame : Frame} {s : List Bytes} {data rest : Bytes}

/-- What a frame's fields must be for a reader to accept it. -/
structure Frame.Acceptable (rules : FrameRules) (frame : Frame) : Prop where
  magic : frame.magic = rules.magic
  major : frame.major = rules.major
  minor : frame.minor = rules.minor
  length : frame.payload.length ≤ rules.maximumPayload.toNat
  publicHeader : rules.publicRules → validPublicHeader frame

/-- A magic of four bytes, and a payload whose length the header can hold. -/
structure Frame.Sized (frame : Frame) : Prop where
  magic : frame.magic.length = 4
  payload : frame.payload.length < 2 ^ 32

/-- The frame at the front of a run of bytes, and the bytes behind it. -/
def frontFrame (rules : FrameRules) (bytes : Bytes) : Option (Frame × Bytes) :=
  let h := decodeFrameHeader (bytes.take frameHeaderSize)
  if frameHeaderSize + h.payloadLength.toNat ≤ bytes.length ∧ frameHeaderAcceptable rules h then
    some (h.frame ((bytes.drop frameHeaderSize).take h.payloadLength.toNat),
      bytes.drop (frameHeaderSize + h.payloadLength.toNat))
  else none

theorem decodeFrameHeader_take (bytes : Bytes) :
    decodeFrameHeader (bytes.take frameHeaderSize) = decodeFrameHeader bytes := by
  simp [decodeFrameHeader, decodeU16, decodeU32, decodeU64, frameHeaderSize, List.drop_take, List.take_take]

/-- The inlined checks of two readers are the negation of the third's. -/
theorem frameHeaderAcceptable_eq_not (rules : FrameRules) (h : Header) :
    frameHeaderAcceptable rules h =
      !(h.magic != rules.magic || h.major != rules.major || h.minor != rules.minor ||
        decide (rules.maximumPayload < h.payloadLength) ||
        (rules.publicRules && !validPublicHeader (h.frame []))) := by
  have hle : decide (h.payloadLength ≤ rules.maximumPayload) = !decide (rules.maximumPayload < h.payloadLength) := by
    rw [← decide_not]
    exact decide_eq_decide.mpr BitVec.not_lt.symm
  simp only [frameHeaderAcceptable, hle, bne, Bool.not_or, Bool.not_not, Bool.not_and]

/-- Both readers of a socket, once they have a header. -/
def readBody (rules : FrameRules) (h : Header) (s : List Bytes) : Transfer Frame × List Bytes :=
  if !frameHeaderAcceptable rules h then (.failed, s)
  else if h.payloadLength == 0 then (.done (h.frame []), s)
  else
    match transferIn h.payloadLength.toNat s with
    | (.done payload, s) => (.done (h.frame payload), s)
    | (_, s) => (.failed, s)

theorem frameRead_eq (rules : FrameRules) (s : List Bytes) :
    frameRead rules s =
      match transferIn frameHeaderSize s with
      | (.ended, s) => (.ended, s)
      | (.failed, s) => (.failed, s)
      | (.done header, s) => readBody rules (decodeFrameHeader header) s := by
  unfold frameRead readBody
  rcases transferIn frameHeaderSize s with ⟨header | _ | _, t⟩
  · simp only [frameHeaderAcceptable_eq_not, Bool.not_not, decodeFrameHeader]
    rfl
  · rfl
  · rfl

/-- What a reader makes of a stream is what stands at its front. -/
def Gives (result : Transfer Frame × List Bytes) : Option (Frame × Bytes) → Prop
  | some (frame, rest) => result.1 = .done frame ∧ result.2.flatten = rest
  | none => ∀ frame, result.1 ≠ .done frame

theorem readBody_gives (rules : FrameRules) (h : Header) (s : List Bytes) :
    Gives (readBody rules h s)
      (if h.payloadLength.toNat ≤ s.flatten.length ∧ frameHeaderAcceptable rules h then
        some (h.frame (s.flatten.take h.payloadLength.toNat), s.flatten.drop h.payloadLength.toNat)
      else none) := by
  unfold readBody
  by_cases hok : frameHeaderAcceptable rules h
  · simp only [hok, Bool.not_true, Bool.false_eq_true, if_false, and_true]
    by_cases hzero : h.payloadLength = 0
    · simp [hzero, Gives]
    · have hne : (h.payloadLength == 0) = false := by simpa using hzero
      rw [hne]
      by_cases hle : h.payloadLength.toNat ≤ s.flatten.length
      · obtain ⟨t, ht, hrest⟩ := transferIn_done hle
        simp only [ht, hle, if_true, Bool.false_eq_true, if_false]
        exact ⟨rfl, hrest⟩
      · obtain ⟨r, t, ht, hr⟩ := transferIn_short (Nat.lt_of_not_le hle)
        simp only [ht, hle, Bool.false_eq_true, if_false]
        cases r with
        | done bytes => exact absurd rfl (hr bytes)
        | ended => exact nofun
        | failed => exact nofun
  · simp only [hok, Bool.not_false, if_true, Bool.false_eq_true, and_false, if_false]
    exact nofun

/-- A header at the front, and a body behind it. -/
theorem frontFrame_eq (h : frameHeaderSize ≤ data.length) :
    frontFrame rules data =
      let header := decodeFrameHeader (data.take frameHeaderSize)
      if header.payloadLength.toNat ≤ (data.drop frameHeaderSize).length ∧ frameHeaderAcceptable rules header then
        some (header.frame ((data.drop frameHeaderSize).take header.payloadLength.toNat),
          (data.drop frameHeaderSize).drop header.payloadLength.toNat)
      else none := by
  have hiff : ∀ n, n ≤ (data.drop frameHeaderSize).length ↔ frameHeaderSize + n ≤ data.length := by
    intro n
    rw [List.length_drop]
    omega
  simp only [frontFrame, hiff, List.drop_drop]

theorem frontFrame_short (h : data.length < frameHeaderSize) : frontFrame rules data = none := by
  rw [frontFrame, if_neg]
  intro hle
  omega

theorem frameRead_gives (rules : FrameRules) (s : List Bytes) :
    Gives (frameRead rules s) (frontFrame rules s.flatten) := by
  rw [frameRead_eq]
  by_cases hle : frameHeaderSize ≤ s.flatten.length
  · obtain ⟨t, ht, hrest⟩ := transferIn_done hle
    rw [ht, frontFrame_eq hle, ← hrest]
    exact readBody_gives rules _ t
  · obtain ⟨r, t, ht, hr⟩ := transferIn_short (Nat.lt_of_not_le hle)
    rw [ht, frontFrame_short (Nat.lt_of_not_le hle)]
    cases r with
    | done bytes => exact absurd rfl (hr bytes)
    | ended => exact nofun
    | failed => exact nofun

theorem frameReadFd_gives (rules : FrameRules) (s : List Bytes) :
    Gives (frameReadFd rules s) (frontFrame rules s.flatten) := by
  obtain ⟨htake, hdrop⟩ := Stream.recvAll_eq frameHeaderSize s
  unfold frameReadFd
  rcases hrecv : Stream.recvAll frameHeaderSize s with ⟨header, t⟩
  rw [hrecv] at htake hdrop
  dsimp only at htake hdrop ⊢
  by_cases hle : frameHeaderSize ≤ s.flatten.length
  · have hlength : header.length = frameHeaderSize := by rw [htake, List.length_take_of_le hle]
    rw [frontFrame_eq hle, ← hdrop, ← htake, hlength, bne_self_eq_false]
    exact readBody_gives rules _ t
  · have hlength : header.length ≠ frameHeaderSize := by
      rw [htake, List.length_take]
      omega
    rw [frontFrame_short (Nat.lt_of_not_le hle), if_pos (bne_iff_ne.mpr hlength)]
    exact nofun

theorem frameUnpack_eq (rules : FrameRules) (data : Bytes) :
    frameUnpack rules data =
      let h := decodeFrameHeader data
      if data.length = frameHeaderSize + h.payloadLength.toNat ∧ frameHeaderAcceptable rules h then
        some (h.frame (data.drop frameHeaderSize))
      else none := by
  have hchecks : ∀ (h : Header) (b : Bool),
      (h.magic != rules.magic || h.major != rules.major || h.minor != rules.minor ||
        decide (rules.maximumPayload < h.payloadLength) || b ||
        (rules.publicRules && !validPublicHeader (h.frame []))) = (b || !frameHeaderAcceptable rules h) := by
    intro h b
    rw [frameHeaderAcceptable_eq_not, Bool.not_not]
    cases b <;> simp
  unfold frameUnpack
  have hheader : Header.mk (data.take 4) (decodeU16 (data.drop 4)) (decodeU16 (data.drop 6))
      (decodeU16 (data.drop 8)) (decodeU16 (data.drop 10)) (decodeU32 (data.drop 12))
      (decodeU64 (data.drop 16)) = decodeFrameHeader data := rfl
  rw [hheader]
  generalize decodeFrameHeader data = h
  dsimp only
  rw [hchecks]
  by_cases hlength : data.length = frameHeaderSize + h.payloadLength.toNat
  · have hbody : (data.drop frameHeaderSize).length = h.payloadLength.toNat := by
      rw [List.length_drop]
      omega
    have hzero : h.payloadLength = 0 → data.drop frameHeaderSize = [] := by
      intro hzero
      rw [hzero] at hbody
      exact List.eq_nil_of_length_eq_zero hbody
    simp only [hlength, bne_self_eq_false, Bool.false_or, true_and, Bool.not_eq_true',
      List.take_of_length_le (Nat.le_of_eq hbody)]
    by_cases hok : frameHeaderAcceptable rules h
    · simp only [hok, Bool.true_eq_false, if_false, if_true, beq_iff_eq]
      split_ifs with hlt hpayload
      · omega
      · rw [hzero hpayload]
      · rfl
    · simp [hok]
  · simp [hlength]

/-- One buffer holds a frame exactly when a stream of it would hold that frame and nothing else. -/
theorem frameUnpack_eq_some : frameUnpack rules data = some frame ↔ frontFrame rules data = some (frame, []) := by
  rw [frameUnpack_eq, frontFrame, decodeFrameHeader_take]
  generalize decodeFrameHeader data = h
  dsimp only
  by_cases hlength : data.length = frameHeaderSize + h.payloadLength.toNat
  · have hbody : ((data.drop frameHeaderSize).take h.payloadLength.toNat) = data.drop frameHeaderSize := by
      apply List.take_of_length_le
      rw [List.length_drop]
      omega
    have hend : data.drop (frameHeaderSize + h.payloadLength.toNat) = [] := List.drop_eq_nil_of_le (by omega)
    simp [hlength, hbody, hend]
  · have hrest : frameHeaderSize + h.payloadLength.toNat ≤ data.length →
        data.drop (frameHeaderSize + h.payloadLength.toNat) ≠ [] := by
      intro hle hnil
      rw [List.drop_eq_nil_iff] at hnil
      omega
    simp only [hlength, false_and, if_false, reduceCtorEq, false_iff]
    split_ifs with hfront
    · intro heq
      simp only [Option.some.injEq, Prod.mk.injEq] at heq
      exact hrest hfront.1 heq.2
    · exact nofun

theorem Frame.Sized.payloadLength (h : frame.Sized) : frame.payloadLength.toNat = frame.payload.length := by
  rw [Frame.payloadLength, BitVec.toNat_ofNat, Nat.mod_eq_of_lt h.payload]

theorem Frame.Sized.drop_bytes (h : frame.Sized) : frame.bytes.drop frameHeaderSize = frame.payload :=
  List.drop_left' (length_encodeFrameHeader h.magic)

theorem Frame.Sized.decode_bytes (h : frame.Sized) : decodeFrameHeader frame.bytes = frame.header := by
  rw [← decodeFrameHeader_take, Frame.bytes, List.take_left' (length_encodeFrameHeader h.magic),
    decodeFrameHeader_encodeFrameHeader h.magic]

theorem Frame.Sized.length_bytes (h : frame.Sized) :
    frame.bytes.length = frameHeaderSize + frame.payload.length := by
  rw [Frame.bytes, List.length_append, length_encodeFrameHeader h.magic]

theorem frameHeaderAcceptable_iff (h : frame.Sized) :
    frameHeaderAcceptable rules frame.header ↔ frame.Acceptable rules := by
  have hlength : frame.payloadLength ≤ rules.maximumPayload ↔
      frame.payload.length ≤ rules.maximumPayload.toNat := by
    rw [BitVec.le_def, h.payloadLength]
  simp only [frameHeaderAcceptable, Bool.and_eq_true, Bool.or_eq_true, Bool.not_eq_true', beq_iff_eq,
    decide_eq_true_eq, Frame.header, hlength]
  constructor
  · rintro ⟨⟨⟨⟨hmagic, hmajor⟩, hminor⟩, hlength⟩, hrules⟩
    refine ⟨hmagic, hmajor, hminor, hlength, fun hpublic => ?_⟩
    rw [hpublic] at hrules
    exact hrules.resolve_left (by simp)
  · rintro ⟨hmagic, hmajor, hminor, hlength, hrules⟩
    refine ⟨⟨⟨⟨hmagic, hmajor⟩, hminor⟩, hlength⟩, ?_⟩
    cases hpublic : rules.publicRules
    · exact Or.inl rfl
    · exact Or.inr (hrules hpublic)

/-- A packed frame unpacks to itself where it is acceptable, and to nothing where it is not. -/
theorem frameUnpack_bytes (h : frame.Sized) :
    frameUnpack rules frame.bytes = if frameHeaderAcceptable rules frame.header then some frame else none := by
  have hlength : frame.bytes.length = frameHeaderSize + frame.header.payloadLength.toNat := by
    rw [h.length_bytes]
    exact congrArg _ h.payloadLength.symm
  simp only [frameUnpack_eq, h.decode_bytes, hlength, true_and, h.drop_bytes]
  rfl

/-- Bytes that are one frame's: a header, and as many bytes behind it as it says. -/
def OneFrame (data : Bytes) : Prop :=
  data.length = frameHeaderSize + (decodeFrameHeader data).payloadLength.toNat

theorem frontFrame_append (h : OneFrame data) (rest : Bytes) :
    frontFrame rules (data ++ rest) = (frameUnpack rules data).map (·, rest) := by
  have hle : frameHeaderSize ≤ data.length := by
    rw [h]
    omega
  have hdecode : decodeFrameHeader ((data ++ rest).take frameHeaderSize) = decodeFrameHeader data := by
    rw [List.take_append_of_le_length hle, decodeFrameHeader_take]
  have hbody : ((data ++ rest).drop frameHeaderSize).take (decodeFrameHeader data).payloadLength.toNat =
      data.drop frameHeaderSize := by
    rw [List.drop_append_of_le_length hle]
    apply List.take_left'
    rw [List.length_drop, h]
    omega
  have hroom : frameHeaderSize + (decodeFrameHeader data).payloadLength.toNat ≤ (data ++ rest).length := by
    rw [← h, List.length_append]
    omega
  have hrest : (data ++ rest).drop (frameHeaderSize + (decodeFrameHeader data).payloadLength.toNat) = rest := by
    rw [← h, List.drop_left]
  have hlength : data.length = frameHeaderSize + (decodeFrameHeader data).payloadLength.toNat ↔ True :=
    iff_true_intro h
  simp only [frontFrame, frameUnpack_eq, hdecode, hbody, hroom, hrest, hlength, true_and]
  split_ifs <;> rfl

/-- A reader that gives what stands at the front of a stream accepts what is unpacked from there. -/
theorem Gives.unpack {result : Transfer Frame × List Bytes} (hone : OneFrame data) (hs : s.flatten = data ++ rest)
    (hgives : Gives result (frontFrame rules s.flatten)) (frame : Frame) :
    frameUnpack rules data = some frame ↔ result.1 = .done frame := by
  rw [hs, frontFrame_append hone] at hgives
  cases hunpack : frameUnpack rules data with
  | none =>
    rw [hunpack] at hgives
    exact iff_of_false nofun (hgives frame)
  | some other =>
    rw [hunpack] at hgives
    rw [hgives.1]
    simp

theorem Gives.agree {result other : Transfer Frame × List Bytes} {front : Option (Frame × Bytes)}
    (hresult : Gives result front) (hother : Gives other front) (frame : Frame) (rest : Bytes) :
    result.1 = .done frame ∧ result.2.flatten = rest ↔ other.1 = .done frame ∧ other.2.flatten = rest := by
  cases front with
  | none => exact iff_of_false (fun h => hresult frame h.1) (fun h => hother frame h.1)
  | some front => rw [hresult.1, hresult.2, hother.1, hother.2]

theorem frameWrite_eq {rooms : List ℕ} {sent : Bytes} {ok : Bool} (h : frameWrite frame rooms = (ok, sent)) :
    ∃ unsent, frame.bytes = sent ++ unsent ∧ ok = unsent.isEmpty := by
  unfold frameWrite at h
  rcases hheader : sendLoop rooms [] (encodeFrameHeader frame) with ⟨done, header, left⟩
  obtain ⟨went, unsent, rfl, hsplit, hdone⟩ := sendLoop_eq hheader
  rw [hheader] at h
  cases done with
  | false =>
    cases h
    refine ⟨unsent ++ frame.payload, ?_, ?_⟩
    · rw [Frame.bytes, hsplit, List.append_assoc]
    · cases unsent with
      | nil => cases hdone
      | cons b unsent => rfl
  | true =>
    obtain rfl : unsent = [] := List.isEmpty_iff.mp hdone.symm
    rw [List.append_nil] at hsplit
    dsimp only at h
    by_cases hempty : frame.payload.isEmpty
    · rw [if_pos hempty] at h
      cases h
      refine ⟨[], ?_, rfl⟩
      rw [Frame.bytes, hsplit, List.isEmpty_iff.mp hempty]
    · rw [if_neg hempty] at h
      rcases hpayload : sendLoop left [] frame.payload with ⟨all, payload, last⟩
      obtain ⟨body, unsent, rfl, hbody, hall⟩ := sendLoop_eq hpayload
      rw [hpayload] at h
      cases h
      refine ⟨unsent, ?_, hall⟩
      rw [Frame.bytes, hsplit, hbody]
      simp only [List.append_assoc]

theorem frameWrite_done {rooms : List ℕ} (h : frame.bytes.length ≤ rooms.countP (0 < ·)) :
    frameWrite frame rooms = (true, frame.bytes) := by
  rw [Frame.bytes, List.length_append] at h
  obtain ⟨left, hheader, hleft⟩ := @sendLoop_done rooms [] (encodeFrameHeader frame) (by omega)
  obtain ⟨last, hpayload, -⟩ := @sendLoop_done left [] frame.payload (by omega)
  unfold frameWrite
  rw [hheader]
  dsimp only
  by_cases hempty : frame.payload.isEmpty
  · rw [if_pos hempty, Frame.bytes, List.isEmpty_iff.mp hempty, List.append_nil]
    rfl
  · rw [if_neg hempty, hpayload]
    rfl

/-- A frame is packed wherever there is room for it. Packing and unpacking are inverse on the acceptable frames, the
readers agree on every stream in every chunking, and both writers write the same bytes. -/
theorem frame_codecs_agree (rules : FrameRules) :
    (∀ (frame : Frame) (b : Buffer), b.Fits →
      ((framePack frame b).isSome ↔ b.data.length + frame.bytes.length ≤ b.maximum)) ∧
      (∀ (frame : Frame) (b b' : Buffer), frame.Sized → framePack frame b = some b' →
        ∃ packed, b'.data = b.data ++ packed ∧
          (frameUnpack rules packed = some frame ↔ frame.Acceptable rules) ∧
          ∀ rooms, (frameWrite frame rooms).1 = true → (frameWrite frame rooms).2 = packed) ∧
      (∀ (frame : Frame) (rooms : List ℕ), frame.bytes.length ≤ rooms.countP (0 < ·) →
        (frameWrite frame rooms).1 = true) ∧
      (∀ (s : List Bytes) (frame : Frame) (rest : Bytes),
        (frameRead rules s).1 = .done frame ∧ (frameRead rules s).2.flatten = rest ↔
          (frameReadFd rules s).1 = .done frame ∧ (frameReadFd rules s).2.flatten = rest) ∧
      ∀ (s : List Bytes) (data rest : Bytes) (frame : Frame), OneFrame data → s.flatten = data ++ rest →
        ((frameUnpack rules data = some frame ↔ (frameRead rules s).1 = .done frame) ∧
          (frameUnpack rules data = some frame ↔ (frameReadFd rules s).1 = .done frame)) := by
  refine ⟨fun frame b hfits => (framePack_writes frame).isSome hfits,
    fun frame b b' hsized hpack => ⟨frame.bytes, (framePack_writes frame).data hpack, ?_, fun rooms hok => ?_⟩,
    fun frame rooms h => ?_, fun s frame rest => ?_, fun s data rest frame hone hs => ⟨?_, ?_⟩⟩
  · rw [frameUnpack_bytes hsized, ← frameHeaderAcceptable_iff hsized]
    split_ifs with hok
    · simp [hok]
    · simp [hok]
  · rcases hwrite : frameWrite frame rooms with ⟨ok, sent⟩
    obtain ⟨unsent, hsplit, hempty⟩ := frameWrite_eq hwrite
    rw [hwrite] at hok
    obtain rfl : ok = true := hok
    rw [hsplit, List.isEmpty_iff.mp hempty.symm, List.append_nil]
  · rw [frameWrite_done h]
  · exact Gives.agree (frameRead_gives rules s) (frameReadFd_gives rules s) frame rest
  · exact Gives.unpack hone hs (frameRead_gives rules s) frame
  · exact Gives.unpack hone hs (frameReadFd_gives rules s) frame

/-- A response of one byte, under the public rules. -/
def byteResponse : Frame := ⟨frameMagic, protocolMajor, protocolMinor, Op.ping, flagResponse, 7, [0x2a]⟩

/-- The rules for a request of a client. -/
def publicRules : FrameRules := ⟨frameMagic, protocolMajor, protocolMinor, 4096, true⟩

theorem frameReadable_iff_acceptable (frame : Frame) : frameReadable frame ↔ frame.Acceptable publicRules := by
  have hmaximum : publicRules.maximumPayload.toNat = maxRequestPayload := rfl
  simp only [frameReadable, Bool.and_eq_true, beq_iff_eq, decide_eq_true_eq]
  constructor
  · rintro ⟨⟨⟨⟨hmagic, hmajor⟩, hminor⟩, hlength⟩, hpublic⟩
    exact ⟨hmagic, hmajor, hminor, hlength, fun _ => hpublic⟩
  · rintro ⟨hmagic, hmajor, hminor, hlength, hpublic⟩
    exact ⟨⟨⟨⟨hmagic, hmajor⟩, hminor⟩, hlength⟩, hpublic rfl⟩

theorem byteResponse_agree :
    ((framePack byteResponse (bufferInit 25)).isSome ↔ 0 + byteResponse.bytes.length ≤ 25) ∧
      (∃ packed, byteResponse.bytes = [] ++ packed ∧
        (frameUnpack publicRules packed = some byteResponse ↔ byteResponse.Acceptable publicRules) ∧
        ∀ rooms, (frameWrite byteResponse rooms).1 = true → (frameWrite byteResponse rooms).2 = packed) ∧
      (frameWrite byteResponse (List.replicate 25 1)).1 = true ∧
      ((frameUnpack publicRules byteResponse.bytes = some byteResponse ↔
        (frameRead publicRules (byteResponse.bytes.map ([·]))).1 = .done byteResponse) ∧
      (frameUnpack publicRules byteResponse.bytes = some byteResponse ↔
        (frameReadFd publicRules (byteResponse.bytes.map ([·]))).1 = .done byteResponse)) :=
  ⟨(frame_codecs_agree publicRules).1 byteResponse (bufferInit 25) (Nat.zero_le _),
    (frame_codecs_agree publicRules).2.1 byteResponse (bufferInit 25) ⟨byteResponse.bytes, 64, 25⟩
      ⟨by decide, by decide⟩ (by decide +kernel),
    (frame_codecs_agree publicRules).2.2.1 byteResponse (List.replicate 25 1) (by decide),
    (frame_codecs_agree publicRules).2.2.2.2 (byteResponse.bytes.map ([·])) byteResponse.bytes [] byteResponse
      (by
        unfold OneFrame
        decide +kernel) (by decide)⟩

end Agreement

end KeysharpDesktop
