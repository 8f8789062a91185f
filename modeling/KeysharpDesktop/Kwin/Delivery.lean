import KeysharpDesktop.Kwin.Relay
import KeysharpDesktop.Lib.Slots

/-! Which backend answers a relay hands to their caller unchanged. -/
namespace KeysharpDesktop

section Slots

variable {relay relay' : KwinRelay} {slot : RelayPending} {i j : ℕ}

theorem slot_setSlot (relay : KwinRelay) (slot : RelayPending) (i j : ℕ) :
    (relay.setSlot i slot).slot j =
      if j = i ∧ i < relay.pending.length then slot else relay.slot j :=
  Slots.getD_set _ _ _ _ _

@[simp] theorem setSlot_nextRequestId : (relay.setSlot i slot).nextRequestId = relay.nextRequestId := rfl

@[simp] theorem setSlot_broken : (relay.setSlot i slot).broken = relay.broken := rfl

/-- A slot that no answer has reached holds none of an answer's parts. -/
def RelayPending.Empty (slot : RelayPending) : Prop :=
  slot.tail = [] ∧ slot.tailLength = 0 ∧ slot.payloadFd = none

/-- What every reachable relay keeps; ids are told apart until the counter wraps. -/
structure KwinRelay.Sound (relay : KwinRelay) : Prop where
  below : ∀ i, (relay.slot i).active → (relay.slot i).requestId.toNat < relay.nextRequestId
  distinct : relay.nextRequestId ≤ 2 ^ 64 → ∀ i j, (relay.slot i).active → (relay.slot j).active →
    (relay.slot i).requestId = (relay.slot j).requestId → i = j
  empty : ∀ i, (relay.slot i).done = false → (relay.slot i).Empty

/-- Everything a delivery can do: nothing, or fill one slot that waits for it. -/
theorem deliver_cases (relay : KwinRelay) (requestId : BitVec 64) (body : Bytes) (fd : Option File) :
    (deliver relay requestId body fd).2 = relay ∨
      ∃ i slot, i < relay.pending.length ∧ awaiting requestId (relay.slot i) ∧
        (deliver relay requestId body fd).2 = relay.setSlot i slot ∧
        slot.active = (relay.slot i).active ∧ slot.requestId = (relay.slot i).requestId ∧
        (slot.done = false → (relay.slot i).Empty → slot.Empty) := by
  cases hi : relay.pending.findIdx? (awaiting requestId) with
  | none => left; simp [deliver, hi]
  | some i =>
    right
    obtain ⟨hlt, hw⟩ := Slots.findIdx?_some hi
    cases fd with
    | none =>
      simp only [deliver, hi]
      refine ⟨i, _, hlt, hw, rfl, ?_, ?_, by simp⟩ <;> split_ifs <;> rfl
    | some file =>
      by_cases hc : isCapture (relay.slot i).opcode
      · simp only [deliver, hi, hc, if_true]
        exact ⟨i, _, hlt, hw, rfl, rfl, rfl, by simp⟩
      · simp only [deliver, hi, hc, Bool.false_eq_true, if_false]
        exact ⟨i, _, hlt, hw, rfl, rfl, rfl, fun _ he => he⟩

/-- The slot of a call that has just begun. -/
def freshSlot (relay : KwinRelay) (opcode : Opcode) : RelayPending :=
  { active := true, opcode, requestId := BitVec.ofNat 64 relay.nextRequestId }

/-- Everything one turn of the relay can do to its slots. -/
inductive SlotChange (relay : KwinRelay) : RelayStep → KwinRelay → Prop
  | keep (label : RelayStep) (broken : Bool) : SlotChange relay label { relay with broken }
  | fill (stream : Bytes) (fd : Option File) (i : ℕ) (slot : RelayPending) (broken : Bool)
      (active : slot.active = (relay.slot i).active)
      (requestId : slot.requestId = (relay.slot i).requestId)
      (waiting : (relay.slot i).done = false)
      (empty : slot.done = false → (relay.slot i).Empty → slot.Empty) :
      SlotChange relay (.read stream fd) { relay.setSlot i slot with broken }
  | fresh (opcode : Opcode) (i : ℕ) (inactive : (relay.slot i).active = false) :
      SlotChange relay (.start opcode)
        { relay.setSlot i (freshSlot relay opcode) with nextRequestId := relay.nextRequestId + 1 }
  | clear (i : ℕ) : SlotChange relay (.finish i) (relay.setSlot i {})

/-- A read ends where it began, or where a delivery of some body ends. -/
theorem readOne_relay (relay : KwinRelay) (stream : Bytes) (fd : Option File) :
    (readOne relay stream fd).relay = relay ∨
      ∃ requestId body, (readOne relay stream fd).relay = (deliver relay requestId body fd).2 := by
  unfold readOne
  split
  · exact .inl rfl
  · dsimp only
    split_ifs
    · exact .inl rfl
    · split
      · exact .inl rfl
      · split_ifs
        · exact .inl rfl
        · exact .inr ⟨_, _, rfl⟩

theorem relayRead_eq (relay : KwinRelay) (stream : Bytes) (fd : Option File) :
    ∃ broken, relayRead relay stream fd = { (readOne relay stream fd).relay with broken } := by
  unfold relayRead
  dsimp only
  split_ifs
  · exact ⟨_, rfl⟩
  · exact ⟨true, rfl⟩

theorem relayBegin_cases (relay : KwinRelay) (opcode : Opcode) :
    relayBegin relay opcode = none ∨ ∃ i, (relay.slot i).active = false ∧
      relayBegin relay opcode = some (i,
        { relay.setSlot i (freshSlot relay opcode) with nextRequestId := relay.nextRequestId + 1 }) := by
  unfold relayBegin
  split_ifs
  · exact .inl rfl
  · cases hi : relay.pending.findIdx? fun slot => !slot.active with
    | none => exact .inl rfl
    | some i =>
      obtain ⟨-, hp⟩ := Slots.findIdx?_some (d := {}) hi
      exact .inr ⟨i, Bool.not_eq_true' _ ▸ hp, rfl⟩

theorem relayStep_change (relay : KwinRelay) (label : RelayStep) :
    SlotChange relay label (relayStep relay label) := by
  cases label with
  | start opcode =>
    rcases relayBegin_cases relay opcode with h | ⟨i, hinactive, h⟩
    · rw [relayStep, h]
      exact .keep _ _
    · rw [relayStep, h]
      exact .fresh opcode i hinactive
  | read stream fd =>
    obtain ⟨broken, hread⟩ := relayRead_eq relay stream fd
    simp only [relayStep, hread]
    rcases readOne_relay relay stream fd with h | ⟨requestId, body, h⟩
    · rw [h]
      exact .keep _ _
    · rw [h]
      rcases deliver_cases relay requestId body fd with hd | ⟨i, slot, -, hw, hd, hactive, hid, hempty⟩
      · rw [hd]
        exact .keep _ _
      · rw [hd]
        simp only [awaiting, Bool.and_eq_true, Bool.not_eq_true'] at hw
        exact .fill stream fd i slot broken hactive hid hw.1.2 hempty
  | finish i => exact .clear i
  | breakDown => exact .keep _ true

theorem SlotChange.sound {label : RelayStep} (h : SlotChange relay label relay') (hs : relay.Sound) :
    relay'.Sound := by
  cases h with
  | keep _ broken => exact ⟨hs.below, hs.distinct, hs.empty⟩
  | fill stream fd i slot broken hactive hid hwaiting hempty =>
    have hsame : ∀ k, ((relay.setSlot i slot).slot k).active = (relay.slot k).active ∧
        ((relay.setSlot i slot).slot k).requestId = (relay.slot k).requestId := by
      intro k
      rw [slot_setSlot]
      split_ifs with hk
      · rw [hk.1]
        exact ⟨hactive, hid⟩
      · exact ⟨rfl, rfl⟩
    refine ⟨?_, ?_, ?_⟩
    · intro k hk
      have := hs.below k ((hsame k).1 ▸ hk)
      rwa [← (hsame k).2] at this
    · intro hn k l hk hl hkl
      refine hs.distinct hn k l ((hsame k).1 ▸ hk) ((hsame l).1 ▸ hl) ?_
      rw [← (hsame k).2, ← (hsame l).2]
      exact hkl
    · intro k hk
      change ((relay.setSlot i slot).slot k).done = false at hk
      change ((relay.setSlot i slot).slot k).Empty
      rw [slot_setSlot] at hk ⊢
      split_ifs at hk ⊢ with hki
      · exact hempty hk (hs.empty i hwaiting)
      · exact hs.empty k hk
  | fresh opcode i hinactive =>
    have hlow : (BitVec.ofNat 64 relay.nextRequestId).toNat ≤ relay.nextRequestId := by
      rw [BitVec.toNat_ofNat]
      exact Nat.mod_le _ _
    refine ⟨?_, ?_, ?_⟩
    · intro k hk
      change ((relay.setSlot i (freshSlot relay opcode)).slot k).active at hk
      change ((relay.setSlot i (freshSlot relay opcode)).slot k).requestId.toNat < relay.nextRequestId + 1
      rw [slot_setSlot] at hk ⊢
      split_ifs at hk ⊢ with hki
      · exact Nat.lt_succ_of_le hlow
      · exact Nat.lt_succ_of_lt (hs.below k hk)
    · intro hn k l hk hl hkl
      change ((relay.setSlot i (freshSlot relay opcode)).slot k).active at hk
      change ((relay.setSlot i (freshSlot relay opcode)).slot l).active at hl
      change ((relay.setSlot i (freshSlot relay opcode)).slot k).requestId =
        ((relay.setSlot i (freshSlot relay opcode)).slot l).requestId at hkl
      have hnew : (freshSlot relay opcode).requestId.toNat = relay.nextRequestId := by
        rw [freshSlot, BitVec.toNat_ofNat, Nat.mod_eq_of_lt]
        exact Nat.lt_of_succ_le hn
      rw [slot_setSlot] at hk hl
      rw [slot_setSlot, slot_setSlot] at hkl
      split_ifs at hk hl hkl with hki hli hli
      · rw [hki.1, hli.1]
      · have := hs.below l hl
        rw [← hkl, hnew] at this
        omega
      · have := hs.below k hk
        rw [hkl, hnew] at this
        omega
      · exact hs.distinct (Nat.le_of_succ_le hn) k l hk hl hkl
    · intro k hk
      change ((relay.setSlot i (freshSlot relay opcode)).slot k).done = false at hk
      change ((relay.setSlot i (freshSlot relay opcode)).slot k).Empty
      rw [slot_setSlot] at hk ⊢
      split_ifs at hk ⊢ with hki
      · exact ⟨rfl, rfl, rfl⟩
      · exact hs.empty k hk
  | clear i =>
    refine ⟨?_, ?_, ?_⟩
    · intro k hk
      rw [slot_setSlot] at hk ⊢
      split_ifs at hk ⊢
      exact hs.below k hk
    · intro hn k l hk hl hkl
      rw [slot_setSlot] at hk hl
      rw [slot_setSlot, slot_setSlot] at hkl
      split_ifs at hk hl hkl
      exact hs.distinct hn k l hk hl hkl
    · intro k hk
      rw [slot_setSlot] at hk ⊢
      split_ifs at hk ⊢
      · exact ⟨rfl, rfl, rfl⟩
      · exact hs.empty k hk

theorem kwinRelayCreate_sound : kwinRelayCreate.Sound := by
  have hslot : ∀ i, kwinRelayCreate.slot i = {} := by
    intro i
    exact Slots.getD_replicate _ _
  refine ⟨?_, ?_, ?_⟩
  · intro i hi
    simp [hslot] at hi
  · intro _ i j hi
    simp [hslot] at hi
  · intro i _
    rw [hslot]
    exact ⟨rfl, rfl, rfl⟩

theorem KwinRelay.Reachable.sound (h : relay.Reachable) : relay.Sound := by
  obtain ⟨labels, hrun⟩ := h
  refine hrun.invariant ?_ kwinRelayCreate_sound
  rintro s label t hs rfl
  exact (relayStep_change s label).sound hs

/-- An answered slot keeps its answer until its own caller takes it. -/
theorem SlotChange.slot_done {label : RelayStep} (h : SlotChange relay label relay')
    (hdone : (relay.slot i).done) (hactive : (relay.slot i).active) (hl : label ≠ .finish i) :
    relay'.slot i = relay.slot i := by
  cases h with
  | keep => rfl
  | fill stream fd j slot broken _ _ hwaiting =>
    change (relay.setSlot j slot).slot i = _
    rw [slot_setSlot, if_neg]
    rintro ⟨rfl, -⟩
    rw [hdone] at hwaiting
    cases hwaiting
  | fresh opcode j hinactive =>
    change (relay.setSlot j (freshSlot relay opcode)).slot i = _
    rw [slot_setSlot, if_neg]
    rintro ⟨rfl, -⟩
    rw [hactive] at hinactive
    cases hinactive
  | clear j =>
    rw [slot_setSlot, if_neg]
    rintro ⟨rfl, -⟩
    exact hl rfl

theorem RelayRun.slot_done {labels : List RelayStep} (h : RelayRun relay labels relay')
    (hdone : (relay.slot i).done) (hactive : (relay.slot i).active)
    (hl : RelayStep.finish i ∉ labels) : relay'.slot i = relay.slot i := by
  induction h with
  | nil => rfl
  | @cons s t u l ls hstep _ ih =>
    subst hstep
    have hone := (relayStep_change s l).slot_done hdone hactive (by
      rintro rfl
      exact hl (by simp))
    rw [← hone] at hdone hactive ⊢
    exact ih hdone hactive (fun hmem => hl (by simp [hmem]))

/-- A slot in use changes only by a read or by its own caller. -/
theorem SlotChange.slot_unread {label : RelayStep} (h : SlotChange relay label relay')
    (hactive : (relay.slot i).active) (hl : label ≠ .finish i) (hr : ∀ stream fd, label ≠ .read stream fd) :
    relay'.slot i = relay.slot i := by
  cases h with
  | keep => rfl
  | fill stream fd => exact absurd rfl (hr stream fd)
  | fresh opcode j hinactive =>
    change (relay.setSlot j (freshSlot relay opcode)).slot i = _
    rw [slot_setSlot, if_neg]
    rintro ⟨rfl, -⟩
    rw [hactive] at hinactive
    cases hinactive
  | clear j =>
    rw [slot_setSlot, if_neg]
    rintro ⟨rfl, -⟩
    exact hl rfl

theorem RelayRun.slot_unread {labels : List RelayStep} (h : RelayRun relay labels relay')
    (hactive : (relay.slot i).active) (hl : RelayStep.finish i ∉ labels)
    (hr : ∀ stream fd, RelayStep.read stream fd ∉ labels) : relay'.slot i = relay.slot i := by
  induction h with
  | nil => rfl
  | @cons s t u l ls hstep _ ih =>
    subst hstep
    have hone := (relayStep_change s l).slot_unread hactive (by
      rintro rfl
      exact hl (by simp)) (by
      rintro stream fd rfl
      exact hr stream fd (by simp))
    rw [← hone] at hactive ⊢
    exact ih hactive (fun hmem => hl (by simp [hmem])) (fun stream fd hmem => hr stream fd (by simp [hmem]))

end Slots

section Answers

variable {relay relay' : KwinRelay} {i : ℕ} {opcode : Opcode} {requestId : BitVec 64}
  {r : OperationResult}

/-- Every result a display backend may hand to the worker. -/
inductive BackendResult (opcode : Opcode) : OperationResult → Prop
  | empty : BackendResult opcode (resultTake [])
  | text (b : Buffer) (failureStatus : Status) (diagnostic : Bytes)
      (fits : b.data.length ≤ maxTextBytes) :
      BackendResult opcode (resultTakeFramedText b failureStatus diagnostic)
  | numbers (tail : Bytes) (fits : tail.length ≤ maxTextBytes) : BackendResult opcode (resultTake tail)
  | capture (file : File) (length : ℕ) (isCapture : isCapture opcode)
      (acceptable : fileAcceptable Status.ok length file) :
      BackendResult opcode ⟨Status.ok, 0, [], [], length, some file⟩
  | error (status : Status) (detail : BitVec 32) (diagnostic : Bytes) (failed : status ≠ Status.ok) :
      BackendResult opcode (resultError status detail diagnostic)

/-- A frame that either writer sends for a request, with the result it stands for. -/
inductive BackendAnswer (requestId : BitVec 64) (opcode : Opcode) :
    RelayFrame → OperationResult → Prop
  | worker {result : OperationResult} {frame : RelayFrame} (legal : BackendResult opcode result)
      (sent : servePersistently requestId result = some frame) :
      BackendAnswer requestId opcode frame result
  | kwin {status : Status} {body : Bytes} {frame : RelayFrame}
      (sent : relayAnswer requestId opcode status body = some frame) :
      BackendAnswer requestId opcode frame (kwinResult opcode status body)

/-- What the caller sees of a result: an error without a text gets the relay's own. -/
def received (result : OperationResult) : OperationResult :=
  if result.status ≠ Status.ok ∧ result.diagnostic = [] then { result with diagnostic := refusedText }
  else result

/-- Slot `i` waits for the answer to its request. -/
structure Waiting (relay : KwinRelay) (i : ℕ) (opcode : Opcode) (requestId : BitVec 64) : Prop where
  active : (relay.slot i).active
  undone : (relay.slot i).done = false
  requestId : (relay.slot i).requestId = requestId
  opcode : (relay.slot i).opcode = opcode

/-- The frame is accepted and consumed whole, the channel holds, and whatever the other
callers do next, the caller of slot `i` returns the result. -/
structure Delivered (relay : KwinRelay) (i : ℕ) (frame : RelayFrame) (result : OperationResult) :
    Prop where
  accepted (rest : Bytes) : (readOne relay (frame.bytes ++ rest) frame.fd).ok
  consumed (rest : Bytes) : (readOne relay (frame.bytes ++ rest) frame.fd).rest = rest
  unbroken (rest : Bytes) : (relayRead relay (frame.bytes ++ rest) frame.fd).broken = relay.broken
  returned (rest : Bytes) (labels : List RelayStep) (later : KwinRelay) :
    RelayRun (relayRead relay (frame.bytes ++ rest) frame.fd) labels later →
    RelayStep.finish i ∉ labels → (relayFinish later i true).1 = received result

/-- What the shapes of a result have in common once it is on the wire. -/
inductive Shape (opcode : Opcode) : OperationResult → Prop
  | tail (tail : Bytes) (short : tail.length ≤ maxTextBytes + 4) : Shape opcode (resultTake tail)
  | capture (file : File) (length : ℕ) (isCapture : isCapture opcode)
      (acceptable : fileAcceptable Status.ok length file) :
      Shape opcode ⟨Status.ok, 0, [], [], length, some file⟩
  | error (status : Status) (detail : BitVec 32) (diagnostic : Bytes) (failed : status ≠ Status.ok)
      (valid : DiagnosticOk diagnostic) : Shape opcode ⟨status, detail, diagnostic, [], 0, none⟩

theorem BackendResult.shape (h : BackendResult opcode r) : Shape opcode r := by
  cases h with
  | empty => exact .tail [] (by simp)
  | text b failureStatus diagnostic fits =>
    rw [resultTakeFramedText_eq fits]
    refine .tail _ ?_
    rw [List.length_append, length_encodeU32]
    omega
  | numbers tail fits => exact .tail tail (by omega)
  | capture file length hc hf => exact .capture file length hc hf
  | error status detail diagnostic failed =>
    exact .error status detail _ failed (resultError_diagnosticOk status detail diagnostic)

/-- A translation stays below the ceiling of the buffer it is written to. -/
theorem kwinResponsePayload_length {body : Bytes} {n : ℕ} {b : Buffer}
    (h : kwinResponsePayload opcode body (bufferInit n) = some b) : b.data.length ≤ n := by
  unfold kwinResponsePayload at h
  split_ifs at h
  · obtain ⟨hdata, hle⟩ := ((bufferU32_writes _).bind (bufferBytes_writes body)).bufferInit_eq_some h
    rwa [hdata]
  · obtain ⟨p, -, h⟩ := Option.bind_eq_some_iff.mp h
    obtain ⟨hdata, hle⟩ := ((bufferU32_writes _).bind (bufferU32_writes _)).bufferInit_eq_some h
    rwa [hdata]
  · obtain ⟨p, -, h⟩ := Option.bind_eq_some_iff.mp h
    obtain ⟨hdata, hle⟩ := ((bufferU32_writes _).bind ((bufferU32_writes _).bind
      ((bufferU32_writes _).bind (bufferU32_writes _)))).bufferInit_eq_some h
    rwa [hdata]
  · cases h
    exact Nat.zero_le n

theorem kwinResult_shape (status : Status) (body : Bytes) :
    Shape opcode (kwinResult opcode status body) := by
  unfold kwinResult
  split_ifs with hs
  · split
    · next translated ht => exact .tail _ (kwinResponsePayload_length ht)
    · exact .error Status.internal 0 [] (by decide) (by decide)
  · exact .error status 0 [] hs (by decide)

theorem BackendAnswer.shape {frame : RelayFrame} (h : BackendAnswer requestId opcode frame r) :
    Shape opcode r := by
  cases h with
  | worker legal _ => exact legal.shape
  | kwin _ => exact kwinResult_shape _ _

/-- Both writers send the one frame that stands for the result. -/
theorem BackendAnswer.frame_eq {frame : RelayFrame} (h : BackendAnswer requestId opcode frame r) :
    frame = ⟨(answerOf requestId r).bytes, captureFd r⟩ := by
  cases h with
  | worker _ sent =>
    rw [servePersistently_eq] at sent
    exact (Option.some.inj sent).symm
  | kwin sent =>
    rw [relayAnswer_eq, servePersistently_eq] at sent
    exact (Option.some.inj sent).symm

theorem readOne_bytes (frame : Frame) (hm : frame.magic.length = 4)
    (hl : frame.payload.length < 2 ^ 32) (relay : KwinRelay) (fd : Option File) (rest : Bytes) :
    readOne relay (frame.bytes ++ rest) fd =
      if !headerAcceptable frame.header fd then ⟨false, relay, frame.payload ++ rest⟩
      else if fd.any fun file => !fileAcceptable (decodeU32 frame.payload)
        (decodeU32 (frame.payload.drop 8)).toNat file then ⟨false, relay, rest⟩
      else ⟨(deliver relay frame.requestId frame.payload fd).1,
        (deliver relay frame.requestId frame.payload fd).2, rest⟩ := by
  have hhead : cursorBytes (encodeFrameHeader frame ++ (frame.payload ++ rest)) frameHeaderSize =
      some (encodeFrameHeader frame, frame.payload ++ rest) := by
    rw [← length_encodeFrameHeader hm]
    exact cursorBytes_append _ _
  have hlen : frame.header.payloadLength.toNat = frame.payload.length := by
    change (BitVec.ofNat 32 frame.payload.length).toNat = _
    rw [BitVec.toNat_ofNat, Nat.mod_eq_of_lt hl]
  have hbody := cursorBytes_append frame.payload rest
  rw [← hlen] at hbody
  simp only [readOne, Frame.bytes, List.append_assoc, hhead, decodeFrameHeader_encodeFrameHeader hm,
    hbody]
  rfl

section Body

variable (r : OperationResult)

theorem length_answerBody : (answerBody r).length = (answerTail r).length + 8 := by
  simp [answerBody]
  omega

@[simp] theorem decodeU32_answerBody : decodeU32 (answerBody r) = r.status :=
  decodeU32_encodeU32 _ _

@[simp] theorem decodeU32_answerBody_drop : decodeU32 ((answerBody r).drop 4) = r.detail := by
  rw [answerBody, List.drop_left' (length_encodeU32 _)]
  exact decodeU32_encodeU32 _ _

@[simp] theorem answerBody_drop : (answerBody r).drop 8 = answerTail r := by
  rw [answerBody, ← List.append_assoc]
  exact List.drop_left' (by simp)

end Body

/-- The reader's four limits on the frame of a result come down to one on its tail. -/
theorem headerAcceptable_answerOf (requestId : BitVec 64) (hl : (answerBody r).length < 2 ^ 32) :
    headerAcceptable (answerOf requestId r).header (captureFd r) ↔
      (answerTail r).length ≤ maxTextBytes := by
  have hlen : (answerOf requestId r).header.payloadLength.toNat = (answerTail r).length + 8 := by
    change (BitVec.ofNat 32 (answerBody r).length).toNat = _
    rw [BitVec.toNat_ofNat, Nat.mod_eq_of_lt hl, length_answerBody]
  have hflags : (answerOf requestId r).header.flags =
      if (captureFd r).isSome then relayCaptureFd else 0 := rfl
  have hmagic : (answerOf requestId r).header.magic = frameMagic := rfl
  have hmajor : (answerOf requestId r).header.major = protocolMajor := rfl
  have hminor : (answerOf requestId r).header.minor = protocolMinor := rfl
  unfold headerAcceptable
  by_cases hfd : (captureFd r).isSome
  · have htail : (answerTail r).length = 4 := by simp [answerTail, hfd]
    have h12 : (answerOf requestId r).header.payloadLength = 12 := by
      apply BitVec.eq_of_toNat_eq
      rw [hlen, htail]
      rfl
    rw [hflags, hmagic, hmajor, hminor, hlen, htail, h12, hfd]
    decide +kernel
  · have hzero : ((0 : BitVec 16) == relayCaptureFd) = false := by decide
    rw [hflags, hmagic, hmajor, hminor, hlen, if_neg hfd, hzero]
    simp [hfd]

theorem findIdx?_awaiting (hs : relay.Sound) (hids : relay.nextRequestId ≤ 2 ^ 64)
    (hw : Waiting relay i opcode requestId) :
    relay.pending.findIdx? (awaiting requestId) = some i := by
  refine Slots.findIdx?_of_unique (d := {}) rfl ?_ ?_
  · change awaiting requestId (relay.slot i)
    simp [awaiting, hw.active, hw.undone, hw.requestId]
  · intro j hwait
    change awaiting requestId (relay.slot j) at hwait
    simp only [awaiting, Bool.and_eq_true, Bool.not_eq_true', beq_iff_eq] at hwait
    exact hs.distinct hids j i hwait.1.1 hw.active (by rw [hwait.2, hw.requestId])

/-- The slot once the answer for `r` has reached it. -/
def answeredSlot (slot : RelayPending) (r : OperationResult) : RelayPending :=
  { slot with
    done := true, status := r.status, detail := r.detail, payloadFd := captureFd r
    tail := if (captureFd r).isSome then [] else answerTail r
    tailLength := if (captureFd r).isSome then r.tailLength else (answerTail r).length }

/-- A file's length survives its 32-bit field. -/
theorem decodeU32_captureTail {length : ℕ} {file : File} (h : fileAcceptable Status.ok length file) :
    (decodeU32 (answerTail ⟨Status.ok, 0, [], [], length, some file⟩)).toNat = length := by
  simp only [fileAcceptable, Bool.and_eq_true, decide_eq_true_eq] at h
  have hmax : maxCaptureTail < 2 ^ 32 := by decide
  have hdecode := decodeU32_encodeU32 (BitVec.ofNat 32 length) []
  rw [List.append_nil] at hdecode
  change (decodeU32 (encodeU32 (BitVec.ofNat 32 length))).toNat = length
  rw [hdecode, BitVec.toNat_ofNat, Nat.mod_eq_of_lt (by omega)]

theorem Shape.length_lt (h : Shape opcode r) : (answerBody r).length < 2 ^ 32 := by
  have hmax : maxTextBytes = 4194304 := rfl
  rw [length_answerBody]
  cases h with
  | tail tail short =>
    change tail.length + 8 < _
    omega
  | capture file length =>
    change (encodeU32 (BitVec.ofNat 32 length)).length + 8 < _
    rw [length_encodeU32]
    decide
  | error status detail diagnostic failed valid =>
    have hlen : diagnostic.length < 1024 := valid.2
    simp only [answerTail, captureFd, tailOrDiagnostic, failed, if_false, Option.isSome_none,
      Bool.false_eq_true]
    omega

theorem deliver_answer (hs : relay.Sound) (hids : relay.nextRequestId ≤ 2 ^ 64)
    (hw : Waiting relay i opcode requestId) (hr : Shape opcode r) :
    deliver relay requestId (answerBody r) (captureFd r) =
      (true, relay.setSlot i (answeredSlot (relay.slot i) r)) := by
  obtain ⟨htail, hlength, hfd⟩ := hs.empty i hw.undone
  have hplain : captureFd r = none → deliver relay requestId (answerBody r) (captureFd r) =
      (true, relay.setSlot i (answeredSlot (relay.slot i) r)) := by
    intro hnone
    simp only [deliver, findIdx?_awaiting hs hids hw, hnone, answeredSlot, Option.isSome_none,
      Bool.false_eq_true, if_false, decodeU32_answerBody, decodeU32_answerBody_drop, answerBody_drop]
    by_cases ht : answerTail r = []
    · rw [if_pos ht, ht, ← htail, ← hfd, htail, List.length_nil, ← hlength]
    · rw [if_neg ht, ← hfd]
  cases hr with
  | tail tail short => exact hplain rfl
  | capture file length hc hf =>
    have hbody := answerBody_drop ⟨Status.ok, 0, [], [], length, some file⟩
    have hcapture : isCapture (relay.slot i).opcode := by rwa [hw.opcode]
    change deliver relay requestId _ (some file) = _
    simp only [deliver, findIdx?_awaiting hs hids hw, hcapture, if_true, hbody, decodeU32_captureTail hf,
      decodeU32_answerBody, decodeU32_answerBody_drop]
    rw [htail]
    rfl
  | error status detail diagnostic failed valid => exact hplain (by simp [captureFd, failed])

/-- The answered slot gives its caller the result. -/
theorem slotAnswer_answeredSlot (hr : Shape opcode r) (slot : RelayPending) :
    slotAnswer (answeredSlot slot r) = some (received r) := by
  cases hr with
  | tail tail short =>
    have hzero : (if tail.length ≠ 0 then tail else []) = tail := by
      cases tail <;> rfl
    change some (resultTake (if tail.length ≠ 0 then tail else [])) = _
    rw [hzero]
    rfl
  | capture file length hc hf =>
    have hpos : length ≠ 0 := by
      rintro rfl
      simp [fileAcceptable] at hf
    change resultTakeFd file length = _
    rw [resultTakeFd, if_neg hpos]
    rfl
  | error status detail diagnostic failed valid =>
    have hnone : captureFd ⟨status, detail, diagnostic, [], 0, none⟩ = none := by
      simp [captureFd]
    have htext : answerTail ⟨status, detail, diagnostic, [], 0, none⟩ = diagnostic := by
      simp [answerTail, hnone, tailOrDiagnostic, failed]
    simp only [slotAnswer, answeredSlot, hnone, htext, Bool.not_true, Bool.false_eq_true, if_false,
      Option.isSome_none, failed]
    by_cases hd : diagnostic = []
    · subst hd
      rw [if_neg (by simp), resultError_diagnostic (by decide +kernel)]
      simp [received, failed]
    · rw [if_pos (by simpa using hd), resultError_diagnostic valid]
      simp [received, hd]

/-- The result of reading an answer, where its length decides. -/
theorem readOne_answer (hs : relay.Sound) (hids : relay.nextRequestId ≤ 2 ^ 64)
    (hw : Waiting relay i opcode requestId) (hr : Shape opcode r) (rest : Bytes) :
    readOne relay ((answerOf requestId r).bytes ++ rest) (captureFd r) =
      if (answerTail r).length ≤ maxTextBytes then
        ⟨true, relay.setSlot i (answeredSlot (relay.slot i) r), rest⟩
      else ⟨false, relay, answerBody r ++ rest⟩ := by
  have hacceptable := headerAcceptable_answerOf requestId hr.length_lt
  have hfile : ((captureFd r).any fun file => !fileAcceptable (decodeU32 (answerBody r))
      (decodeU32 ((answerBody r).drop 8)).toNat file) = false := by
    rw [decodeU32_answerBody, answerBody_drop]
    cases hr with
    | tail => rfl
    | capture file length hc hf =>
      change (!fileAcceptable Status.ok _ file) = false
      rw [decodeU32_captureTail hf, hf]
      rfl
    | error status detail diagnostic failed => simp [captureFd]
  rw [readOne_bytes (answerOf requestId r) rfl hr.length_lt]
  by_cases hshort : (answerTail r).length ≤ maxTextBytes
  · rw [if_pos hshort, hacceptable.mpr hshort]
    change (if (captureFd r).any (fun file => !fileAcceptable (decodeU32 (answerBody r))
      (decodeU32 ((answerBody r).drop 8)).toNat file) then _ else
        ReadOne.mk (deliver relay requestId (answerBody r) (captureFd r)).1
          (deliver relay requestId (answerBody r) (captureFd r)).2 rest) = _
    rw [hfile, deliver_answer hs hids hw hr]
    rfl
  · have hrefused : headerAcceptable (answerOf requestId r).header (captureFd r) = false := by
      rw [← Bool.not_eq_true, hacceptable]
      exact hshort
    rw [if_neg hshort, hrefused]
    rfl

theorem length_answerTail (hr : Shape opcode r) :
    (answerTail r).length ≤ maxTextBytes ↔ r.tail.length ≤ maxTextBytes := by
  cases hr with
  | tail tail short => rfl
  | capture file length => simp [answerTail, captureFd]; decide
  | error status detail diagnostic failed valid =>
    have hmax : maxTextBytes = 4194304 := rfl
    have hlen : diagnostic.length < 1024 := valid.2
    simp only [answerTail, captureFd, tailOrDiagnostic, failed, if_false, Option.isSome_none,
      Bool.false_eq_true, List.length_nil]
    omega

/-- An answer whose tail passes the reader's limit breaks the channel. -/
theorem relayRead_long {frame : RelayFrame} (hs : relay.Sound) (hids : relay.nextRequestId ≤ 2 ^ 64)
    (hw : Waiting relay i opcode requestId) (ha : BackendAnswer requestId opcode frame r)
    (hlong : ¬ r.tail.length ≤ maxTextBytes) (rest : Bytes) :
    (readOne relay (frame.bytes ++ rest) frame.fd).ok = false ∧
      (relayRead relay (frame.bytes ++ rest) frame.fd).broken := by
  have hread := readOne_answer hs hids hw ha.shape rest
  rw [if_neg (mt (length_answerTail ha.shape).mp hlong)] at hread
  rw [ha.frame_eq]
  simp [relayRead, hread]

/-- An answer within the reader's limit is delivered. -/
theorem delivered_of_short {frame : RelayFrame} (hs : relay.Sound) (hids : relay.nextRequestId ≤ 2 ^ 64)
    (hw : Waiting relay i opcode requestId) (ha : BackendAnswer requestId opcode frame r)
    (hshort : r.tail.length ≤ maxTextBytes) : Delivered relay i frame r := by
  have hread : ∀ rest, readOne relay (frame.bytes ++ rest) frame.fd =
      ⟨true, relay.setSlot i (answeredSlot (relay.slot i) r), rest⟩ := by
    intro rest
    rw [ha.frame_eq]
    simpa [(length_answerTail ha.shape).mpr hshort] using readOne_answer hs hids hw ha.shape rest
  have hrelay' : ∀ rest, relayRead relay (frame.bytes ++ rest) frame.fd =
      relay.setSlot i (answeredSlot (relay.slot i) r) := by
    intro rest
    simp [relayRead, hread rest]
  have hi := (Slots.findIdx?_some (d := {}) (findIdx?_awaiting hs hids hw)).1
  have hslot : (relay.setSlot i (answeredSlot (relay.slot i) r)).slot i =
      answeredSlot (relay.slot i) r := by
    rw [slot_setSlot, if_pos ⟨rfl, hi⟩]
  refine ⟨?_, ?_, ?_, ?_⟩
  · intro rest
    rw [hread]
  · intro rest
    rw [hread]
  · intro rest
    rw [hrelay']
    rfl
  · intro rest labels later hrun hother
    rw [hrelay'] at hrun
    have hkept := RelayRun.slot_done hrun (by rw [hslot]; rfl) (by rw [hslot]; exact hw.active) hother
    simp only [relayFinish, hkept, hslot, slotAnswer_answeredSlot ha.shape, Option.getD_some]

/-- A backend's answer reaches its caller exactly when its tail is within the text limit,
which a framed text passes in its last four bytes. -/
theorem kwinRelayCall_delivered_iff {frame : RelayFrame} (hrelay : relay.Reachable)
    (hids : relay.nextRequestId ≤ 2 ^ 64) (hw : Waiting relay i opcode requestId)
    (ha : BackendAnswer requestId opcode frame r) :
    Delivered relay i frame r ↔ r.tail.length ≤ maxTextBytes := by
  have hs := hrelay.sound
  constructor
  · intro hd
    by_contra hlong
    have hok := hd.accepted []
    rw [(relayRead_long hs hids hw ha hlong []).1] at hok
    cases hok
  · exact delivered_of_short hs hids hw ha

end Answers

section Cases

/-- A fresh relay with one call in flight. -/
def oneWaiting (opcode : Opcode) : KwinRelay := relayStep kwinRelayCreate (.start opcode)

theorem oneWaiting_reachable (opcode : Opcode) : (oneWaiting opcode).Reachable :=
  ⟨[.start opcode], .single rfl⟩

theorem oneWaiting_waiting (opcode : Opcode) : Waiting (oneWaiting opcode) 0 opcode 1 :=
  ⟨rfl, rfl, rfl, rfl⟩

/-- A text of `n` letters, framed. -/
def lettersResult (n : ℕ) : OperationResult :=
  resultTakeFramedText ⟨List.replicate n 97, n, maxTextBytes⟩ Status.internal []

theorem lettersResult_answer {n : ℕ} (h : n ≤ maxTextBytes) :
    BackendAnswer 1 Op.windowList ⟨(answerOf 1 (lettersResult n)).bytes, captureFd (lettersResult n)⟩
      (lettersResult n) :=
  .worker (.text _ _ _ (by simpa using h)) (servePersistently_eq _ _)

/-- The longest text the writers admit is refused, and the channel breaks. -/
theorem longestText_breaks :
    BackendAnswer 1 Op.windowList
        ⟨(answerOf 1 (lettersResult maxTextBytes)).bytes, captureFd (lettersResult maxTextBytes)⟩
        (lettersResult maxTextBytes) ∧
      ¬ Delivered (oneWaiting Op.windowList) 0
        ⟨(answerOf 1 (lettersResult maxTextBytes)).bytes, captureFd (lettersResult maxTextBytes)⟩
        (lettersResult maxTextBytes) ∧
      (relayRead (oneWaiting Op.windowList) (answerOf 1 (lettersResult maxTextBytes)).bytes
        (captureFd (lettersResult maxTextBytes))).broken := by
  have hanswer := lettersResult_answer (n := maxTextBytes) le_rfl
  have hlong : ¬ (lettersResult maxTextBytes).tail.length ≤ maxTextBytes := by
    rw [lettersResult, resultTakeFramedText_eq (by simp)]
    simp [resultTake]
  have hbreak := relayRead_long (oneWaiting_reachable Op.windowList).sound (by decide)
    (oneWaiting_waiting Op.windowList) hanswer hlong []
  refine ⟨hanswer, ?_, ?_⟩
  · intro hd
    have hok := hd.accepted []
    rw [hbreak.1] at hok
    cases hok
  · simpa using hbreak.2

theorem shortText_delivered :
    Delivered (oneWaiting Op.windowList) 0
      ⟨(answerOf 1 (lettersResult 3)).bytes, captureFd (lettersResult 3)⟩ (lettersResult 3) :=
  (kwinRelayCall_delivered_iff (oneWaiting_reachable _) (by decide) (oneWaiting_waiting _)
    (lettersResult_answer (by decide))).mpr (by decide)

end Cases

end KeysharpDesktop
