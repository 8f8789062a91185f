import KeysharpDesktop.Wire.Frame
import KeysharpDesktop.Wire.Result

/-! The two writers of relay answers: the display worker, which answers from an operation
result, and the KWin daemon, which answers from a script's reply. -/
namespace KeysharpDesktop

def relayCaptureFd : BitVec 16 := 0x8000

/-- A frame as it leaves a writer, with the descriptor that travels beside it. -/
structure RelayFrame where
  bytes : Bytes
  fd : Option File
  deriving DecidableEq, Repr

def answerFrame (flags : BitVec 16) (requestId : BitVec 64) (payload : Bytes) : Frame :=
  ⟨frameMagic, protocolMajor, protocolMinor, 0, flags, requestId, payload⟩

/-- The descriptor an answer carries; an error carries none. -/
def captureFd (result : OperationResult) : Option File :=
  if result.status = Status.ok then result.payloadFd else none

/-- An error has no tail, so its diagnostic travels in that place. -/
def tailOrDiagnostic (result : OperationResult) : Bytes :=
  if result.status = Status.ok then result.tail else result.diagnostic

/-- An empty tail is not written at all. -/
def bufferUnlessEmpty (b : Buffer) (tail : Bytes) : Option Buffer :=
  if tail = [] then some b else bufferBytes b tail

/-- The answering half of the loop in `serve_persistently`. -/
def servePersistently (requestId : BitVec 64) (result : OperationResult) : Option RelayFrame := do
  let capture := (captureFd result).isSome
  let tail := tailOrDiagnostic result
  let payload ← bufferU32 (bufferInit (if capture then 12 else tail.length + 8)) result.status
  let payload ← bufferU32 payload result.detail
  let payload ← if capture then bufferU32 payload (BitVec.ofNat 32 result.tailLength)
    else bufferUnlessEmpty payload tail
  let flags := if capture then relayCaptureFd else 0
  let packed ← framePack (answerFrame flags requestId payload.data)
    (bufferInit (payload.data.length + frameHeaderSize + 16))
  some ⟨packed.data, captureFd result⟩

def isSpace (b : UInt8) : Bool := b == 32 || (9 ≤ b && b ≤ 13)

def isDigit (b : UInt8) : Bool := 48 ≤ b && b ≤ 57

/-- What holds of the ten digits holds of every byte that is one. -/
theorem forall_digit {p : UInt8 → Prop} (h : ∀ b ∈ [48, 49, 50, 51, 52, 53, 54, 55, 56, 57], p b) (b : UInt8)
    (hb : isDigit b) : p b := by
  apply h
  revert hb
  refine forall_byte (p := fun b => isDigit b → b ∈ [48, 49, 50, 51, 52, 53, 54, 55, 56, 57]) ?_ b
  decide +kernel

def digitsValue (ds : Bytes) : ℕ := ds.foldl (fun v d => v * 10 + (d.toNat - 48)) 0

/-- The `%lld` conversion. -/
def scanNumber (text : Bytes) : Option (ℤ × Bytes) :=
  let text := text.dropWhile isSpace
  let negative := text.head? = some 45
  let text := if text.head? = some 45 ∨ text.head? = some 43 then text.tail else text
  let digits := text.takeWhile isDigit
  if digits = [] then none
  else some (if negative then -(digitsValue digits : ℤ) else digitsValue digits, text.dropWhile isDigit)

/-- Ordinary characters of a `sscanf` format match themselves. -/
def scanLiteral (literal text : Bytes) : Option Bytes :=
  if literal.isPrefixOf text then some (text.drop literal.length) else none

def isInt32 (v : ℤ) : Bool := -2 ^ 31 ≤ v && v < 2 ^ 31

def keyX : Bytes := ascii "\x7b\"x\":"
def keyY : Bytes := ascii ",\"y\":"
def keyWidth : Bytes := ascii ",\"width\":"
def keyHeight : Bytes := ascii ",\"height\":"

def parsePoint (body : Bytes) : Option (ℤ × ℤ) :=
  if body.length = 0 ∨ 128 ≤ body.length then none
  else do
    let (x, text) ← scanLiteral keyX body >>= scanNumber
    let (y, text) ← scanLiteral keyY text >>= scanNumber
    let text ← scanLiteral (ascii "\x7d") text
    if text ≠ [] ∨ ¬isInt32 x ∨ ¬isInt32 y then none else some (x, y)

def parseArea (body : Bytes) : Option (ℤ × ℤ × ℤ × ℤ) :=
  if body.length = 0 ∨ 192 ≤ body.length then none
  else do
    let (x, text) ← scanLiteral keyX body >>= scanNumber
    let (y, text) ← scanLiteral keyY text >>= scanNumber
    let (width, text) ← scanLiteral keyWidth text >>= scanNumber
    let (height, text) ← scanLiteral keyHeight text >>= scanNumber
    let text ← scanLiteral (ascii "\x7d") text
    if text ≠ [] ∨ ¬isInt32 x ∨ ¬isInt32 y ∨ width ≤ 0 ∨ ¬isInt32 width ∨ height ≤ 0 ∨
      ¬isInt32 height then none
    else some (x, y, width, height)

def isTextAnswer (opcode : Opcode) : Bool :=
  opcode ∈ [Op.windowList, Op.windowHandles, Op.windowActive, Op.windowQuery]

def isEmptyAnswer (opcode : Opcode) : Bool :=
  opcode ∈ [Op.windowFocus, Op.windowRaise, Op.windowLower, Op.windowClose, Op.windowMoveResize,
    Op.windowSetState, Op.windowSetOpacity, Op.windowSetAbove, Op.windowSetDecorated,
    Op.windowSetSkipTaskbar]

def kwinResponsePayload (opcode : Opcode) (body : Bytes) (payload : Buffer) : Option Buffer :=
  if isTextAnswer opcode then
    if body.length ≤ maxTextBytes ∧ utf8Valid false body then do
      let payload ← bufferU32 payload (BitVec.ofNat 32 body.length)
      bufferBytes payload body
    else none
  else if opcode = Op.cursorPosition then do
    let (x, y) ← parsePoint body
    let payload ← bufferU32 payload (BitVec.ofInt 32 x)
    bufferU32 payload (BitVec.ofInt 32 y)
  else if opcode = Op.workArea then do
    let (x, y, width, height) ← parseArea body
    let payload ← bufferU32 payload (BitVec.ofInt 32 x)
    let payload ← bufferU32 payload (BitVec.ofInt 32 y)
    let payload ← bufferU32 payload (BitVec.ofInt 32 width)
    bufferU32 payload (BitVec.ofInt 32 height)
  else if isEmptyAnswer opcode ∧ body = [] then some payload
  else none

/-- The frame of `relay_answer`, once the reply is translated. -/
def relayFrame (requestId : BitVec 64) (status : Status) (translated : Bytes) :
    Option RelayFrame := do
  let payload ← bufferU32 (bufferInit (translated.length + 8)) status
  let payload ← bufferU32 payload 0
  let payload ← bufferUnlessEmpty payload (if status = Status.ok then translated else [])
  let packed ← framePack (answerFrame 0 requestId payload.data)
    (bufferInit (frameHeaderSize + payload.data.length + 16))
  some ⟨packed.data, none⟩

/-- A reply that does not translate is answered as an internal error. -/
def relayAnswer (requestId : BitVec 64) (opcode : Opcode) (status : Status) (body : Bytes) :
    Option RelayFrame :=
  if status = Status.ok then
    match kwinResponsePayload opcode body (bufferInit (maxTextBytes + 4)) with
    | some translated => relayFrame requestId status translated.data
    | none => relayFrame requestId Status.internal []
  else relayFrame requestId status []

section Shape

/-- What follows the prologue: a file's length, a tail, or the text of an error. -/
def answerTail (result : OperationResult) : Bytes :=
  if (captureFd result).isSome then encodeU32 (BitVec.ofNat 32 result.tailLength)
  else tailOrDiagnostic result

def answerBody (result : OperationResult) : Bytes :=
  encodeU32 result.status ++ (encodeU32 result.detail ++ answerTail result)

def answerOf (requestId : BitVec 64) (result : OperationResult) : Frame :=
  answerFrame (if (captureFd result).isSome then relayCaptureFd else 0) requestId (answerBody result)

theorem framePack_answerFrame (flags : BitVec 16) (requestId : BitVec 64) (payload : Bytes) {n : ℕ}
    (hroom : frameHeaderSize + payload.length ≤ n) :
    ∃ packed, framePack (answerFrame flags requestId payload) (bufferInit n) = some packed ∧
      packed.data = (answerFrame flags requestId payload).bytes := by
  have hlen : (answerFrame flags requestId payload).bytes.length ≤ n := by
    rw [Frame.bytes, List.length_append, length_encodeFrameHeader rfl]
    exact hroom
  obtain ⟨packed, hpack, hdata, -⟩ :=
    (framePack_writes (answerFrame flags requestId payload)).exists_of_fits
      (b := bufferInit n) (by simpa [bufferInit] using hlen)
  exact ⟨packed, hpack, hdata⟩

/-- The prologue fits the room that both writers set aside for it. -/
theorem prologue_fits (status detail : BitVec 32) (room : ℕ) :
    ∃ b c, bufferU32 (bufferInit (room + 8)) status = some b ∧ bufferU32 b detail = some c ∧
      c.data = encodeU32 status ++ encodeU32 detail ∧ c.maximum = room + 8 := by
  obtain ⟨b, hb, hbd, hbm⟩ := (bufferU32_writes status).exists_of_fits (b := bufferInit (room + 8))
    (by simp only [bufferInit, List.length_nil, length_encodeU32]; omega)
  have hlen : b.data.length = 4 := by simp [hbd, bufferInit]
  obtain ⟨c, hc, hcd, hcm⟩ := (bufferU32_writes detail).exists_of_fits (b := b)
    (by rw [hlen, length_encodeU32, hbm]; simp [bufferInit])
  exact ⟨b, c, hb, hc, by simp [hcd, hbd, bufferInit], by rw [hcm, hbm]; rfl⟩

theorem bufferUnlessEmpty_writes (tail : Bytes) : Writes (bufferUnlessEmpty · tail) tail := by
  unfold bufferUnlessEmpty
  by_cases ht : tail = []
  · subst ht
    exact Writes.skip
  · simpa only [ht, if_false] using bufferBytes_writes tail

/-- Every result is answered, with its frame and its descriptor. -/
theorem servePersistently_eq (requestId : BitVec 64) (result : OperationResult) :
    servePersistently requestId result =
      some ⟨(answerOf requestId result).bytes, captureFd result⟩ := by
  unfold servePersistently answerOf answerBody answerTail
  by_cases hfd : (captureFd result).isSome
  · obtain ⟨b, c, hb, hc, hcd, hcm⟩ := prologue_fits result.status result.detail 4
    obtain ⟨d, hd, hdd, -⟩ := (bufferU32_writes (BitVec.ofNat 32 result.tailLength)).exists_of_fits
      (b := c) (by rw [hcd, hcm]; simp)
    obtain ⟨packed, hp, hpd⟩ := framePack_answerFrame relayCaptureFd requestId d.data
      (n := d.data.length + frameHeaderSize + 16) (by omega)
    simp only [hfd, if_true, hb, hc, hd, hp, Option.bind_eq_bind, Option.bind_some, hpd]
    rw [hdd, hcd, List.append_assoc]
  · obtain ⟨b, c, hb, hc, hcd, hcm⟩ :=
      prologue_fits result.status result.detail (tailOrDiagnostic result).length
    obtain ⟨d, hd, hdd, -⟩ := (bufferUnlessEmpty_writes (tailOrDiagnostic result)).exists_of_fits
      (b := c) (by rw [hcd, hcm]; simp; omega)
    obtain ⟨packed, hp, hpd⟩ := framePack_answerFrame 0 requestId d.data
      (n := d.data.length + frameHeaderSize + 16) (by omega)
    simp only [hfd, Bool.false_eq_true, if_false, hb, hc, hd, hp, Option.bind_eq_bind,
      Option.bind_some, hpd]
    rw [hdd, hcd, List.append_assoc]

/-- What a KWin reply means as a result: its translation, or an error without a text. -/
def kwinResult (opcode : Opcode) (status : Status) (body : Bytes) : OperationResult :=
  if status = Status.ok then
    match kwinResponsePayload opcode body (bufferInit (maxTextBytes + 4)) with
    | some translated => resultTake translated.data
    | none => resultError Status.internal 0 []
  else resultError status 0 []

@[simp] theorem resultError_status (status : Status) (detail : BitVec 32) (diagnostic : Bytes) :
    (resultError status detail diagnostic).status = status := rfl

@[simp] theorem resultError_detail (status : Status) (detail : BitVec 32) (diagnostic : Bytes) :
    (resultError status detail diagnostic).detail = detail := rfl

@[simp] theorem resultError_nil (status : Status) (detail : BitVec 32) :
    (resultError status detail []).diagnostic = [] := rfl

theorem relayFrame_eq {status : Status} {translated : Bytes}
    (h : status ≠ Status.ok → translated = []) (requestId : BitVec 64) :
    relayFrame requestId status translated =
      some ⟨(answerFrame 0 requestId (encodeU32 status ++ (encodeU32 0 ++ translated))).bytes, none⟩ := by
  obtain ⟨b, c, hb, hc, hcd, hcm⟩ := prologue_fits status 0 translated.length
  have htail : (if status = Status.ok then translated else []) = translated := by
    split_ifs with hs
    · rfl
    · exact (h hs).symm
  obtain ⟨d, hd, hdd, -⟩ := (bufferUnlessEmpty_writes translated).exists_of_fits (b := c)
    (by rw [hcd, hcm]; simp; omega)
  obtain ⟨packed, hp, hpd⟩ := framePack_answerFrame 0 requestId d.data
    (n := frameHeaderSize + d.data.length + 16) (by omega)
  simp only [relayFrame, hb, hc, htail, hd, hp, Option.bind_eq_bind, Option.bind_some, hpd]
  rw [hdd, hcd, List.append_assoc]

/-- The daemon writes the frame that the worker writes for the same result. -/
theorem relayAnswer_eq (requestId : BitVec 64) (opcode : Opcode) (status : Status) (body : Bytes) :
    relayAnswer requestId opcode status body =
      servePersistently requestId (kwinResult opcode status body) := by
  rw [servePersistently_eq]
  unfold relayAnswer kwinResult
  split_ifs with hs
  · split
    · rw [relayFrame_eq (fun hne => absurd hs hne), hs]
      rfl
    · rw [relayFrame_eq (fun _ => rfl)]
      rfl
  · rw [relayFrame_eq (fun _ => rfl)]
    simp [answerOf, answerBody, answerTail, captureFd, tailOrDiagnostic, hs]

end Shape

end KeysharpDesktop
