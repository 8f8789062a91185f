import KeysharpDesktop.State.Record
import KeysharpDesktop.Wire.Frame
import KeysharpDesktop.Wire.Result

/-! The authority's responses: one frame for a status, with a message where it failed and with the
data of the result where it did not. -/
namespace KeysharpDesktop

/-- How much of a message is sent. The client's room for it is fixed, so a longer one is cut at a
character. -/
def diagnosticLength (text : Bytes) : ℕ :=
  utf8Trim text (if errorMessageCapacity ≤ text.length then errorMessageCapacity - 1 else text.length)

def bufferDiagnostic (b : Buffer) (text : Bytes) : Option Buffer := do
  let b ← bufferU32 b (BitVec.ofNat 32 (diagnosticLength text))
  bufferBytes b (text.take (diagnosticLength text))

def buildResponse (request : Frame) (status : Status) (detail : BitVec 32) (diagnostic : Option Bytes)
    (tail : Bytes) (more : Bool) : Option Frame :=
  let text := cString (diagnostic.getD [])
  if request.requestId == 0 || (status == Status.ok && diagnosticLength text != 0) then none
  else do
    let b ← bufferU32 (bufferInit (maxCaptureBytes + 64)) status
    let b ← bufferU32 b detail
    let b ← if status != Status.ok && diagnostic.isSome then bufferDiagnostic b text else some b
    let b ← if status == Status.ok then bufferBytes b tail else some b
    if 2 ^ 32 ≤ b.data.length then none
    else some ⟨frameMagic, protocolMajor, protocolMinor, request.opcode,
      flagResponse ||| (if more then flagMore else 0), request.requestId, b.data⟩

/-- A window operation that succeeds has the number of the state that shows it behind its data. -/
def forwardResponse (request : Frame) (status : Status) (detail : BitVec 32) (diagnostic : Option Bytes)
    (tail : Bytes) (effectiveSequence : BitVec 64) (more : Bool) : Option Frame :=
  if status == Status.ok && stateMutatesWindows request.opcode then do
    let b ← bufferBytes (bufferInit (maxCaptureBytes + 64)) tail
    let b ← bufferU64 b effectiveSequence
    buildResponse request status detail diagnostic b.data more
  else buildResponse request status detail diagnostic tail more

/-- The answer of `execute_operation` from the result of a backend. -/
def resultResponse (request : Frame) (result : OperationResult) (effectiveSequence : BitVec 64) : Option Frame :=
  forwardResponse request result.status result.detail
    (if result.status == Status.ok || result.diagnostic.isEmpty then none else some result.diagnostic)
    result.tail effectiveSequence false

section Payload

variable {request : Frame} {status : Status} {diagnostic : Option Bytes} {tail : Bytes}

/-- The frame of a response with a given payload. -/
def responseFrame (request : Frame) (more : Bool) (payload : Bytes) : Frame :=
  ⟨frameMagic, protocolMajor, protocolMinor, request.opcode, flagResponse ||| (if more then flagMore else 0),
    request.requestId, payload⟩

/-- The message of a failure, with its length in front. -/
def messageBytes (diagnostic : Option Bytes) : Bytes :=
  match diagnostic with
  | none => []
  | some text =>
    encodeU32 (BitVec.ofNat 32 (diagnosticLength (cString text))) ++
      (cString text).take (diagnosticLength (cString text))

theorem diagnosticLength_lt (text : Bytes) : diagnosticLength text < errorMessageCapacity := by
  unfold diagnosticLength
  split_ifs with hlong
  · have hle := utf8Trim_le text (errorMessageCapacity - 1)
    simp only [errorMessageCapacity] at hle ⊢
    omega
  · have hle := utf8Trim_le text text.length
    omega

theorem diagnosticLength_le (text : Bytes) : diagnosticLength text ≤ text.length := by
  unfold diagnosticLength
  split_ifs with hlong
  · have hle := utf8Trim_le text (errorMessageCapacity - 1)
    omega
  · exact utf8Trim_le text text.length

theorem length_messageBytes_le (diagnostic : Option Bytes) :
    (messageBytes diagnostic).length ≤ 3 + errorMessageCapacity := by
  cases diagnostic with
  | none => exact Nat.zero_le _
  | some text =>
    have hlt := diagnosticLength_lt (cString text)
    rw [messageBytes, List.length_append, length_encodeU32, List.length_take]
    omega

theorem buildResponse_ok (hid : request.requestId ≠ 0) (detail : BitVec 32) (more : Bool)
    (hfits : 8 + tail.length ≤ maxCaptureBytes + 64) :
    buildResponse request Status.ok detail none tail more =
      some (responseFrame request more (encodeU32 Status.ok ++ (encodeU32 detail ++ tail))) := by
  have hmax : maxCaptureBytes + 64 < 2 ^ 32 := by decide
  obtain ⟨b, hb, hdata, -⟩ := ((bufferU32_writes Status.ok).bind <| (bufferU32_writes detail).bind
    (bufferBytes_writes tail)).exists_of_fits (b := bufferInit (maxCaptureBytes + 64)) (by
      simp only [bufferInit, List.length_nil, List.length_append, length_encodeU32]
      omega)
  have hlength : ¬2 ^ 32 ≤ b.data.length := by
    rw [hdata]
    simp only [bufferInit, List.nil_append, List.length_append, length_encodeU32]
    omega
  obtain ⟨b₁, hb₁, hrest⟩ := Option.bind_eq_some_iff.mp hb
  obtain ⟨b₂, hb₂, hb₃⟩ := Option.bind_eq_some_iff.mp hrest
  have hempty : diagnosticLength (cString []) = 0 := rfl
  simp only [buildResponse, Option.getD_none, hempty, hid, beq_iff_eq, bne_self_eq_false, Bool.and_false,
    Bool.or_false, if_false, hb₁, hb₂, hb₃, Option.bind_eq_bind, Option.bind_some, Option.isSome_none,
    Bool.false_eq_true, BEq.rfl, if_true, if_neg hlength]
  rw [hdata]
  rfl

theorem bufferMessage_writes (diagnostic : Option Bytes) :
    Writes (fun b => if diagnostic.isSome then bufferDiagnostic b (cString (diagnostic.getD [])) else some b)
      (messageBytes diagnostic) := by
  cases diagnostic with
  | none => exact Writes.skip
  | some text => exact (bufferU32_writes _).bind (bufferBytes_writes _)

theorem buildResponse_error (hid : request.requestId ≠ 0) (hstatus : status ≠ Status.ok) (detail : BitVec 32)
    (more : Bool) :
    buildResponse request status detail diagnostic tail more =
      some (responseFrame request more (encodeU32 status ++ (encodeU32 detail ++ messageBytes diagnostic))) := by
  have hmessage := length_messageBytes_le diagnostic
  have hroom : 8 + (3 + errorMessageCapacity) ≤ maxCaptureBytes + 64 ∧ maxCaptureBytes + 64 < 2 ^ 32 := by decide
  obtain ⟨b, hb, hdata, -⟩ := ((bufferU32_writes status).bind <| (bufferU32_writes detail).bind
    (bufferMessage_writes diagnostic)).exists_of_fits (b := bufferInit (maxCaptureBytes + 64)) (by
      simp only [bufferInit, List.length_nil, List.length_append, length_encodeU32]
      omega)
  have hlength : ¬2 ^ 32 ≤ b.data.length := by
    rw [hdata]
    simp only [bufferInit, List.nil_append, List.length_append, length_encodeU32]
    omega
  obtain ⟨b₁, hb₁, hrest⟩ := Option.bind_eq_some_iff.mp hb
  obtain ⟨b₂, hb₂, hb₃⟩ := Option.bind_eq_some_iff.mp hrest
  have hne : (status == Status.ok) = false := beq_false_of_ne hstatus
  simp only [buildResponse, hne, bne, hid, beq_iff_eq, Bool.false_and, Bool.or_false, Bool.not_false, Bool.true_and,
    if_false, hb₁, hb₂, Option.bind_eq_bind, Option.bind_some, Bool.false_eq_true]
  cases diagnostic with
  | none =>
    obtain rfl : b₂ = b := Option.some.inj hb₃
    simp only [Option.isSome_none, Bool.false_eq_true, if_false, if_neg hlength]
    rw [hdata]
    rfl
  | some text =>
    simp only [Option.isSome_some, if_true] at hb₃ ⊢
    simp only [hb₃, Option.bind_some, if_neg hlength]
    rw [hdata]
    rfl

/-- The data of a result as it is sent: with the sequence behind it for an operation on windows. -/
def sequencedTail (opcode : Opcode) (tail : Bytes) (effectiveSequence : BitVec 64) : Bytes :=
  if stateMutatesWindows opcode then tail ++ encodeU64 effectiveSequence else tail

theorem forwardResponse_ok (hid : request.requestId ≠ 0) (detail : BitVec 32) (effectiveSequence : BitVec 64)
    (more : Bool) (hfits : 8 + (sequencedTail request.opcode tail effectiveSequence).length ≤ maxCaptureBytes + 64) :
    forwardResponse request Status.ok detail none tail effectiveSequence more =
      some (responseFrame request more
        (encodeU32 Status.ok ++ (encodeU32 detail ++ sequencedTail request.opcode tail effectiveSequence))) := by
  unfold forwardResponse
  unfold sequencedTail at hfits ⊢
  by_cases hmutates : stateMutatesWindows request.opcode
  · rw [if_pos hmutates] at hfits ⊢
    obtain ⟨b, hb, hdata, -⟩ := ((bufferBytes_writes tail).bind (bufferU64_writes effectiveSequence)).exists_of_fits
      (b := bufferInit (maxCaptureBytes + 64)) (by
        rw [List.length_append] at hfits ⊢
        simp only [bufferInit, List.length_nil]
        omega)
    obtain ⟨b₁, hb₁, hb₂⟩ := Option.bind_eq_some_iff.mp hb
    simp only [BEq.rfl, hmutates, Bool.and_self, if_true, hb₁, hb₂, Option.bind_eq_bind, Option.bind_some]
    rw [hdata]
    exact buildResponse_ok hid detail more hfits
  · rw [if_neg hmutates] at hfits ⊢
    simp only [hmutates, Bool.and_false, Bool.false_eq_true, if_false]
    exact buildResponse_ok hid detail more hfits

theorem forwardResponse_error (hid : request.requestId ≠ 0) (hstatus : status ≠ Status.ok) (detail : BitVec 32)
    (effectiveSequence : BitVec 64) (more : Bool) :
    forwardResponse request status detail diagnostic tail effectiveSequence more =
      some (responseFrame request more (encodeU32 status ++ (encodeU32 detail ++ messageBytes diagnostic))) := by
  have hne : (status == Status.ok) = false := beq_false_of_ne hstatus
  simp only [forwardResponse, hne, Bool.false_and, Bool.false_eq_true, if_false]
  exact buildResponse_error hid hstatus detail more

end Payload

end KeysharpDesktop
