import Mathlib.Data.List.TakeWhile
import KeysharpDesktop.Wire.Buffer
import KeysharpDesktop.Wire.Utf8

/-! The result of one desktop operation, and the framing of a text answer. -/
namespace KeysharpDesktop

namespace Status

def ok : Status := 0
def denied : Status := 1
def unsupported : Status := 2
def invalidRequest : Status := 3
def unavailable : Status := 4
def busy : Status := 5
def notFound : Status := 6
def resourceExhausted : Status := 7
def timeout : Status := 8
def cancelled : Status := 9
def revoked : Status := 10
def internal : Status := 255

end Status

/-- The room for a message in an error of the client interface. -/
def errorMessageCapacity : ℕ := 256

/-- An open file as `fstat` and `F_GET_SEALS` show it; `inode` says which one it is. -/
structure File where
  inode : ℕ
  size : ℕ
  regular : Bool
  seals : Option (BitVec 32)
  deriving DecidableEq, Repr

/-- Seal, shrink, grow and write. -/
def requiredSeals : BitVec 32 := 0x0f

def File.sealedOf (file : File) (length : ℕ) : Bool :=
  file.regular && file.size == length && file.seals.any fun seals => seals &&& requiredSeals == requiredSeals

/-- A capture answers with a sealed file in `payloadFd` and its length in `tailLength`;
every other answer has its bytes in `tail`. -/
structure OperationResult where
  status : Status
  detail : BitVec 32
  diagnostic : Bytes
  tail : Bytes
  tailLength : ℕ
  payloadFd : Option File
  deriving DecidableEq, Repr

/-- The longest valid prefix of at most `length` bytes. -/
def utf8Trim (bs : Bytes) : ℕ → ℕ
  | 0 => 0
  | length + 1 => if utf8Valid false (bs.take (length + 1)) then length + 1 else utf8Trim bs length

/-- What `strlen` sees of a region. -/
def cString (bs : Bytes) : Bytes := bs.takeWhile (· != 0)

def resultError (status : Status) (detail : BitVec 32) (diagnostic : Bytes) : OperationResult :=
  let text := cString diagnostic
  { status, detail, tail := [], tailLength := 0, payloadFd := none
    diagnostic := text.take (utf8Trim text (min text.length (diagnosticCapacity - 1))) }

def resultTake (tail : Bytes) : OperationResult :=
  ⟨Status.ok, 0, [], tail, tail.length, none⟩

def resultTakeFd (file : File) (tailLength : ℕ) : Option OperationResult :=
  if tailLength = 0 then none else some ⟨Status.ok, 0, [], [], tailLength, some file⟩

def bufferFrameText (b : Buffer) (maximumPayload : ℕ) : Option Buffer :=
  if maximumPayload < b.data.length ∨ 2 ^ 32 ≤ b.data.length then none
  else do
    let c ← bufferReserve { b with maximum := maximumPayload + 4 } 4
    some { c with data := encodeU32 (BitVec.ofNat 32 b.data.length) ++ b.data }

def resultTakeFramedText (b : Buffer) (failureStatus : Status) (diagnostic : Bytes) :
    OperationResult :=
  match bufferFrameText b maxTextBytes with
  | some c => resultTake c.data
  | none => resultError failureStatus 0 diagnostic

section Diagnostics

variable {bs : Bytes} {length : ℕ}

theorem utf8Trim_le (bs : Bytes) (length : ℕ) : utf8Trim bs length ≤ length := by
  induction length with
  | zero => rfl
  | succ length ih =>
    unfold utf8Trim
    split_ifs <;> omega

theorem utf8Trim_valid : utf8Valid false (bs.take (utf8Trim bs length)) := by
  induction length with
  | zero => rfl
  | succ length ih =>
    unfold utf8Trim
    split_ifs with h
    · exact h
    · exact ih

/-- No longer part that is valid is passed over. -/
theorem le_utf8Trim {n : ℕ} (h : utf8Valid false (bs.take n)) (hle : n ≤ length) : n ≤ utf8Trim bs length := by
  induction length with
  | zero => omega
  | succ length ih =>
    unfold utf8Trim
    split_ifs with hvalid
    · exact hle
    · apply ih
      by_contra hlt
      obtain rfl : n = length + 1 := by omega
      exact hvalid h

theorem utf8Trim_of_valid (h : utf8Valid false (bs.take length)) : utf8Trim bs length = length := by
  cases length with
  | zero => rfl
  | succ length => rw [utf8Trim, if_pos h]

theorem cString_of_valid (h : utf8Valid false bs) : cString bs = bs := by
  rw [cString, List.takeWhile_eq_self_iff]
  intro b hb
  rw [bne_iff_ne]
  rintro rfl
  exact utf8Valid_not_mem_zero h hb

/-- What every diagnostic is: valid text that leaves room for its terminator. -/
def DiagnosticOk (bs : Bytes) : Prop := utf8Valid false bs ∧ bs.length < diagnosticCapacity

instance (bs : Bytes) : Decidable (DiagnosticOk bs) :=
  inferInstanceAs (Decidable (_ ∧ _))

theorem resultError_diagnosticOk (status : Status) (detail : BitVec 32) (diagnostic : Bytes) :
    DiagnosticOk (resultError status detail diagnostic).diagnostic := by
  refine ⟨utf8Trim_valid, ?_⟩
  have hle := utf8Trim_le (cString diagnostic)
    (min (cString diagnostic).length (diagnosticCapacity - 1))
  simp only [resultError, List.length_take, diagnosticCapacity] at hle ⊢
  omega

/-- An error keeps a diagnostic that another error already holds. -/
theorem resultError_diagnostic (h : DiagnosticOk bs) (status : Status) (detail : BitVec 32) :
    resultError status detail bs = ⟨status, detail, bs, [], 0, none⟩ := by
  obtain ⟨hv, hl⟩ := h
  have hmin : min bs.length (diagnosticCapacity - 1) = bs.length := by
    unfold diagnosticCapacity at hl ⊢
    omega
  have htrim : utf8Trim bs bs.length = bs.length := utf8Trim_of_valid (by rwa [List.take_length])
  simp only [resultError, cString_of_valid hv, hmin, htrim, List.take_length]

end Diagnostics

/-- Framing a text puts its length in front of it. -/
theorem bufferFrameText_eq {b : Buffer} (h : b.data.length ≤ maxTextBytes) :
    ∃ c, bufferFrameText b maxTextBytes = some c ∧
      c.data = encodeU32 (BitVec.ofNat 32 b.data.length) ++ b.data := by
  have hmax : maxTextBytes < 2 ^ 32 := by decide
  have hroom : (bufferReserve { b with maximum := maxTextBytes + 4 } 4).isSome := by
    rw [bufferReserve_isSome]
    dsimp only
    omega
  obtain ⟨c, hc⟩ := Option.isSome_iff_exists.mp hroom
  refine ⟨{ c with data := encodeU32 (BitVec.ofNat 32 b.data.length) ++ b.data }, ?_, rfl⟩
  rw [bufferFrameText, if_neg (by omega), hc]
  rfl

theorem resultTakeFramedText_eq {b : Buffer} (h : b.data.length ≤ maxTextBytes)
    (failureStatus : Status) (diagnostic : Bytes) :
    resultTakeFramedText b failureStatus diagnostic =
      resultTake (encodeU32 (BitVec.ofNat 32 b.data.length) ++ b.data) := by
  obtain ⟨c, hc, hd⟩ := bufferFrameText_eq h
  rw [resultTakeFramedText, hc, ← hd]

end KeysharpDesktop
