import Mathlib.Data.Bool.AllAny
import KeysharpDesktop.Kwin.Answer
import KeysharpDesktop.Kwin.Jobs

/-! Requests as text: the decimal conversions of `snprintf` and the body a job carries to the
script. -/
namespace KeysharpDesktop

/-- The `%u` and `%llu` conversions. -/
def decimalText (value : ℕ) : Bytes :=
  if value = 0 then ascii "0" else (decimalReversed value value).reverse

/-- The `%d` conversion. -/
def signedText (value : ℤ) : Bytes :=
  if value < 0 then ascii "-" ++ decimalText value.natAbs else decimalText value.natAbs

section Decimal

variable {value m n : ℕ}

/-- More turns than a value has digits change nothing. -/
theorem decimalReversed_eq (hm : value < 10 ^ m) (hn : value < 10 ^ n) :
    decimalReversed m value = decimalReversed n value := by
  induction m generalizing n value with
  | zero =>
    have hzero : value = 0 := by omega
    cases n <;> simp [decimalReversed, hzero]
  | succ m ih =>
    cases n with
    | zero =>
      have hzero : value = 0 := by omega
      simp [decimalReversed, hzero]
    | succ n =>
      have hm' : value / 10 < 10 ^ m := Nat.div_lt_of_lt_mul (by rwa [Nat.pow_succ, Nat.mul_comm] at hm)
      have hn' : value / 10 < 10 ^ n := Nat.div_lt_of_lt_mul (by rwa [Nat.pow_succ, Nat.mul_comm] at hn)
      simp only [decimalReversed, ih hm' hn']

theorem decimalReversed_all (turns value : ℕ) : ∀ b ∈ decimalReversed turns value, isDigit b := by
  induction turns generalizing value with
  | zero => simp [decimalReversed]
  | succ turns ih =>
    intro b hb
    unfold decimalReversed at hb
    split_ifs at hb
    · simp at hb
    · rcases List.mem_cons.mp hb with rfl | hb
      · have hdigit : ∀ d < 10, isDigit (UInt8.ofNat (48 + d)) := by decide
        exact hdigit _ (Nat.mod_lt _ (by omega))
      · exact ih _ b hb

theorem length_decimalReversed (turns value : ℕ) : (decimalReversed turns value).length ≤ turns := by
  induction turns generalizing value with
  | zero => simp [decimalReversed]
  | succ turns ih =>
    unfold decimalReversed
    split_ifs
    · simp
    · have := ih (value / 10)
      simp only [List.length_cons]
      omega

theorem decimalReversed_value (h : value < 10 ^ m) :
    (decimalReversed m value).foldr (fun d v => v * 10 + (d.toNat - 48)) 0 = value := by
  induction m generalizing value with
  | zero =>
    have hzero : value = 0 := by omega
    simp [decimalReversed, hzero]
  | succ m ih =>
    unfold decimalReversed
    split_ifs with hzero
    · simp [hzero]
    · have hm : value / 10 < 10 ^ m := Nat.div_lt_of_lt_mul (by rwa [Nat.pow_succ, Nat.mul_comm] at h)
      have hdigit : ∀ d < 10, (UInt8.ofNat (48 + d)).toNat - 48 = d := by decide
      have hlast := hdigit (value % 10) (Nat.mod_lt _ (by omega))
      rw [List.foldr_cons, ih hm, hlast]
      omega

theorem lt_ten_pow (value : ℕ) : value < 10 ^ value := Nat.lt_pow_self (by omega)

theorem decimalText_eq (hm : value < 10 ^ m) :
    decimalText value = if value = 0 then ascii "0" else (decimalReversed m value).reverse := by
  rw [decimalText, decimalReversed_eq (lt_ten_pow value) hm]

/-- Decimal text is digits. -/
theorem decimalText_all (value : ℕ) : ∀ b ∈ decimalText value, isDigit b := by
  intro b hb
  unfold decimalText at hb
  split_ifs at hb
  · have hzero : ∀ b ∈ ascii "0", isDigit b := List.all_iff_forall_prop.mp (by decide)
    exact hzero b hb
  · exact decimalReversed_all _ _ b (List.mem_reverse.mp hb)

/-- Decimal text reads back as its value. -/
theorem digitsValue_decimalText (value : ℕ) : digitsValue (decimalText value) = value := by
  unfold decimalText
  split_ifs with hzero
  · rw [hzero]
    decide
  · rw [digitsValue, List.foldl_reverse]
    exact decimalReversed_value (lt_ten_pow value)

theorem decimalText_ne_nil (value : ℕ) : decimalText value ≠ [] := by
  unfold decimalText
  split_ifs with hzero
  · decide
  · intro hnil
    have hrev := List.reverse_eq_nil_iff.mp hnil
    have hval := decimalReversed_value (lt_ten_pow value)
    rw [hrev] at hval
    exact hzero hval.symm

theorem length_decimalText (hm : value < 10 ^ m) (hpos : 0 < m) : (decimalText value).length ≤ m := by
  rw [decimalText_eq hm]
  split_ifs
  · exact hpos
  · rw [List.length_reverse]
    exact length_decimalReversed m value

/-- What `append_decimal` appends. -/
theorem appendDecimal_writes (value : BitVec 32) :
    Writes (appendDecimal · value) (decimalText value.toNat) := by
  have hlt : value.toNat < 10 ^ 16 := Nat.lt_trans value.isLt (by norm_num)
  have hzero : value = 0 ↔ value.toNat = 0 := by
    constructor
    · rintro rfl
      rfl
    · exact fun h => BitVec.eq_of_toNat_eq h
  have heq : ∀ out, appendDecimal out value = bufferBytes out (decimalText value.toNat) := by
    intro out
    rw [decimalText_eq hlt, appendDecimal]
    by_cases h : value = 0
    · rw [if_pos h, if_pos (hzero.mp h)]
    · rw [if_neg h, if_neg (fun h' => h (hzero.mpr h'))]
  simp only [heq]
  exact bufferBytes_writes _

end Decimal

def takesNothing (opcode : Opcode) : Bool :=
  opcode ∈ [Op.windowHandles, Op.windowActive, Op.cursorPosition, Op.workArea]

def takesHandle (opcode : Opcode) : Bool :=
  opcode ∈ [Op.windowQuery, Op.windowFocus, Op.windowRaise, Op.windowLower, Op.windowClose]

def takesValue (opcode : Opcode) : Bool :=
  opcode ∈ [Op.windowSetState, Op.windowSetOpacity, Op.windowSetAbove, Op.windowSetDecorated,
    Op.windowSetSkipTaskbar]

/-- The largest value a setter accepts. -/
def valueMaximum (opcode : Opcode) : ℕ :=
  if opcode = Op.windowSetOpacity then 255 else if opcode = Op.windowSetState then 3 else 1

/-- What `snprintf` writes for a request, before its length is checked. -/
def requestFormat (opcode : Opcode) (payload : Bytes) : Option Bytes :=
  if opcode = Op.windowList then
    if payload.length ≠ 8 ∨ 1 < (decodeU32 payload).toNat ∨ decodeU32 (payload.drop 4) ≠ 0 then none
    else some (decimalText (decodeU32 payload).toNat)
  else if takesHandle opcode then
    if payload.length ≠ 8 ∨ decodeU64 payload = 0 then none
    else some (decimalText (decodeU64 payload).toNat)
  else if opcode = Op.windowMoveResize then
    if payload.length ≠ 24 ∨ decodeU64 payload = 0 then none
    else some (decimalText (decodeU64 payload).toNat ++ ascii " " ++
      signedText (decodeU32 (payload.drop 8)).toInt ++ ascii " " ++
      signedText (decodeU32 (payload.drop 12)).toInt ++ ascii " " ++
      decimalText (decodeU32 (payload.drop 16)).toNat ++ ascii " " ++
      decimalText (decodeU32 (payload.drop 20)).toNat)
  else if takesValue opcode then
    if payload.length ≠ 16 ∨ decodeU64 payload = 0 ∨ decodeU32 (payload.drop 12) ≠ 0 then none
    else if valueMaximum opcode < (decodeU32 (payload.drop 8)).toNat then none
    else some (decimalText (decodeU64 payload).toNat ++ ascii " " ++
      decimalText (decodeU32 (payload.drop 8)).toNat)
  else none

def kwinRequestText (opcode : Opcode) (payload : Bytes) (capacity : ℕ) : Option Bytes :=
  if capacity = 0 then none
  else if takesNothing opcode then if payload = [] then some [] else none
  else do
    let text ← requestFormat opcode payload
    if capacity ≤ text.length then none else some text

/-- The buffer `relay_readable` gives a request. -/
def requestCapacity : ℕ := 160

/-- What request text is made of: digits, spaces and minus signs. -/
def isRequestByte (b : UInt8) : Bool := isDigit b || b == 32 || b == 45

/-- A body the script may be handed: short, and of request bytes only. -/
structure RequestBody (body : Bytes) : Prop where
  short : body.length < requestCapacity
  bytes : ∀ b ∈ body, isRequestByte b

section Bodies

variable {opcode : Opcode} {payload text : Bytes}

theorem decimalText_bytes (value : ℕ) : ∀ b ∈ decimalText value, isRequestByte b := by
  intro b hb
  simp [isRequestByte, decimalText_all value b hb]

theorem signedText_bytes (value : ℤ) : ∀ b ∈ signedText value, isRequestByte b := by
  intro b hb
  unfold signedText at hb
  split_ifs at hb
  · have hminus : ∀ c ∈ ascii "-", isRequestByte c := List.all_iff_forall_prop.mp (by decide)
    rcases List.mem_append.mp hb with hb | hb
    · exact hminus b hb
    · exact decimalText_bytes _ b hb
  · exact decimalText_bytes _ b hb

theorem append_bytes {xs ys : Bytes} (hx : ∀ b ∈ xs, isRequestByte b) (hy : ∀ b ∈ ys, isRequestByte b) :
    ∀ b ∈ xs ++ ys, isRequestByte b := by
  intro b hb
  rcases List.mem_append.mp hb with hb | hb
  · exact hx b hb
  · exact hy b hb

theorem space_bytes : ∀ b ∈ ascii " ", isRequestByte b := List.all_iff_forall_prop.mp (by decide)

theorem requestFormat_bytes (h : requestFormat opcode payload = some text) :
    ∀ b ∈ text, isRequestByte b := by
  unfold requestFormat at h
  split_ifs at h
  · cases h
    exact decimalText_bytes _
  · cases h
    exact decimalText_bytes _
  · cases h
    refine append_bytes (append_bytes (append_bytes (append_bytes (append_bytes (append_bytes
      (append_bytes (append_bytes ?_ space_bytes) ?_) space_bytes) ?_) space_bytes) ?_) space_bytes) ?_
    · exact decimalText_bytes _
    · exact signedText_bytes _
    · exact signedText_bytes _
    · exact decimalText_bytes _
    · exact decimalText_bytes _
  · cases h
    exact append_bytes (append_bytes (decimalText_bytes _) space_bytes) (decimalText_bytes _)

/-- Every body the daemon queues is one the script may be handed. -/
theorem kwinRequestText_body (h : kwinRequestText opcode payload requestCapacity = some text) :
    RequestBody text := by
  unfold kwinRequestText at h
  split_ifs at h with hcap hnothing hempty
  · cases h
    exact ⟨by decide, by simp⟩
  · simp only [Option.bind_eq_bind, Option.bind_eq_some_iff] at h
    obtain ⟨formatted, hf, h⟩ := h
    split_ifs at h with hlen
    cases h
    exact ⟨Nat.lt_of_not_le hlen, requestFormat_bytes hf⟩

end Bodies

end KeysharpDesktop
