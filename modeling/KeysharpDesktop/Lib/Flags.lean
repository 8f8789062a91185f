import Mathlib.Data.Nat.Notation

/-! Flags kept as the bits of a mask: testing one, clearing one, and the flags lost between
two masks. -/
namespace Flags

variable {w i j : ℕ}

theorem test_eq (x : BitVec w) (hi : i < w) : (x &&& BitVec.twoPow w i != 0) = x.getLsbD i := by
  rw [BitVec.and_twoPow]
  cases h : x.getLsbD i
  · simp
  · have hne : BitVec.twoPow w i ≠ 0 := by
      intro hzero
      have := congrArg (BitVec.getLsbD · i) hzero
      simp [hi] at this
    simpa using hne

/-- Clearing one flag under a condition changes the test of that flag only. -/
theorem test_clear (x : BitVec w) (lost : Bool) (hi : i < w) :
    ((if lost then x &&& ~~~BitVec.twoPow w j else x) &&& BitVec.twoPow w i != 0) =
      ((x &&& BitVec.twoPow w i != 0) && !(lost && decide (i = j))) := by
  rw [test_eq _ hi, test_eq _ hi]
  cases lost
  · simp
  · by_cases hij : i = j
    · simp [hij]
    · simp [hi, hij]

theorem test_lost (x y : BitVec w) (hi : i < w) :
    ((x &&& ~~~y) &&& BitVec.twoPow w i != 0) =
      ((x &&& BitVec.twoPow w i != 0) && !(y &&& BitVec.twoPow w i != 0)) := by
  rw [test_eq _ hi, test_eq _ hi, test_eq _ hi]
  simp [hi]

end Flags
