import Mathlib.Algebra.Order.Field.Rat
import Mathlib.Algebra.Order.Group.Unbundled.Int
import Mathlib.Data.Int.Log
import Mathlib.Data.Rat.Floor
import Mathlib.Tactic.Ring.RingNF

/-! Numbers of JavaScript: what the double nearest to a rational is, that integers below `2 ^ 53` are computed exactly
while others stay beyond it, and the digits that an integer is written with. -/
namespace JsNumber

/-- A number; of the rationals only some are doubles. -/
inductive Number where
  | nan
  | infinite (negative : Bool)
  | finite (q : ℚ)

def Number.integer? : Number → Option ℤ
  | finite q => if q.isInt then some q.num else none
  | _ => none

/-- The integer nearest to a rational, and the even one of two that are as near. -/
def roundEven (q : ℚ) : ℤ :=
  let low := q.floor
  if 2 * (q - low) < 1 then low else if 1 < 2 * (q - low) then low + 1 else low + low % 2

/-- The worth of the last binary digit that a double keeps of a rational. -/
def lastPlace (q : ℚ) : ℚ := 2 ^ max (Int.log 2 |q| - 52) (-1074)

/-- The double nearest to a rational that is not too large for one. -/
def double (q : ℚ) : ℚ := roundEven (q / lastPlace q) * lastPlace q

/-- What an operation gives whose exact result is a rational. -/
def Number.ofRat (q : ℚ) : Number := if 2 ^ 1024 ≤ |double q| then .infinite (q < 0) else .finite (double q)

/-- The double nearest to an integer: at most 53 binary digits, the even of two neighbours as far. -/
def nearest (n : ℕ) : ℕ :=
  let unit := 2 ^ (n.log2 - 52)
  let significand := n / unit
  let rest := n % unit
  (if 2 * rest < unit then significand else if unit < 2 * rest then significand + 1
    else significand + significand % 2) * unit

/-- What an operation on two integers gives: an integer, or an infinity. -/
inductive Rounded where
  | below
  | finite (v : ℤ)
  | above
  deriving DecidableEq

def round (v : ℤ) : Rounded :=
  if 2 ^ 1024 ≤ nearest v.natAbs then if v < 0 then .below else .above
  else .finite (if v < 0 then -(nearest v.natAbs : ℤ) else nearest v.natAbs)

namespace Rounded

/-- Whether a number is no more than an integer. -/
def le : Rounded → ℤ → Bool
  | below, _ => true
  | finite v, limit => v ≤ limit
  | above, _ => false

/-- The lesser of a number and an integer. -/
def min : Rounded → ℤ → Rounded
  | below, _ => below
  | finite v, limit => finite (Min.min limit v)
  | above, limit => finite limit

end Rounded

def maxSafeInteger : ℤ := 2 ^ 53 - 1

/-- An integer that every operation keeps exact. -/
def Safe (v : ℤ) : Prop := -maxSafeInteger ≤ v ∧ v ≤ maxSafeInteger

instance decidableSafe (v : ℤ) : Decidable (Safe v) :=
  inferInstanceAs (Decidable (-maxSafeInteger ≤ v ∧ v ≤ maxSafeInteger))

theorem nearest_eq {n : ℕ} (h : n < 2 ^ 53) : nearest n = n := by
  have hlog : n.log2 - 52 = 0 := by
    by_cases hzero : n = 0
    · subst hzero
      rfl
    · have hlt := (Nat.log2_lt hzero).mpr h
      omega
  rw [nearest, hlog]
  simp [Nat.mod_one]

theorem le_nearest {n : ℕ} (h : 2 ^ 53 ≤ n) : 2 ^ 53 ≤ nearest n := by
  have hne : n ≠ 0 := by
    rintro rfl
    exact absurd h (by decide)
  have hlog : 53 ≤ n.log2 := (Nat.le_log2 hne).mpr h
  have hpower : 2 ^ (n.log2 - 52) * 2 ^ 52 ≤ n := by
    rw [← pow_add, Nat.sub_add_cancel (by omega)]
    exact (Nat.le_log2 hne).mp (Nat.le_refl _)
  have hunit : 2 ^ 1 ≤ 2 ^ (n.log2 - 52) := Nat.pow_le_pow_right (by decide) (by omega)
  have hsignificand : 2 ^ 52 ≤ n / 2 ^ (n.log2 - 52) :=
    (Nat.le_div_iff_mul_le (Nat.two_pow_pos _)).mpr ((Nat.mul_comm _ _).trans_le hpower)
  have hrounds : ∀ significand rest unit : ℕ, significand ≤
      if 2 * rest < unit then significand else if unit < 2 * rest then significand + 1
        else significand + significand % 2 := by
    intro significand rest unit
    split_ifs <;> omega
  calc 2 ^ 53 = 2 ^ 52 * 2 ^ 1 := by rfl
    _ ≤ n / 2 ^ (n.log2 - 52) * 2 ^ (n.log2 - 52) := Nat.mul_le_mul hsignificand hunit
    _ ≤ nearest n := Nat.mul_le_mul_right _ (hrounds _ _ _)

theorem round_safe {v : ℤ} (h : Safe v) : round v = .finite v := by
  obtain ⟨hlow, hhigh⟩ := h
  unfold maxSafeInteger at hlow hhigh
  have hlt : v.natAbs < 2 ^ 53 := by omega
  have hnearest : nearest v.natAbs = v.natAbs := nearest_eq hlt
  have hfinite : ∀ k, 53 ≤ k → ¬2 ^ k ≤ nearest v.natAbs := by
    intro k hk
    have hpower : 2 ^ 53 ≤ 2 ^ k := Nat.pow_le_pow_right Nat.two_pos hk
    omega
  rw [round, if_neg (hfinite 1024 (by decide)), hnearest]
  congr 1
  split_ifs <;> omega

/-- What is too large for a safe integer is no less after rounding. -/
theorem round_large {v : ℤ} (h : maxSafeInteger < v) :
    round v = .above ∨ ∃ w, maxSafeInteger < w ∧ round v = .finite w := by
  unfold maxSafeInteger at h ⊢
  have hnearest := le_nearest (n := v.natAbs) (by omega)
  unfold round
  split_ifs with hoverflow hnegative
  · omega
  · exact Or.inl rfl
  · omega
  · exact Or.inr ⟨_, by omega, rfl⟩

theorem round_small {v : ℤ} (h : v < -maxSafeInteger) :
    round v = .below ∨ ∃ w, w < -maxSafeInteger ∧ round v = .finite w := by
  unfold maxSafeInteger at h ⊢
  have hnearest := le_nearest (n := v.natAbs) (by omega)
  unfold round
  split_ifs with hoverflow hnegative
  · exact Or.inl rfl
  · omega
  · exact Or.inr ⟨_, by omega, rfl⟩
  · omega

/-- A comparison with a safe integer is that of the exact result. -/
theorem round_le {v limit : ℤ} (h : Safe limit) : (round v).le limit = decide (v ≤ limit) := by
  by_cases hlarge : maxSafeInteger < v
  · have hnot : ¬v ≤ limit := by
      have := h.2
      omega
    obtain habove | ⟨w, hw, hround⟩ := round_large hlarge
    · rw [habove, Rounded.le, decide_eq_false hnot]
    · have hwnot : ¬w ≤ limit := by
        have := h.2
        omega
      rw [hround, Rounded.le, decide_eq_false hnot, decide_eq_false hwnot]
  · by_cases hsmall : v < -maxSafeInteger
    · have hle : v ≤ limit := by
        have := h.1
        omega
      obtain hbelow | ⟨w, hw, hround⟩ := round_small hsmall
      · rw [hbelow, Rounded.le, decide_eq_true hle]
      · have hwle : w ≤ limit := by
          have := h.1
          omega
        rw [hround, Rounded.le, decide_eq_true hle, decide_eq_true hwle]
    · rw [round_safe ⟨Int.not_lt.mp hsmall, Int.not_lt.mp hlarge⟩, Rounded.le]

/-- The lesser of a sum and a safe integer is that of the exact sum, or is no safe integer. -/
theorem round_min {v limit : ℤ} (h : Safe limit) :
    (round v).min limit = .finite (Min.min limit v) ∨
      v < -maxSafeInteger ∧ ((round v).min limit = .below ∨
        ∃ w, w < -maxSafeInteger ∧ (round v).min limit = .finite w) := by
  by_cases hlarge : maxSafeInteger < v
  · left
    have hlimit := h.2
    obtain habove | ⟨w, hw, hround⟩ := round_large hlarge
    · rw [habove, Rounded.min, Int.min_eq_left (by omega)]
    · rw [hround, Rounded.min, Int.min_eq_left (by omega), Int.min_eq_left (by omega)]
  · by_cases hsmall : v < -maxSafeInteger
    · right
      have hlimit := h.1
      refine ⟨hsmall, ?_⟩
      obtain hbelow | ⟨w, hw, hround⟩ := round_small hsmall
      · rw [hbelow]
        exact Or.inl rfl
      · rw [hround]
        exact Or.inr ⟨w, hw, by rw [Rounded.min, Int.min_eq_right (by omega)]⟩
    · left
      rw [round_safe ⟨Int.not_lt.mp hsmall, Int.not_lt.mp hlarge⟩]
      rfl

section Digits

/-- The multiples of a unit on both sides of a number, the nearer one first, and of two as near the even one. -/
def neighbours (n unit : ℕ) : List ℕ :=
  let low := n / unit * unit
  if 2 * (n % unit) < unit ∨ 2 * (n % unit) = unit ∧ n / unit % 2 = 0 then [low, low + unit] else [low + unit, low]

/-- Of all that is read as the same double, what has the fewest digits before its zeros, and is the nearest. -/
def shortest (n : ℕ) : ℕ :=
  (((List.range (Nat.log 10 n + 1)).reverse.flatMap fun zeros => neighbours n (10 ^ zeros)).find? fun m =>
    nearest m = n).getD n

end Digits

end JsNumber
