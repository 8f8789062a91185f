import Mathlib.Logic.Function.Basic

/-! A role that a flag guards: of any number of parties at most one has it, and the flag is set
while someone does. -/
namespace Exclusive

variable {ι α : Type*} [DecidableEq ι] {flag : Bool} {parties : ι → α} {has : α → Bool} {i : ι} {a : α}

structure Held (flag : Bool) (parties : ι → α) (has : α → Bool) : Prop where
  one : ∀ i j, has (parties i) → has (parties j) → i = j
  flagged : ∀ i, has (parties i) → flag

namespace Held

/-- A party that moves without the role, or with it. -/
theorem keep (h : Held flag parties has) (hsame : has a = has (parties i)) :
    Held flag (Function.update parties i a) has := by
  have hall : ∀ j, has (Function.update parties i a j) = has (parties j) := by
    intro j
    by_cases hj : j = i
    · rw [hj, Function.update_self, hsame]
    · rw [Function.update_of_ne hj]
  constructor
  · intro j k hj hk
    rw [hall] at hj hk
    exact h.one j k hj hk
  · intro j hj
    rw [hall] at hj
    exact h.flagged j hj

/-- Where the flag is clear, anyone may take the role and set it. -/
theorem take (h : Held false parties has) (i : ι) (a : α) : Held true (Function.update parties i a) has := by
  have honly : ∀ j, has (Function.update parties i a j) → j = i := by
    intro j hj
    by_contra hne
    rw [Function.update_of_ne hne] at hj
    exact absurd (h.flagged j hj) (by decide)
  refine ⟨?_, fun _ _ => rfl⟩
  intro j k hj hk
  rw [honly j hj, honly k hk]

/-- The party that has the role may give it up and clear the flag. -/
theorem release (h : Held flag parties has) (hhas : has (parties i)) (ha : has a = false) :
    Held false (Function.update parties i a) has := by
  have hnone : ∀ j, has (Function.update parties i a j) = false := by
    intro j
    by_cases hj : j = i
    · rw [hj, Function.update_self, ha]
    · rw [Function.update_of_ne hj, Bool.eq_false_iff]
      intro hother
      exact hj (h.one j i hother hhas)
  constructor
  · intro j k hj
    rw [hnone j] at hj
    cases hj
  · intro j hj
    rw [hnone j] at hj
    cases hj

omit [DecidableEq ι] in
theorem map (h : Held flag parties has) {f : α → α} (hf : ∀ a, has (f a) = has a) :
    Held flag (fun i => f (parties i)) has := by
  constructor
  · intro j k hj hk
    rw [hf] at hj hk
    exact h.one j k hj hk
  · intro j hj
    rw [hf] at hj
    exact h.flagged j hj

end Held

end Exclusive
