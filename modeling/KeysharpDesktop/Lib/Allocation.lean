import Mathlib.Data.Finset.Card
import Mathlib.Logic.Function.Iterate
import KeysharpDesktop.Lib.Transition

/-! Values that are each given to one key only: the search for one that is free, and the table of those that were
given. -/
namespace Allocation

section Search

variable {α β : Type*} (taken : α → Prop) (next : α → α)

/-- The search for a value that is not taken, of so many turns at most. -/
def probe [DecidablePred taken] : ℕ → α → α
  | 0, a => a
  | turns + 1, a => if taken a then probe turns (next a) else a

/-- Where a search without a bound comes to its end. -/
def Stops (a b : α) : Prop := ∃ k, next^[k] a = b ∧ ¬taken b ∧ ∀ j < k, taken (next^[j] a)

variable {taken next} {turns : ℕ} {a : α}

theorem Stops.here (h : ¬taken a) : Stops taken next a a := ⟨0, rfl, h, fun j hj => absurd hj (Nat.not_lt_zero j)⟩

theorem Stops.further {b : α} (ha : taken a) (h : Stops taken next (next a) b) : Stops taken next a b := by
  obtain ⟨k, hb, hfree, hpassed⟩ := h
  refine ⟨k + 1, hb, hfree, ?_⟩
  intro j hj
  cases j with
  | zero => exact ha
  | succ j => exact hpassed j (by omega)

theorem Stops.free {b : α} (h : Stops taken next a b) : ¬taken b := h.elim fun _ hk => hk.2.1

theorem probe_stops [DecidablePred taken] (h : ∃ j < turns, ¬taken (next^[j] a)) :
    Stops taken next a (probe taken next turns a) := by
  induction turns generalizing a with
  | zero =>
    obtain ⟨j, hj, -⟩ := h
    exact absurd hj (Nat.not_lt_zero j)
  | succ turns ih =>
    unfold probe
    split_ifs with ha
    · apply Stops.further ha
      apply ih
      obtain ⟨j, hj, hfree⟩ := h
      cases j with
      | zero => exact absurd ha hfree
      | succ j => exact ⟨j, by omega, hfree⟩
    · exact Stops.here ha

/-- Among more values than there are entries, one is free. -/
theorem exists_free (name : α → β) (entries : Finset β) (htaken : ∀ b, taken b → name b ∈ entries)
    (hdistinct : ∀ i < turns, ∀ j < turns, name (next^[i] a) = name (next^[j] a) → i = j)
    (hroom : entries.card < turns) : ∃ j < turns, ¬taken (next^[j] a) := by
  by_contra hall
  push Not at hall
  have hcard : entries.card < (Finset.range turns).card := by rwa [Finset.card_range]
  obtain ⟨i, hi, j, hj, hne, heq⟩ := Finset.exists_ne_map_eq_of_card_lt_of_maps_to hcard
    (f := fun j => name (next^[j] a)) fun j hj => htaken _ (hall j (Finset.mem_range.mp hj))
  exact hne (hdistinct i (Finset.mem_range.mp hi) j (Finset.mem_range.mp hj) heq)

end Search

section Table

variable {κ ν : Type*} [DecidableEq κ]

/-- A key is given the value that it has, or one that no key has. -/
inductive Gives : (κ → Option ν) → κ × ν → (κ → Option ν) → Prop
  | known {a : κ → Option ν} {k : κ} {v : ν} (has : a k = some v) : Gives a (k, v) a
  | fresh {a : κ → Option ν} {k : κ} {v : ν} (none : a k = none) (free : ∀ j, a j ≠ some v) :
      Gives a (k, v) (Function.update a k (some v))

def Injective (a : κ → Option ν) : Prop := ∀ j k v, a j = some v → a k = some v → j = k

variable {a a' : κ → Option ν} {call one other : κ × ν} {calls : List (κ × ν)}

theorem Gives.keeps (h : Gives a call a') {k : κ} {v : ν} (hk : a k = some v) : a' k = some v := by
  cases h with
  | known => exact hk
  | @fresh j w hnone =>
    have hne : k ≠ j := by
      rintro rfl
      rw [hnone] at hk
      cases hk
    rwa [Function.update_of_ne hne]

theorem Gives.given (h : Gives a call a') : a' call.1 = some call.2 := by
  cases h with
  | known hhas => exact hhas
  | fresh => exact Function.update_self _ _ _

theorem Gives.injective (h : Gives a call a') (ha : Injective a) : Injective a' := by
  cases h with
  | known => exact ha
  | @fresh i w hnone hfree =>
    have hold : ∀ k v, Function.update a i (some w) k = some v → k = i ∧ v = w ∨ k ≠ i ∧ a k = some v := by
      intro k v hk
      by_cases hki : k = i
      · subst hki
        rw [Function.update_self, Option.some.injEq] at hk
        exact Or.inl ⟨rfl, hk.symm⟩
      · rw [Function.update_of_ne hki] at hk
        exact Or.inr ⟨hki, hk⟩
    intro j k v hj hk
    obtain ⟨rfl, rfl⟩ | ⟨-, hjold⟩ := hold j v hj
    · obtain ⟨rfl, -⟩ | ⟨-, hkold⟩ := hold k _ hk
      · rfl
      · exact absurd hkold (hfree k)
    · obtain ⟨rfl, rfl⟩ | ⟨-, hkold⟩ := hold k _ hk
      · exact absurd hjold (hfree j)
      · exact ha j k v hjold hkold

theorem run_keeps (h : Transition.Run Gives a calls a') {k : κ} {v : ν} (hk : a k = some v) : a' k = some v := by
  exact h.invariant (I := fun a => a k = some v) (fun _ _ _ hk hstep => hstep.keeps hk) hk

theorem run_injective (h : Transition.Run Gives a calls a') (ha : Injective a) : Injective a' := by
  exact h.invariant (fun _ _ _ ha hstep => hstep.injective ha) ha

/-- What a key was once given, it has at the end. -/
theorem run_given (h : Transition.Run Gives a calls a') (hcall : call ∈ calls) : a' call.1 = some call.2 := by
  induction h with
  | nil => cases hcall
  | cons hstep hrun ih =>
    obtain rfl | hcall := List.mem_cons.mp hcall
    · exact run_keeps hrun hstep.given
    · exact ih hcall

/-- Over a whole run, the same value means the same key. -/
theorem run_same_iff (h : Transition.Run Gives a calls a') (ha : Injective a) (hone : one ∈ calls)
    (hother : other ∈ calls) : one.2 = other.2 ↔ one.1 = other.1 := by
  have hgiven := run_given h hone
  have hgiven' := run_given h hother
  constructor
  · intro heq
    rw [heq] at hgiven
    exact run_injective h ha _ _ _ hgiven hgiven'
  · intro heq
    rw [heq, hgiven', Option.some.injEq] at hgiven
    exact hgiven.symm

end Table

end Allocation
