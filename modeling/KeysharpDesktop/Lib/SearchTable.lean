import Mathlib.Data.List.Sort
import Mathlib.Data.List.Nodup
import Mathlib.Order.Defs.LinearOrder

/-! Tables that are kept strictly ordered by a key: the binary search for an entry, sorting, and removing the entry
that was found. -/
namespace SearchTable

variable {α κ : Type*} [LinearOrder κ] (key : α → κ)

/-- The keys are strictly increasing. -/
def Ordered (l : List α) : Prop := l.Pairwise fun a b => key a < key b

/-- The loop of a binary search, which halves what is between its bounds in each turn. -/
def lowerBound (l : List α) (k : κ) : ℕ → ℕ → ℕ → ℕ
  | 0, first, _ => first
  | turns + 1, first, last =>
    if first < last then
      let middle := first + (last - first) / 2
      if l[middle]?.any (key · < k) then lowerBound l k turns (middle + 1) last
      else lowerBound l k turns first middle
    else first

/-- Where the search for a key ends. A turn for each entry is enough. -/
def position (l : List α) (k : κ) : ℕ := lowerBound key l k l.length 0 l.length

def find (l : List α) (k : κ) : Option α := l[position key l k]?.filter (key · = k)

/-- Whatever the sorting, the table is the same once no two entries have one key. -/
def sort (l : List α) : List α := l.insertionSort fun a b => key a ≤ key b

variable {key} {l : List α} {k : κ} {x y : α}

section Search

theorem Ordered.lt_of_getElem? (h : Ordered key l) {i j : ℕ} (hij : i < j) (hx : l[i]? = some x)
    (hy : l[j]? = some y) : key x < key y := by
  obtain ⟨hi, rfl⟩ := List.getElem?_eq_some_iff.mp hx
  obtain ⟨hj, rfl⟩ := List.getElem?_eq_some_iff.mp hy
  exact List.pairwise_iff_getElem.mp h i j hi hj hij

/-- What is below a place is below the key, and nothing from there on is. -/
structure Parts (key : α → κ) (l : List α) (k : κ) (below above : ℕ) : Prop where
  below : ∀ i x, i < below → l[i]? = some x → key x < k
  above : ∀ i x, above ≤ i → l[i]? = some x → k ≤ key x

theorem lowerBound_parts (h : Ordered key l) {turns first last : ℕ} (hle : first ≤ last) (hlast : last ≤ l.length)
    (hturns : last - first ≤ turns) (hparts : Parts key l k first last) :
    Parts key l k (lowerBound key l k turns first last) (lowerBound key l k turns first last) := by
  induction turns generalizing first last with
  | zero =>
    have heq : last = first := by omega
    rwa [heq] at hparts
  | succ turns ih =>
    rw [lowerBound]
    by_cases hlt : first < last
    · rw [if_pos hlt]
      have hmiddle : first + (last - first) / 2 < last := by omega
      generalize hm : first + (last - first) / 2 = middle at *
      have hentry : l[middle]? = some l[middle] := List.getElem?_eq_getElem (by omega)
      simp only [hentry, Option.any_some, decide_eq_true_eq]
      split_ifs with hbelow
      · apply ih (by omega) hlast (by omega)
        constructor
        · intro i x hi hx
          obtain hi | rfl := Nat.lt_or_eq_of_le (Nat.le_of_lt_succ hi)
          · exact lt_trans (h.lt_of_getElem? hi hx hentry) hbelow
          · rw [hentry, Option.some.injEq] at hx
            exact hx ▸ hbelow
        · exact hparts.above
      · apply ih (by omega) (by omega) (by omega)
        constructor
        · exact hparts.below
        · intro i x hi hx
          obtain hi | rfl := Nat.lt_or_eq_of_le hi
          · exact le_trans (not_lt.mp hbelow) (h.lt_of_getElem? hi hentry hx).le
          · rw [hentry, Option.some.injEq] at hx
            exact hx ▸ not_lt.mp hbelow
    · rw [if_neg hlt]
      have heq : last = first := by omega
      rwa [heq] at hparts

theorem position_parts (h : Ordered key l) (k : κ) : Parts key l k (position key l k) (position key l k) := by
  apply lowerBound_parts h (Nat.zero_le _) le_rfl (by omega)
  constructor
  · exact fun i x hi => absurd hi (Nat.not_lt_zero i)
  · intro i x hi hx
    rw [List.getElem?_eq_none hi] at hx
    cases hx

theorem find_position (h : find key l k = some x) : l[position key l k]? = some x ∧ key x = k := by
  obtain ⟨hx, hk⟩ := Option.filter_eq_some_iff.mp h
  exact ⟨hx, of_decide_eq_true hk⟩

/-- The search finds the entry of a key exactly when there is one. -/
theorem find_eq_some (h : Ordered key l) : find key l k = some x ↔ x ∈ l ∧ key x = k := by
  constructor
  · intro hfind
    obtain ⟨hx, hk⟩ := find_position hfind
    exact ⟨List.mem_of_getElem? hx, hk⟩
  · rintro ⟨hx, rfl⟩
    obtain ⟨i, hi, rfl⟩ := List.getElem_of_mem hx
    have hentry : l[i]? = some l[i] := List.getElem?_eq_getElem hi
    have hparts := position_parts h (key l[i])
    have heq : position key l (key l[i]) = i := by
      obtain hlt | heq | hgt := Nat.lt_trichotomy (position key l (key l[i])) i
      · have hp : l[position key l (key l[i])]? = some l[position key l (key l[i])] :=
          List.getElem?_eq_getElem (by omega)
        have hbelow := h.lt_of_getElem? hlt hp hentry
        exact absurd hbelow (not_lt.mpr (hparts.above _ _ le_rfl hp))
      · exact heq
      · exact absurd (hparts.below i _ hgt hentry) (lt_irrefl _)
    rw [find, heq, hentry, Option.filter_some, decide_eq_true rfl]
    rfl

theorem find_eq_none (h : Ordered key l) : find key l k = none ↔ ∀ x ∈ l, key x ≠ k := by
  constructor
  · intro hnone x hx hk
    have hsome := (find_eq_some h).mpr ⟨hx, hk⟩
    rw [hnone] at hsome
    cases hsome
  · intro hnot
    rw [Option.eq_none_iff_forall_ne_some]
    intro x hx
    obtain ⟨hmem, hk⟩ := (find_eq_some h).mp hx
    exact hnot x hmem hk

end Search

section Update

theorem Ordered.nodup_keys (h : Ordered key l) : (l.map key).Nodup := by
  rw [List.Nodup, List.pairwise_map]
  exact h.imp fun hlt => hlt.ne

instance total_key : Std.Total fun a b : α => key a ≤ key b := ⟨fun a b => le_total (key a) (key b)⟩

instance isTrans_key : IsTrans α fun a b => key a ≤ key b := ⟨fun _ _ _ => le_trans⟩

theorem mem_sort : x ∈ sort key l ↔ x ∈ l := (List.perm_insertionSort _ l).mem_iff

theorem sort_pairwise (key : α → κ) (l : List α) : (sort key l).Pairwise fun a b => key a ≤ key b :=
  List.pairwise_insertionSort _ l

/-- Sorting entries of which no two have one key orders them strictly. -/
theorem sort_ordered (h : (l.map key).Nodup) : Ordered key (sort key l) := by
  have hdistinct : (sort key l).Pairwise fun a b => key a ≠ key b := by
    rw [← List.pairwise_map (f := key) (R := fun a b => a ≠ b)]
    exact (((List.perm_insertionSort _ l).map key).nodup_iff).mpr h
  exact ((sort_pairwise key l).and hdistinct).imp fun hab => lt_of_le_of_ne hab.1 hab.2

theorem Ordered.eraseIdx (h : Ordered key l) (i : ℕ) : Ordered key (l.eraseIdx i) :=
  List.Pairwise.sublist (List.eraseIdx_sublist l i) h

/-- Only the entry that was found goes. -/
theorem mem_eraseIdx (h : Ordered key l) (hfind : find key l k = some x) :
    y ∈ l.eraseIdx (position key l k) ↔ y ∈ l ∧ key y ≠ k := by
  obtain ⟨hx, hk⟩ := find_position hfind
  obtain ⟨hi, hentry⟩ := List.getElem?_eq_some_iff.mp hx
  rw [List.mem_eraseIdx_iff_getElem]
  constructor
  · rintro ⟨j, hj, hne, rfl⟩
    refine ⟨List.getElem_mem _, ?_⟩
    intro hsame
    have hfound := (find_eq_some h).mpr ⟨List.getElem_mem hj, hsame⟩
    rw [hfind, Option.some.injEq, ← hentry] at hfound
    exact hne ((h.nodup_keys.of_map).getElem_inj_iff.mp hfound.symm)
  · rintro ⟨hy, hne⟩
    obtain ⟨j, hj, rfl⟩ := List.getElem_of_mem hy
    refine ⟨j, hj, ?_, rfl⟩
    rintro rfl
    exact hne (hentry ▸ hk)

end Update

end SearchTable
