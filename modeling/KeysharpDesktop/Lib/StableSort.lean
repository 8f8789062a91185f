import Mathlib.Data.List.Induction
import Mathlib.Data.List.TakeWhile
import Mathlib.Order.Defs.Unbundled

/-! Sorting by insertion behind what is not above: the order it makes, the order it keeps among equals, and the last
hit of a list in that order. -/
namespace StableSort

variable {α : Type*} (le : α → α → Prop) [DecidableRel le]

/-- Walks over what is not above the item, and puts the item there. -/
def place (sorted : List α) (item : α) : List α :=
  sorted.takeWhile (fun x => le x item) ++ item :: sorted.dropWhile (fun x => le x item)

def sort (l : List α) : List α := l.foldl (place le) []

/-- The last element of a list that meets a condition. -/
def lastHit (p : α → Bool) (l : List α) : Option α := l.foldl (fun found x => if p x then some x else found) none

section Permutation

theorem place_perm (sorted : List α) (item : α) : (place le sorted item).Perm (item :: sorted) := by
  have hmiddle : (place le sorted item).Perm
      (item :: (sorted.takeWhile (fun x => le x item) ++ sorted.dropWhile (fun x => le x item))) := List.perm_middle
  rwa [List.takeWhile_append_dropWhile] at hmiddle

theorem sort_append (l : List α) (item : α) : sort le (l ++ [item]) = place le (sort le l) item := by
  rw [sort, List.foldl_append]
  rfl

theorem sort_perm (l : List α) : (sort le l).Perm l := by
  induction l using List.reverseRecOn with
  | nil => exact List.Perm.nil
  | append_singleton l item ih =>
    rw [sort_append]
    apply (place_perm le _ _).trans
    apply (ih.cons item).trans
    exact (List.perm_append_singleton item l).symm

theorem mem_sort {l : List α} {x : α} : x ∈ sort le l ↔ x ∈ l := (sort_perm le l).mem_iff

end Permutation

section Order

variable {le} [IsTrans α le]

/-- Behind the place of an item, nothing is at most the item. -/
theorem not_le_of_dropWhile {sorted : List α} {item x : α} (hsorted : sorted.Pairwise le)
    (hx : x ∈ sorted.dropWhile (fun y => le y item)) : ¬le x item := by
  induction sorted with
  | nil => cases hx
  | cons y sorted ih =>
    obtain ⟨hy, hsorted⟩ := List.pairwise_cons.mp hsorted
    by_cases hle : le y item
    · rw [List.dropWhile_cons_of_pos (by simpa using hle)] at hx
      exact ih hsorted hx
    · rw [List.dropWhile_cons_of_neg (by simpa using hle)] at hx
      obtain rfl | hx := List.mem_cons.mp hx
      · exact hle
      · intro hbelow
        exact hle (IsTrans.trans _ _ _ (hy x hx) hbelow)

theorem place_pairwise [Std.Total le] {sorted : List α} (hsorted : sorted.Pairwise le) (item : α) :
    (place le sorted item).Pairwise le := by
  have hlower : ∀ x ∈ sorted.takeWhile (fun y => le y item), le x item := by
    intro x hx
    simpa using List.mem_takeWhile_imp hx
  have hupper : ∀ x ∈ sorted.dropWhile (fun y => le y item), le item x := by
    intro x hx
    exact (Std.Total.total item x).resolve_right (not_le_of_dropWhile hsorted hx)
  unfold place
  rw [List.pairwise_append]
  constructor
  · exact hsorted.sublist (List.takeWhile_sublist _)
  constructor
  · exact List.pairwise_cons.mpr ⟨hupper, hsorted.sublist (List.dropWhile_sublist _)⟩
  · intro x hx y hy
    obtain rfl | hy := List.mem_cons.mp hy
    · exact hlower x hx
    · exact IsTrans.trans _ _ _ (hlower x hx) (hupper y hy)

theorem sort_pairwise [Std.Total le] (l : List α) : (sort le l).Pairwise le := by
  induction l using List.reverseRecOn with
  | nil => exact List.Pairwise.nil
  | append_singleton l item ih =>
    rw [sort_append]
    exact place_pairwise ih item

/-- A kind whose members are all at most one another keeps its order. -/
theorem place_filter {sorted : List α} (hsorted : sorted.Pairwise le) (item : α) {p : α → Bool}
    (hp : ∀ x y, p x → p y → le x y) : (place le sorted item).filter p = sorted.filter p ++ [item].filter p := by
  by_cases hitem : p item
  · have hupper : (sorted.dropWhile fun x => le x item).filter p = [] := by
      rw [List.filter_eq_nil_iff]
      intro x hx hpx
      exact not_le_of_dropWhile hsorted hx (hp x item hpx hitem)
    have hlower : (sorted.takeWhile fun x => le x item).filter p = sorted.filter p := by
      conv_rhs => rw [← List.takeWhile_append_dropWhile (p := fun x => decide (le x item)) (l := sorted)]
      rw [List.filter_append, hupper, List.append_nil]
    rw [place, List.filter_append, List.filter_cons, if_pos hitem, hupper, hlower, List.filter_cons, if_pos hitem]
    rfl
  · rw [place, List.filter_append, List.filter_cons, if_neg hitem, List.filter_cons, if_neg hitem,
      ← List.filter_append, List.takeWhile_append_dropWhile, List.filter_nil, List.append_nil]

theorem sort_filter [Std.Total le] (l : List α) {p : α → Bool} (hp : ∀ x y, p x → p y → le x y) :
    (sort le l).filter p = l.filter p := by
  induction l using List.reverseRecOn with
  | nil => rfl
  | append_singleton l item ih => rw [sort_append, place_filter (sort_pairwise l) item hp, ih, List.filter_append]

end Order

section LastHit

variable {le} {p : α → Bool} {l : List α} {found : α}

theorem lastHit_append (l : List α) (x : α) : lastHit p (l ++ [x]) = if p x then some x else lastHit p l := by
  rw [lastHit, List.foldl_append]
  rfl

theorem lastHit_eq_find (l : List α) : lastHit p l = l.reverse.find? p := by
  induction l using List.reverseRecOn with
  | nil => rfl
  | append_singleton l x ih =>
    rw [lastHit_append, List.reverse_append, List.reverse_singleton, List.singleton_append, List.find?_cons, ih]
    cases p x <;> rfl

theorem lastHit_eq_none : lastHit p l = none ↔ ∀ x ∈ l, ¬p x := by
  simp [lastHit_eq_find]

theorem lastHit_some (h : lastHit p l = some found) : found ∈ l ∧ p found := by
  rw [lastHit_eq_find] at h
  constructor
  · exact List.mem_reverse.mp (List.mem_of_find?_eq_some h)
  · exact List.find?_some h

omit [DecidableRel le] in
/-- In an ordered list the last hit is on top of every hit. -/
theorem lastHit_top [Std.Total le] {l : List α} (hl : l.Pairwise le) (h : lastHit p l = some found) :
    ∀ x ∈ l, p x → le x found := by
  induction l using List.reverseRecOn with
  | nil => exact fun x hx => absurd hx List.not_mem_nil
  | append_singleton l y ih =>
    obtain ⟨hl, -, hlast⟩ := List.pairwise_append.mp hl
    have hrefl : ∀ x, le x x := fun x => (Std.Total.total x x).elim id id
    rw [lastHit_append] at h
    intro x hx hpx
    obtain hx | hx := List.mem_append.mp hx
    · by_cases hy : p y
      · rw [if_pos hy, Option.some.injEq] at h
        exact h ▸ hlast x hx y List.mem_cons_self
      · rw [if_neg hy] at h
        exact ih hl h x hx hpx
    · rw [List.mem_singleton.mp hx] at hpx ⊢
      rw [if_pos hpx, Option.some.injEq] at h
      exact h ▸ hrefl y

end LastHit

end StableSort
