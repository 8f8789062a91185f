import Mathlib.Data.List.Basic
import Mathlib.Data.List.Nodup

/-! Tables kept as lists of records, each found by a key: putting a record at a key, and
removing the record at a key. -/
namespace Keyed

variable {α κ : Type*} [DecidableEq κ] (key : α → κ)

def find (k : κ) (l : List α) : Option α := l.find? fun x => key x = k

/-- The first record at the key is replaced in place; where there is none, one is appended. -/
def put (k : κ) (x : α) : List α → List α
  | [] => [x]
  | y :: l => if key y = k then x :: l else y :: put k x l

def remove (k : κ) (l : List α) : List α := l.eraseP fun x => key x = k

/-- No key occurs twice. -/
def Distinct (l : List α) : Prop := (l.map key).Nodup

instance (l : List α) : Decidable (Distinct key l) :=
  inferInstanceAs (Decidable (l.map key).Nodup)

variable {key} {k : κ} {x : α} {l : List α}

theorem find_cons (y : α) : find key k (y :: l) = if key y = k then some y else find key k l := by
  show List.find? _ (y :: l) = _
  rw [List.find?_cons]
  by_cases hy : key y = k
  · rw [if_pos hy, decide_eq_true hy]
  · rw [if_neg hy, decide_eq_false hy]
    rfl

theorem put_cons (y : α) : put key k x (y :: l) = if key y = k then x :: l else y :: put key k x l := rfl

theorem key_of_find (h : find key k l = some x) : key x = k := by
  have := List.find?_some h
  exact of_decide_eq_true this

theorem find_eq_none : find key k l = none ↔ ∀ y ∈ l, key y ≠ k := by
  simp [find]

theorem find_of_mem (hl : Distinct key l) (hx : x ∈ l) : find key (key x) l = some x := by
  induction l with
  | nil => cases hx
  | cons y l ih =>
    obtain ⟨hy, hl⟩ := List.nodup_cons.mp hl
    rw [find_cons]
    obtain rfl | hx := List.mem_cons.mp hx
    · rw [if_pos rfl]
    · have hne : key y ≠ key x := fun heq => hy (heq ▸ List.mem_map_of_mem hx)
      rw [if_neg hne]
      exact ih hl hx

theorem find_eq_some (hl : Distinct key l) : find key k l = some x ↔ x ∈ l ∧ key x = k := by
  constructor
  · intro h
    exact ⟨List.mem_of_find?_eq_some h, key_of_find h⟩
  · rintro ⟨hx, rfl⟩
    exact find_of_mem hl hx

theorem mem_put {y : α} (h : y ∈ put key k x l) : y = x ∨ y ∈ l := by
  induction l with
  | nil =>
    left
    exact List.mem_singleton.mp h
  | cons z l ih =>
    rw [put_cons] at h
    split_ifs at h with hz
    · rcases List.mem_cons.mp h with rfl | h
      · exact .inl rfl
      · exact .inr (List.mem_cons_of_mem _ h)
    · rcases List.mem_cons.mp h with rfl | h
      · exact .inr List.mem_cons_self
      · exact (ih h).imp_right (List.mem_cons_of_mem _)

theorem Distinct.put (hl : Distinct key l) (hx : key x = k) : Distinct key (put key k x l) := by
  induction l with
  | nil => exact List.nodup_singleton _
  | cons y l ih =>
    obtain ⟨hy, hl⟩ := List.nodup_cons.mp hl
    rw [put_cons]
    split_ifs with hyk
    · refine List.nodup_cons.mpr ⟨?_, hl⟩
      rwa [hx, ← hyk]
    · refine List.nodup_cons.mpr ⟨?_, ih hl⟩
      intro hmem
      obtain ⟨z, hz, hzy⟩ := List.mem_map.mp hmem
      rcases mem_put hz with rfl | hz
      · exact hyk (hzy ▸ hx)
      · exact hy (hzy ▸ List.mem_map_of_mem hz)

theorem Distinct.remove (hl : Distinct key l) : Distinct key (remove key k l) :=
  hl.sublist (List.eraseP_sublist.map key)

/-- Putting back the record that is there changes nothing, and nothing else does. -/
theorem put_eq_self_iff : put key k x l = l ↔ find key k l = some x := by
  induction l with
  | nil => exact iff_of_false (List.cons_ne_nil _ _) (Option.some_ne_none _).symm
  | cons y l ih =>
    rw [put_cons, find_cons]
    split_ifs with hy
    · rw [List.cons.injEq, Option.some.injEq, eq_comm, and_iff_left rfl]
    · rw [List.cons.injEq, and_iff_right rfl, ih]

theorem remove_eq_self_iff : remove key k l = l ↔ find key k l = none := by
  rw [find_eq_none, remove, List.eraseP_eq_self_iff]
  simp

theorem find_put {j : κ} (hx : key x = k) : find key j (put key k x l) = if j = k then some x else find key j l := by
  have hself : ∀ l, find key j (x :: l) = if j = k then some x else find key j l := by
    intro l
    rw [find_cons, hx]
    simp only [eq_comm]
  induction l with
  | nil => exact hself []
  | cons y l ih =>
    rw [put_cons]
    split_ifs with hy hj hj
    · rw [hself, if_pos hj]
    · rw [hself, if_neg hj, find_cons, hy, if_neg (Ne.symm hj)]
    · rw [find_cons, ih, if_pos hj, hj, if_neg hy]
    · rw [find_cons, find_cons, ih, if_neg hj]

theorem find_remove {j : κ} (hl : Distinct key l) :
    find key j (remove key k l) = if j = k then none else find key j l := by
  induction l with
  | nil =>
    split_ifs
    · rfl
    · rfl
  | cons y l ih =>
    obtain ⟨hy, hl⟩ := List.nodup_cons.mp hl
    have hrest := ih hl
    by_cases hyk : key y = k
    · have hremove : remove key k (y :: l) = l := List.eraseP_cons_of_pos (decide_eq_true hyk)
      rw [hremove]
      split_ifs with hj
      · rw [find_eq_none]
        intro z hz hzj
        apply hy
        rw [hyk, ← hj, ← hzj]
        exact List.mem_map_of_mem hz
      · rw [find_cons, hyk, if_neg (Ne.symm hj)]
    · have hremove : remove key k (y :: l) = y :: remove key k l :=
        List.eraseP_cons_of_neg (by rw [decide_eq_false hyk]; exact Bool.false_ne_true)
      rw [hremove, find_cons, find_cons, hrest]
      split_ifs with hy hj
      · exact absurd (hy.trans hj) hyk
      · rfl
      · rfl
      · rfl

end Keyed
