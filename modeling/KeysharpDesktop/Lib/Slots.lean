import Mathlib.Data.List.Basic

/-! Fixed tables of slots: a list read with a default, written in place, and searched from
the front. -/
namespace Slots

variable {α : Type*} {l : List α} {p : α → Bool} {i : ℕ} {d : α}

theorem getD_set (l : List α) (i j : ℕ) (a d : α) :
    (l.set i a).getD j d = if j = i ∧ i < l.length then a else l.getD j d := by
  simp only [List.getD_eq_getElem?_getD, List.getElem?_set]
  split_ifs with h1 h2 h3 h4 h5 <;> simp_all

theorem getD_of_lt (h : i < l.length) : l.getD i d = l[i] := by
  simp [List.getD_eq_getElem?_getD, List.getElem?_eq_getElem h]

theorem getD_of_ge (h : l.length ≤ i) : l.getD i d = d := by
  simp [List.getD_eq_getElem?_getD, List.getElem?_eq_none h]

theorem getD_replicate (n i : ℕ) : (List.replicate n d).getD i d = d := by
  simp only [List.getD_eq_getElem?_getD, List.getElem?_replicate]
  split_ifs <;> rfl

/-- The slot a search finds is in range and is what was searched for. -/
theorem findIdx?_some (h : l.findIdx? p = some i) : i < l.length ∧ p (l.getD i d) := by
  obtain ⟨hi, hp, -⟩ := List.findIdx?_eq_some_iff_getElem.mp h
  refine ⟨hi, ?_⟩
  rwa [getD_of_lt hi]

/-- A slot that alone is what is searched for is found. -/
theorem findIdx?_of_unique (hd : p d = false) (hi : p (l.getD i d))
    (hu : ∀ j, p (l.getD j d) → j = i) : l.findIdx? p = some i := by
  have hlt : i < l.length := by
    by_contra hge
    rw [getD_of_ge (Nat.not_lt.mp hge), hd] at hi
    cases hi
  rw [List.findIdx?_eq_some_iff_getElem]
  refine ⟨hlt, by rwa [← getD_of_lt (d := d) hlt], ?_⟩
  intro j hj hp
  rw [← getD_of_lt (d := d) (Nat.lt_trans hj hlt)] at hp
  have := hu j hp
  omega

section Selected

open scoped List

variable {a b : α}

theorem set_split (hi : l[i]? = some a) (b : α) :
    l = l.take i ++ a :: l.drop (i + 1) ∧ l.set i b = l.take i ++ b :: l.drop (i + 1) := by
  obtain ⟨hlt, rfl⟩ := List.getElem?_eq_some_iff.mp hi
  constructor
  · rw [List.getElem_cons_drop, List.take_append_drop]
  · exact List.set_eq_take_cons_drop b hlt

/-- A slot that comes to be selected joins the selection. -/
theorem filter_set_perm (hi : l[i]? = some a) (ha : p a = false) (hb : p b) :
    (l.set i b).filter p ~ b :: l.filter p := by
  obtain ⟨hl, hset⟩ := set_split hi b
  have hbefore : l.filter p = (l.take i).filter p ++ (l.drop (i + 1)).filter p := by
    conv_lhs => rw [hl]
    simp [ha]
  have hafter : (l.set i b).filter p = (l.take i).filter p ++ b :: (l.drop (i + 1)).filter p := by
    rw [hset]
    simp [hb]
  rw [hbefore, hafter]
  exact List.perm_middle

/-- A slot that ceases to be selected leaves the selection. -/
theorem filter_perm_set (hi : l[i]? = some a) (ha : p a) (hb : p b = false) :
    l.filter p ~ a :: (l.set i b).filter p := by
  obtain ⟨hl, hset⟩ := set_split hi b
  have hbefore : l.filter p = (l.take i).filter p ++ a :: (l.drop (i + 1)).filter p := by
    conv_lhs => rw [hl]
    simp [ha]
  have hafter : (l.set i b).filter p = (l.take i).filter p ++ (l.drop (i + 1)).filter p := by
    rw [hset]
    simp [hb]
  rw [hbefore, hafter]
  exact List.perm_middle

end Selected

/-- Overwriting a slot moves a count by what the slot counted for and comes to count for. -/
theorem countP_set {a : α} (hi : l[i]? = some a) (b : α) :
    (l.set i b).countP p + (if p a then 1 else 0) = l.countP p + (if p b then 1 else 0) := by
  obtain ⟨hl, hset⟩ := set_split hi b
  rw [hset]
  conv_rhs => rw [hl]
  simp only [List.countP_append, List.countP_cons]
  omega

/-- Overwriting a slot takes away what the slot named and adds what it comes to name. -/
theorem count_flatMap_set {β : Type*} [DecidableEq β] {f : α → List β} {a : α} (hi : l[i]? = some a) (b : α) (x : β) :
    ((l.set i b).flatMap f).count x + (f a).count x = (l.flatMap f).count x + (f b).count x := by
  obtain ⟨hl, hset⟩ := set_split hi b
  rw [hset]
  conv_rhs => rw [hl]
  simp only [List.flatMap_append, List.flatMap_cons, List.count_append]
  omega

/-- Overwriting a slot by one with the same image leaves the image of the table. -/
theorem map_set_of_eq {β : Type*} {f : α → β} {a b : α} (hi : l[i]? = some a) (hf : f b = f a) :
    (l.set i b).map f = l.map f := by
  obtain ⟨hl, hset⟩ := set_split hi b
  rw [hset]
  conv_rhs => rw [hl]
  simp [hf]

/-- Members that a selection without repeats maps to the same value are the same. -/
theorem eq_of_filterMap_nodup {β : Type*} {f : α → Option β} {a b : α} {x : β}
    (hnodup : (l.filterMap f).Nodup) (ha : a ∈ l) (hb : b ∈ l) (hfa : f a = some x)
    (hfb : f b = some x) : a = b := by
  have hlater : ∀ {c : α} {l : List α}, c ∈ l → f c = some x → x ∈ l.filterMap f :=
    fun hc hfc => List.mem_filterMap.mpr ⟨_, hc, hfc⟩
  induction l with
  | nil => simp at ha
  | cons c l ih =>
    have htail : (l.filterMap f).Nodup := by
      cases hc : f c with
      | none => simpa [List.filterMap_cons, hc] using hnodup
      | some y =>
        rw [List.filterMap_cons_some hc] at hnodup
        exact (List.nodup_cons.mp hnodup).2
    rcases List.mem_cons.mp ha with hac | hal
    · rcases List.mem_cons.mp hb with hbc | hbl
      · rw [hac, hbc]
      · rw [← hac, List.filterMap_cons_some hfa] at hnodup
        exact absurd (hlater hbl hfb) (List.nodup_cons.mp hnodup).1
    · rcases List.mem_cons.mp hb with hbc | hbl
      · rw [← hbc, List.filterMap_cons_some hfb] at hnodup
        exact absurd (hlater hal hfa) (List.nodup_cons.mp hnodup).1
      · exact ih htail hal hbl

end Slots
