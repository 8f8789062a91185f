import Mathlib.Data.List.Sort

/-! First-in first-out lines kept in a table of slots: the waiting slots ordered by key, and
the history of a line as what entered it, what was handed out and what still waits. -/
namespace Fifo

open scoped List

variable {α β : Type*}

section Line

variable (key : α → ℕ) (p : α → Bool)

/-- The waiting slots, lowest key first. -/
def line (l : List α) : List α := (l.filter p).mergeSort fun a b => key a ≤ key b

/-- No two waiting slots share a key. -/
def Apart (l : List α) : Prop :=
  ∀ (i j : ℕ) (a b : α), l[i]? = some a → l[j]? = some b → p a → p b → key a = key b → i = j

variable {key p} {q : α → Bool} {l l' w : List α} {a b x : α} {i : ℕ}

theorem Apart.mono (h : Apart key p l) (hq : ∀ x, q x → p x) : Apart key q l :=
  fun i j a b hi hj ha hb => h i j a b hi hj (hq a ha) (hq b hb)

/-- A slot may be overwritten by one that waits under a key no other slot has. -/
theorem Apart.set (h : Apart key p l)
    (hb : p b → ∀ j c, j ≠ i → l[j]? = some c → p c → key c ≠ key b) : Apart key p (l.set i b) := by
  intro m n c d hm hn hc hd hkey
  rw [List.getElem?_set] at hm hn
  split_ifs at hm hn with him hil hin hin
  · rw [← him, ← hin]
  · cases hm
    exact absurd hkey.symm (hb hc n d (Ne.symm hin) hn hd)
  · cases hn
    exact absurd hkey (hb hd m c (Ne.symm him) hm hc)
  · exact h m n c d hm hn hc hd hkey

/-- A slot may change in any way that keeps its key and starts no wait. -/
theorem Apart.update (h : Apart key p l) (hi : l[i]? = some a) (hkey : key b = key a)
    (hp : p b → p a) : Apart key p (l.set i b) := by
  refine h.set ?_
  intro hb j c hji hj hc heq
  exact hji (h j i c a hj hi hc (hp hb) (heq.trans hkey))

theorem mem_line : x ∈ line key p l ↔ x ∈ l ∧ p x := by
  rw [line, List.mem_mergeSort, List.mem_filter]

theorem Apart.pairwise_ne (h : Apart key p l) : (l.filter p).Pairwise fun a b => key a ≠ key b := by
  rw [List.pairwise_filter, List.pairwise_iff_getElem]
  intro i j hi hj hij ha hb heq
  have := h i j _ _ (List.getElem?_eq_getElem hi) (List.getElem?_eq_getElem hj) ha hb heq
  omega

theorem Apart.pairwise_line (h : Apart key p l) :
    (line key p l).Pairwise fun a b => key a < key b := by
  have hle : (line key p l).Pairwise fun a b => key a ≤ key b := by
    refine (List.pairwise_mergeSort ?_ ?_ _).imp (fun hab => of_decide_eq_true hab)
    · intro a b c hab hbc
      simp only [decide_eq_true_eq] at hab hbc ⊢
      omega
    · intro a b
      simp only [Bool.or_eq_true, decide_eq_true_eq]
      omega
  have hne : (line key p l).Pairwise fun a b => key a ≠ key b :=
    ((List.mergeSort_perm _ _).pairwise_iff (fun hab => Ne.symm hab)).mpr h.pairwise_ne
  exact hle.imp₂ (fun _ _ hab hn => Nat.lt_of_le_of_ne hab hn) hne

private theorem nodup_of_lt (h : w.Pairwise fun a b => key a < key b) : w.Nodup := by
  refine h.imp ?_
  rintro a b hab rfl
  exact Nat.lt_irrefl _ hab

/-- An ordered list that loses nothing but members stays in line. -/
theorem sublist_line (h : Apart key p l) (hw : w.Pairwise fun a b => key a < key b)
    (hmem : ∀ x ∈ w, x ∈ l ∧ p x) : w <+ line key p l := by
  have hsub : w <+~ line key p l :=
    List.subperm_of_subset (nodup_of_lt hw) fun x hx => mem_line.mpr (hmem x hx)
  obtain ⟨v, hperm, hv⟩ := hsub
  have hpv := h.pairwise_line.sublist hv
  have : v = w := hperm.eq_of_pairwise (fun a b _ _ hab hba => absurd hab (Nat.lt_asymm hba)) hpv hw
  exact this ▸ hv

/-- An ordered list with the right members is the line. -/
theorem line_eq (h : Apart key p l) (hw : w.Pairwise fun a b => key a < key b)
    (hmem : ∀ x, x ∈ w ↔ x ∈ l ∧ p x) : line key p l = w := by
  refine ((sublist_line h hw fun x hx => (hmem x).mp hx).eq_of_length_le ?_).symm
  exact (List.subperm_of_subset (nodup_of_lt h.pairwise_line)
    fun x hx => (hmem x).mpr (mem_line.mp hx)).length_le

theorem mem_set_of_ne (hi : l[i]? = some a) (hne : x ≠ a) (hx : x ∈ l) : x ∈ l.set i b := by
  obtain ⟨j, hj⟩ := List.mem_iff_getElem?.mp hx
  refine List.mem_iff_getElem?.mpr ⟨j, ?_⟩
  rw [List.getElem?_set_ne]
  · exact hj
  · rintro rfl
    exact hne (Option.some.inj (hj.symm.trans hi))

/-- Serving the waiting slot with the lowest key serves the head of the line. -/
theorem line_serve (h : Apart key p l) (hi : l[i]? = some a) (ha : p a) (hb : p b = false)
    (hlow : ∀ x ∈ l, p x → key a ≤ key x) : line key p l = a :: line key p (l.set i b) := by
  have hset : Apart key p (l.set i b) := h.set (fun hpb => by simp [hb] at hpb)
  have hmem : ∀ x, x ∈ l.set i b ∧ p x ↔ x ∈ l ∧ p x ∧ x ≠ a := by
    intro x
    constructor
    · rintro ⟨hx, hpx⟩
      obtain ⟨j, hj⟩ := List.mem_iff_getElem?.mp hx
      rw [List.getElem?_set] at hj
      split_ifs at hj with hij
      · cases hj
        simp [hb] at hpx
      · refine ⟨List.mem_iff_getElem?.mpr ⟨j, hj⟩, hpx, ?_⟩
        rintro rfl
        exact hij (h i j x x hi hj hpx hpx rfl)
    · rintro ⟨hx, hpx, hne⟩
      exact ⟨mem_set_of_ne hi hne hx, hpx⟩
  refine line_eq h (List.pairwise_cons.mpr ⟨?_, hset.pairwise_line⟩) ?_
  · intro x hx
    obtain ⟨hxl, hpx, hne⟩ := (hmem x).mp (mem_line.mp hx)
    refine Nat.lt_of_le_of_ne (hlow x hxl hpx) ?_
    intro heq
    obtain ⟨j, hj⟩ := List.mem_iff_getElem?.mp hxl
    have := h i j a x hi hj ha hpx heq
    subst this
    exact hne (Option.some.inj (hj.symm.trans hi))
  · intro x
    rw [List.mem_cons, mem_line, hmem]
    constructor
    · rintro (rfl | ⟨hx, hpx, -⟩)
      · exact ⟨List.mem_of_getElem? hi, ha⟩
      · exact ⟨hx, hpx⟩
    · rintro ⟨hx, hpx⟩
      by_cases hxa : x = a
      · exact .inl hxa
      · exact .inr ⟨hx, hpx, hxa⟩

/-- A slot that starts to wait under the highest key joins the end of the line. -/
theorem line_join (h : Apart key p l) (hi : l[i]? = some a) (ha : p a = false) (hb : p b)
    (hhigh : ∀ x ∈ l, p x → key x < key b) : line key p (l.set i b) = line key p l ++ [b] := by
  have hset : Apart key p (l.set i b) := by
    refine h.set ?_
    intro _ j c _ hj hc heq
    have := hhigh c (List.mem_of_getElem? hj) hc
    omega
  have hlt : i < l.length := (List.getElem?_eq_some_iff.mp hi).1
  refine line_eq hset (List.pairwise_append.mpr ⟨h.pairwise_line, List.pairwise_singleton _ _, ?_⟩) ?_
  · intro x hx y hy
    rw [List.mem_singleton.mp hy]
    exact hhigh x (mem_line.mp hx).1 (mem_line.mp hx).2
  · intro x
    rw [List.mem_append, List.mem_singleton, mem_line]
    constructor
    · rintro (⟨hx, hpx⟩ | rfl)
      · refine ⟨mem_set_of_ne hi ?_ hx, hpx⟩
        rintro rfl
        simp [ha] at hpx
      · exact ⟨List.mem_set hlt _, hb⟩
    · rintro ⟨hx, hpx⟩
      rcases List.mem_or_eq_of_mem_set hx with hx | rfl
      · exact .inl ⟨hx, hpx⟩
      · exact .inr rfl

/-- A slot outside the line may become any other slot outside it. -/
theorem line_set_of_not (h : Apart key p l) (hi : l[i]? = some a) (ha : p a = false)
    (hb : p b = false) : line key p (l.set i b) = line key p l := by
  have hset : Apart key p (l.set i b) := h.set (fun hpb => by simp [hb] at hpb)
  refine line_eq hset h.pairwise_line ?_
  intro x
  rw [mem_line]
  constructor
  · rintro ⟨hx, hpx⟩
    refine ⟨mem_set_of_ne hi ?_ hx, hpx⟩
    rintro rfl
    simp [ha] at hpx
  · rintro ⟨hx, hpx⟩
    rcases List.mem_or_eq_of_mem_set hx with hx | rfl
    · exact ⟨hx, hpx⟩
    · simp [hb] at hpx

/-- A line that only loses members keeps its order. -/
theorem line_sublist (h : Apart key p l) (h' : Apart key p l') (hsub : ∀ x ∈ l', p x → x ∈ l) :
    line key p l' <+ line key p l := by
  refine sublist_line h h'.pairwise_line ?_
  intro x hx
  obtain ⟨hx, hpx⟩ := mem_line.mp hx
  exact ⟨hsub x hx hpx, hpx⟩

end Line

/-- What entered a line, what was handed out of it and what still waits. -/
structure History (β : Type*) where
  entered : List β
  handed : List β
  waiting : List β

/-- Everything leaves in the order it entered. -/
def History.Ordered (h : History β) : Prop := h.handed ++ h.waiting <+ h.entered

namespace History.Ordered

variable {entered handed waiting waiting' : List β}

theorem enter (h : Ordered ⟨entered, handed, waiting⟩) (x : β) :
    Ordered ⟨entered ++ [x], handed, waiting ++ [x]⟩ := by
  unfold Ordered
  rw [← List.append_assoc]
  exact List.Sublist.append h (List.Sublist.refl _)

theorem hand {x : β} (h : Ordered ⟨entered, handed, x :: waiting⟩) :
    Ordered ⟨entered, handed ++ [x], waiting⟩ := by
  unfold Ordered at h ⊢
  rwa [List.append_assoc, List.singleton_append]

theorem drop (h : Ordered ⟨entered, handed, waiting⟩) (hw : waiting' <+ waiting) :
    Ordered ⟨entered, handed, waiting'⟩ :=
  List.Sublist.trans ((List.Sublist.refl _).append hw) h

theorem handed_sublist (h : Ordered ⟨entered, handed, waiting⟩) : handed <+ entered :=
  (List.sublist_append_left _ _).trans h

end History.Ordered

end Fifo
