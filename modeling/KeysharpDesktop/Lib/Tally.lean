import Mathlib.Data.List.Basic
import Mathlib.Data.List.Count
import Mathlib.Data.List.Perm.Subperm
import KeysharpDesktop.Lib.Slots

/-! Counting in a fixed table: one slot for each key that is held, with the number of times it is held;
a slot whose count is zero is free and its key means nothing. -/
namespace Tally

variable {κ : Type*} [DecidableEq κ]

structure Slot (κ : Type*) where
  key : κ
  count : ℕ
  deriving DecidableEq, Repr

/-- One pass over the table: the slot that counts the key ends it, and the first free slot is kept in mind. -/
def findFrom (key : κ) : List (Slot κ) → ℕ → Option ℕ → Option ℕ
  | [], _, empty => empty
  | slot :: slots, index, empty =>
    if slot.count ≠ 0 ∧ slot.key = key then some index
    else findFrom key slots (index + 1) (if empty = none ∧ slot.count = 0 then some index else empty)

def find (slots : List (Slot κ)) (key : κ) : Option ℕ := findFrom key slots 0 none

def add (slots : List (Slot κ)) (index : ℕ) (key : κ) : List (Slot κ) :=
  slots.modify index fun slot => ⟨key, slot.count + 1⟩

def release (slots : List (Slot κ)) (key : κ) : List (Slot κ) :=
  match find slots key with
  | none => slots
  | some index =>
    slots.modify index fun slot =>
      if slot.count ≠ 0 ∧ slot.key = key then { slot with count := slot.count - 1 } else slot

section Search

variable {slots : List (Slot κ)} {key : κ} {i : ℕ}

/-- No slot counts the key. -/
def Absent (slots : List (Slot κ)) (key : κ) : Prop := ∀ slot ∈ slots, slot.count ≠ 0 → slot.key ≠ key

/-- What a search that starts at `index` can find. -/
inductive Found (slots : List (Slot κ)) (key : κ) (index : ℕ) (empty : Option ℕ) : Option ℕ → Prop
  | counted (i : ℕ) (slot : Slot κ) (here : slots[i]? = some slot) (live : slot.count ≠ 0) (same : slot.key = key) :
      Found slots key index empty (some (index + i))
  | free (i : ℕ) (slot : Slot κ) (here : slots[i]? = some slot) (free : slot.count = 0) (absent : Absent slots key) :
      Found slots key index empty (some (index + i))
  | kept (absent : Absent slots key) (full : empty = none → ∀ slot ∈ slots, slot.count ≠ 0) :
      Found slots key index empty empty

theorem findFrom_found (slots : List (Slot κ)) (key : κ) (index : ℕ) (empty : Option ℕ) :
    Found slots key index empty (findFrom key slots index empty) := by
  induction slots generalizing index empty with
  | nil => exact .kept (fun _ h => absurd h List.not_mem_nil) fun _ _ h => absurd h List.not_mem_nil
  | cons slot slots ih =>
    by_cases hcounted : slot.count ≠ 0 ∧ slot.key = key
    · rw [findFrom, if_pos hcounted]
      exact .counted 0 slot rfl hcounted.1 hcounted.2
    · have habsent : Absent slots key → Absent (slot :: slots) key := by
        intro h other hother hlive
        rcases List.mem_cons.mp hother with rfl | hother
        · exact fun hkey => hcounted ⟨hlive, hkey⟩
        · exact h other hother hlive
      rw [findFrom, if_neg hcounted]
      generalize hkept : (if empty = none ∧ slot.count = 0 then some index else empty) = kept
      have hrest := ih (index + 1) kept
      generalize findFrom key slots (index + 1) kept = result at hrest
      cases hrest with
      | counted i other hat hlive hsame =>
        rw [Nat.add_right_comm, Nat.add_assoc]
        exact .counted (i + 1) other hat hlive hsame
      | free i other hat hfree hnone =>
        rw [Nat.add_right_comm, Nat.add_assoc]
        exact .free (i + 1) other hat hfree (habsent hnone)
      | kept hnone hfull =>
        by_cases hfirst : empty = none ∧ slot.count = 0
        · rw [if_pos hfirst] at hkept
          rw [← hkept]
          exact .free 0 slot rfl hfirst.2 (habsent hnone)
        · rw [if_neg hfirst] at hkept
          subst hkept
          refine .kept (habsent hnone) fun hempty other hother => ?_
          rcases List.mem_cons.mp hother with rfl | hother
          · exact fun hzero => hfirst ⟨hempty, hzero⟩
          · exact hfull hempty other hother

/-- The slot that a search gives counts the key, or is free where no slot counts it. -/
theorem find_some (h : find slots key = some i) :
    ∃ slot, slots[i]? = some slot ∧ (slot.count ≠ 0 ∧ slot.key = key ∨ slot.count = 0 ∧ Absent slots key) := by
  have hfound := findFrom_found slots key 0 none
  rw [show findFrom key slots 0 none = some i from h] at hfound
  generalize hresult : some i = result at hfound
  cases hfound with
  | counted j slot hat hlive hsame =>
    rw [Nat.zero_add] at hresult
    cases hresult
    exact ⟨slot, hat, .inl ⟨hlive, hsame⟩⟩
  | free j slot hat hfree hnone =>
    rw [Nat.zero_add] at hresult
    cases hresult
    exact ⟨slot, hat, .inr ⟨hfree, hnone⟩⟩
  | kept => cases hresult

theorem find_none (h : find slots key = none) : Absent slots key ∧ ∀ slot ∈ slots, slot.count ≠ 0 := by
  have hfound := findFrom_found slots key 0 none
  rw [show findFrom key slots 0 none = none from h] at hfound
  cases hfound with
  | kept habsent hfull => exact ⟨habsent, hfull rfl⟩

end Search

section Exact

variable {slots before after : List (Slot κ)} {held held' : List κ} {key : κ} {old new : Slot κ} {i : ℕ}

def liveKeys (slots : List (Slot κ)) : List κ := (slots.filter fun slot => slot.count ≠ 0).map Slot.key

/-- The table counts what is held: one live slot for each key, with the number of times it is held. -/
structure Exact (slots : List (Slot κ)) (held : List κ) : Prop where
  distinct : (liveKeys slots).Nodup
  counts : ∀ slot ∈ slots, slot.count ≠ 0 → slot.count = held.count slot.key
  present : ∀ key ∈ held, key ∈ liveKeys slots

omit [DecidableEq κ] in
theorem mem_liveKeys : key ∈ liveKeys slots ↔ ∃ slot ∈ slots, slot.count ≠ 0 ∧ slot.key = key := by
  simp [liveKeys, and_assoc]

omit [DecidableEq κ] in
theorem liveKeys_append (before after : List (Slot κ)) :
    liveKeys (before ++ after) = liveKeys before ++ liveKeys after := by
  simp [liveKeys]

theorem Exact.perm (h : Exact slots held) (hperm : held.Perm held') : Exact slots held' := by
  refine ⟨h.distinct, fun slot hslot hlive => ?_, fun key hkey => h.present key (hperm.mem_iff.mpr hkey)⟩
  rw [h.counts slot hslot hlive, hperm.count_eq]

theorem exact_nil (h : ∀ slot ∈ slots, slot.count = 0) : Exact slots ([] : List κ) := by
  have hnone : slots.filter (fun slot => slot.count ≠ 0) = [] := by
    rw [List.filter_eq_nil_iff]
    intro slot hslot
    simp [h slot hslot]
  refine ⟨?_, fun slot hslot hlive => absurd (h slot hslot) hlive, fun key hkey => absurd hkey List.not_mem_nil⟩
  rw [liveKeys, hnone]
  exact List.nodup_nil

theorem Exact.notMem (h : Exact slots held) (habsent : Absent slots key) : key ∉ held := by
  intro hkey
  obtain ⟨slot, hslot, hlive, hsame⟩ := mem_liveKeys.mp (h.present key hkey)
  exact habsent slot hslot hlive hsame

/-- One slot may be rewritten where it alone is about the key and comes to count what is held of it. -/
theorem Exact.replace (h : Exact (before ++ old :: after) held)
    (hothers : ∀ slot ∈ before ++ after, slot.count ≠ 0 → slot.key ≠ key)
    (hold : old.count ≠ 0 → old.key = key) (hkey : new.key = key) (hcount : new.count = held'.count key)
    (hrest : ∀ k, k ≠ key → held'.count k = held.count k) : Exact (before ++ new :: after) held' := by
  have hapart : key ∉ liveKeys (before ++ after) := by
    intro hmem
    obtain ⟨slot, hslot, hlive, hsame⟩ := mem_liveKeys.mp hmem
    exact hothers slot hslot hlive hsame
  have hdistinct : (liveKeys (before ++ after)).Nodup := by
    refine List.Nodup.sublist ?_ h.distinct
    rw [liveKeys_append, liveKeys_append]
    apply List.Sublist.append (List.Sublist.refl _)
    exact ((List.sublist_cons_self old after).filter _).map _
  refine ⟨?_, ?_, ?_⟩
  · by_cases hlive : new.count = 0
    · have hsame : liveKeys (before ++ new :: after) = liveKeys (before ++ after) := by simp [liveKeys, hlive]
      rwa [hsame]
    · have hperm : (liveKeys (before ++ new :: after)).Perm (key :: liveKeys (before ++ after)) := by
        rw [liveKeys_append, liveKeys_append]
        have hcons : liveKeys (new :: after) = key :: liveKeys after := by simp [liveKeys, hlive, hkey]
        rw [hcons]
        exact List.perm_middle
      rw [hperm.nodup_iff]
      exact List.nodup_cons.mpr ⟨hapart, hdistinct⟩
  · intro slot hslot hlive
    rcases List.mem_append.mp hslot with hslot | hslot
    · have hmem : slot ∈ before ++ after := List.mem_append_left _ hslot
      rw [hrest _ (hothers slot hmem hlive)]
      exact h.counts slot (List.mem_append_left _ hslot) hlive
    · rcases List.mem_cons.mp hslot with rfl | hslot
      · rw [hcount, hkey]
      · have hmem : slot ∈ before ++ after := List.mem_append_right _ hslot
        rw [hrest _ (hothers slot hmem hlive)]
        exact h.counts slot (List.mem_append_right _ (List.mem_cons_of_mem _ hslot)) hlive
  · intro k hk
    by_cases hsame : k = key
    · subst hsame
      refine mem_liveKeys.mpr ⟨new, List.mem_append_right _ List.mem_cons_self, ?_, hkey⟩
      rw [hcount]
      exact Nat.ne_of_gt (List.count_pos_iff.mpr hk)
    · have hheld : k ∈ held := by
        rw [← List.count_pos_iff, ← hrest k hsame]
        exact List.count_pos_iff.mpr hk
      obtain ⟨slot, hslot, hlive, rfl⟩ := mem_liveKeys.mp (h.present k hheld)
      refine mem_liveKeys.mpr ⟨slot, ?_, hlive, rfl⟩
      rcases List.mem_append.mp hslot with hslot | hslot
      · exact List.mem_append_left _ hslot
      · rcases List.mem_cons.mp hslot with rfl | hslot
        · exact absurd (hold hlive) hsame
        · exact List.mem_append_right _ (List.mem_cons_of_mem _ hslot)

/-- A live slot is the only one about its key. -/
theorem Exact.others (h : Exact (before ++ old :: after) held) (hlive : old.count ≠ 0) :
    ∀ slot ∈ before ++ after, slot.count ≠ 0 → slot.key ≠ old.key := by
  intro slot hslot hslotlive hsame
  have hperm : (liveKeys (before ++ old :: after)).Perm (old.key :: liveKeys (before ++ after)) := by
    rw [liveKeys_append, liveKeys_append]
    have hcons : liveKeys (old :: after) = old.key :: liveKeys after := by simp [liveKeys, hlive]
    rw [hcons]
    exact List.perm_middle
  have hnodup := hperm.nodup_iff.mp h.distinct
  exact (List.nodup_cons.mp hnodup).1 (mem_liveKeys.mpr ⟨slot, hslot, hslotlive, hsame⟩)

omit [DecidableEq κ] in
theorem modify_split {f : Slot κ → Slot κ} (h : slots[i]? = some old) :
    slots = slots.take i ++ old :: slots.drop (i + 1) ∧
      slots.modify i f = slots.take i ++ f old :: slots.drop (i + 1) := by
  have hset : slots.modify i f = slots.set i (f old) := by
    rw [List.modify_eq_set_getElem?, h]
    rfl
  rw [hset]
  exact Slots.set_split h _

/-- The slot of a search shows how often its key is held. -/
theorem Exact.count_find (h : Exact slots held) (hfind : find slots key = some i) :
    ∃ slot, slots[i]? = some slot ∧ slot.count = held.count key := by
  obtain ⟨slot, hslot, ⟨hlive, rfl⟩ | ⟨hfree, habsent⟩⟩ := find_some hfind
  · exact ⟨slot, hslot, h.counts slot (List.mem_of_getElem? hslot) hlive⟩
  · refine ⟨slot, hslot, ?_⟩
    rw [hfree, List.count_eq_zero.mpr (h.notMem habsent)]

theorem Exact.add (h : Exact slots held) (hfind : find slots key = some i) :
    Exact (add slots i key) (key :: held) := by
  obtain ⟨slot, hslot, hcount⟩ := h.count_find hfind
  obtain ⟨slot', hslot', hcases⟩ := find_some hfind
  rw [hslot] at hslot'
  cases hslot'
  obtain ⟨hsplit, hmodify⟩ := modify_split hslot (f := fun slot => ⟨key, slot.count + 1⟩)
  rw [Tally.add, hmodify]
  rw [hsplit] at h
  have hkey : (⟨key, slot.count + 1⟩ : Slot κ).key = key := rfl
  refine h.replace ?_ ?_ hkey ?_ ?_
  · rcases hcases with ⟨hlive, rfl⟩ | ⟨-, habsent⟩
    · exact h.others hlive
    · intro other hother
      apply habsent other
      rw [hsplit]
      exact (List.Sublist.append (List.Sublist.refl _) (List.sublist_cons_self _ _)).subset hother
  · rcases hcases with ⟨-, hsame⟩ | ⟨hfree, -⟩
    · exact fun _ => hsame
    · exact fun hlive => absurd hfree hlive
  · simp [hcount]
  · intro k hk
    exact List.count_cons_of_ne (Ne.symm hk)

theorem Exact.release (h : Exact slots held) (hkey : key ∈ held) :
    Exact (release slots key) (held.erase key) := by
  unfold Tally.release
  cases hfind : find slots key with
  | none => exact absurd hkey (h.notMem (find_none hfind).1)
  | some i =>
    obtain ⟨slot, hslot, ⟨hlive, hsame⟩ | ⟨-, habsent⟩⟩ := find_some hfind
    · obtain ⟨hsplit, hmodify⟩ := modify_split hslot
        (f := fun slot => if slot.count ≠ 0 ∧ slot.key = key then { slot with count := slot.count - 1 } else slot)
      have hcount := h.counts slot (List.mem_of_getElem? hslot) hlive
      show Exact (slots.modify i _) _
      rw [hmodify, if_pos ⟨hlive, hsame⟩]
      rw [hsplit] at h
      subst hsame
      refine h.replace (h.others hlive) (fun _ => rfl) rfl ?_ ?_
      · rw [hcount, List.count_erase_self]
      · intro k hk
        exact List.count_erase_of_ne hk
    · exact absurd hkey (h.notMem habsent)

/-- A search gives nothing only where as many different keys are held as there are slots. -/
theorem Exact.length_le (h : Exact slots held) (hfind : find slots key = none) : slots.length ≤ held.length := by
  have hall : slots.filter (fun slot => slot.count ≠ 0) = slots := by
    rw [List.filter_eq_self]
    intro slot hslot
    simpa using (find_none hfind).2 slot hslot
  have hlength : (liveKeys slots).length = slots.length := by rw [liveKeys, hall, List.length_map]
  have hsubset : liveKeys slots ⊆ held := by
    intro k hk
    obtain ⟨slot, hslot, hlive, rfl⟩ := mem_liveKeys.mp hk
    rw [← List.count_pos_iff, ← h.counts slot hslot hlive]
    exact Nat.pos_of_ne_zero hlive
  rw [← hlength]
  exact (List.subperm_of_subset h.distinct hsubset).length_le

omit [DecidableEq κ] in
theorem length_add (slots : List (Slot κ)) (i : ℕ) (key : κ) : (add slots i key).length = slots.length := by
  simp [add]

theorem length_release (slots : List (Slot κ)) (key : κ) : (release slots key).length = slots.length := by
  unfold release
  cases find slots key with
  | none => rfl
  | some i => simp

end Exact

section Holders

variable {α : Type*} {slots : List (Slot κ)} {l : List α} {p : α → Bool} {key : α → κ} {a b : α} {i j : ℕ}

/-- The table counts, by key, the members of a list that hold something. -/
def Counts (slots : List (Slot κ)) (l : List α) (p : α → Bool) (key : α → κ) : Prop :=
  Exact slots ((l.filter p).map key)

theorem Counts.congr (h : Counts slots l p key) {l' : List α}
    (hperm : ((l.filter p).map key).Perm ((l'.filter p).map key)) : Counts slots l' p key :=
  Exact.perm h hperm

/-- A member that comes to hold its key. -/
theorem Counts.take (h : Counts slots l p key) (hi : l[i]? = some a) (ha : p a = false) (hb : p b)
    (hkey : key b = key a) (hfind : find slots (key a) = some j) :
    Counts (add slots j (key a)) (l.set i b) p key := by
  have hperm := ((Slots.filter_set_perm hi ha hb).map key).symm
  rw [List.map_cons, hkey] at hperm
  exact (Exact.add h hfind).perm hperm

/-- A member that gives its key back. -/
theorem Counts.give (h : Counts slots l p key) (hi : l[i]? = some a) (ha : p a) (hb : p b = false) :
    Counts (release slots (key a)) (l.set i b) p key := by
  have hperm := (Slots.filter_perm_set hi ha hb).map key
  rw [List.map_cons] at hperm
  have hmem : key a ∈ (l.filter p).map key := hperm.mem_iff.mpr List.mem_cons_self
  refine (Exact.release h hmem).perm ?_
  have herase := hperm.erase (key a)
  rwa [List.erase_cons_head] at herase

omit [DecidableEq κ] in
/-- A member that changes in other ways holds what it held. -/
theorem map_filter_set (hi : l[i]? = some a) (hp : p b = p a) (hkey : key b = key a) :
    ((l.set i b).filter p).map key = (l.filter p).map key := by
  obtain ⟨hsplit, hset⟩ := Slots.set_split hi b
  rw [hset]
  conv_rhs => rw [hsplit]
  cases ha : p a with
  | true => simp [hp, ha, hkey]
  | false => simp [hp, ha]

theorem Counts.keep (h : Counts slots l p key) (hi : l[i]? = some a) (hp : p b = p a) (hkey : key b = key a) :
    Counts slots (l.set i b) p key := by
  rw [Counts, map_filter_set hi hp hkey]
  exact h

theorem Counts.join (h : Counts slots l p key) (hb : p b) (hfind : find slots (key b) = some j) :
    Counts (add slots j (key b)) (l ++ [b]) p key := by
  refine (Exact.add h hfind).perm ?_
  have hlast : ((l ++ [b]).filter p).map key = (l.filter p).map key ++ [key b] := by simp [hb]
  rw [hlast]
  exact (List.perm_append_singleton _ _).symm

theorem Counts.join_idle (h : Counts slots l p key) (hb : p b = false) : Counts slots (l ++ [b]) p key := by
  refine h.congr ?_
  simp [hb]

theorem eraseIdx_perm (hi : l[i]? = some a) : l.Perm (a :: l.eraseIdx i) := by
  obtain ⟨hlt, rfl⟩ := List.getElem?_eq_some_iff.mp hi
  exact (List.getElem_cons_eraseIdx_perm hlt).symm

theorem Counts.leave (h : Counts slots l p key) (hi : l[i]? = some a) (ha : p a) :
    Counts (release slots (key a)) (l.eraseIdx i) p key := by
  have hperm := ((eraseIdx_perm hi).filter p).map key
  rw [List.filter_cons_of_pos ha, List.map_cons] at hperm
  have hmem : key a ∈ (l.filter p).map key := hperm.mem_iff.mpr List.mem_cons_self
  refine (Exact.release h hmem).perm ?_
  have herase := hperm.erase (key a)
  rwa [List.erase_cons_head] at herase

theorem Counts.leave_idle (h : Counts slots l p key) (hi : l[i]? = some a) (ha : p a = false) :
    Counts slots (l.eraseIdx i) p key := by
  have hperm := ((eraseIdx_perm hi).filter p).map key
  have hidle : ¬p a = true := by simp [ha]
  rw [List.filter_cons_of_neg hidle] at hperm
  exact h.congr hperm

/-- While one member holds nothing, a search by it gives a slot. -/
theorem Counts.find_of_idle (h : Counts slots l p key) (hroom : l.length ≤ slots.length) (ha : a ∈ l)
    (hidle : p a = false) (k : κ) : ∃ j, find slots k = some j := by
  cases hfind : find slots k with
  | some j => exact ⟨j, rfl⟩
  | none =>
    have hle := Exact.length_le h hfind
    have hlt : (l.filter p).length < l.length := by
      rw [List.length_filter_lt_length_iff_exists]
      exact ⟨a, ha, by simp [hidle]⟩
    rw [List.length_map] at hle
    omega

/-- A search for a key that is held gives a slot. -/
theorem Counts.find_of_held (h : Counts slots l p key) (ha : a ∈ l) (hheld : p a) :
    ∃ j, find slots (key a) = some j := by
  cases hfind : find slots (key a) with
  | some j => exact ⟨j, rfl⟩
  | none =>
    have hmem : key a ∈ (l.filter p).map key := List.mem_map_of_mem (List.mem_filter.mpr ⟨ha, hheld⟩)
    exact absurd hmem (Exact.notMem h (find_none hfind).1)

/-- How often a key is held, as a search shows it. -/
theorem Counts.count_find (h : Counts slots l p key) {k : κ} (hfind : find slots k = some j) :
    ((slots[j]?.map Slot.count).getD 0) = ((l.filter p).map key).count k := by
  obtain ⟨slot, hslot, hcount⟩ := Exact.count_find h hfind
  rw [hslot]
  exact hcount

end Holders

section Limited

variable {α : Type*} {slots : List (Slot κ)} {l : List α} {p : α → Bool} {key : α → κ} {a b : α} {i j size cap : ℕ}

/-- A table of a fixed size that counts the holders, none of whose keys is held more often than a cap. -/
structure Limited (size cap : ℕ) (slots : List (Slot κ)) (l : List α) (p : α → Bool) (key : α → κ) : Prop where
  size : slots.length = size
  counts : Counts slots l p key
  below : ∀ k, ((l.filter p).map key).count k ≤ cap

theorem Limited.take (h : Limited size cap slots l p key) (hi : l[i]? = some a) (ha : p a = false) (hb : p b)
    (hkey : key b = key a) (hfind : find slots (key a) = some j)
    (hcap : (slots[j]?.map Slot.count).getD 0 < cap) : Limited size cap (add slots j (key a)) (l.set i b) p key := by
  rw [h.counts.count_find hfind] at hcap
  refine ⟨by rw [length_add, h.size], h.counts.take hi ha hb hkey hfind, fun k => ?_⟩
  rw [((Slots.filter_set_perm hi ha hb).map key).count_eq, List.map_cons, hkey, List.count_cons]
  have hbelow := h.below k
  split_ifs with hsame
  · rw [beq_iff_eq] at hsame
    rw [← hsame]
    exact hcap
  · exact hbelow

theorem Limited.give (h : Limited size cap slots l p key) (hi : l[i]? = some a) (ha : p a) (hb : p b = false) :
    Limited size cap (release slots (key a)) (l.set i b) p key := by
  refine ⟨by rw [length_release, h.size], h.counts.give hi ha hb, fun k => ?_⟩
  have hbelow := h.below k
  rw [((Slots.filter_perm_set hi ha hb).map key).count_eq, List.map_cons, List.count_cons] at hbelow
  omega

theorem Limited.keep (h : Limited size cap slots l p key) (hi : l[i]? = some a) (hp : p b = p a)
    (hkey : key b = key a) : Limited size cap slots (l.set i b) p key := by
  refine ⟨h.size, h.counts.keep hi hp hkey, fun k => ?_⟩
  rw [map_filter_set hi hp hkey]
  exact h.below k

theorem Limited.join_idle (h : Limited size cap slots l p key) (hb : p b = false) :
    Limited size cap slots (l ++ [b]) p key := by
  refine ⟨h.size, h.counts.join_idle hb, fun k => ?_⟩
  have hsame : (l ++ [b]).filter p = l.filter p := by simp [hb]
  rw [hsame]
  exact h.below k

theorem Limited.leave_idle (h : Limited size cap slots l p key) (hi : l[i]? = some a) (ha : p a = false) :
    Limited size cap slots (l.eraseIdx i) p key := by
  refine ⟨h.size, h.counts.leave_idle hi ha, fun k => ?_⟩
  have hsub : (((l.eraseIdx i).filter p).map key).Sublist ((l.filter p).map key) :=
    ((List.eraseIdx_sublist l i).filter p).map key
  exact Nat.le_trans (hsub.count_le k) (h.below k)

end Limited

end Tally
