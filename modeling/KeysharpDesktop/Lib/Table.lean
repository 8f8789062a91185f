import Mathlib.Algebra.GroupWithZero.Nat
import Mathlib.Algebra.Order.BigOperators.Group.List
import Mathlib.Algebra.Order.Group.Nat
import Mathlib.Data.List.AList

/-! Tables with one value at each key: selecting and rewriting the values, and the total of a weight over a table. -/

abbrev Table (κ β : Type*) := AList fun _ : κ => β

namespace Table

variable {κ β : Type*}

/-- The entries whose values meet a condition. -/
def keep (p : β → Bool) (t : Table κ β) : Table κ β where
  entries := t.entries.filter fun e => p e.2
  nodupKeys := t.nodupKeys.sublist List.filter_sublist

def alter (g : β → β) (t : Table κ β) : Table κ β where
  entries := t.entries.map fun e => ⟨e.1, g e.2⟩
  nodupKeys := t.nodupKeys.map₂ (fun _ => g) t.entries

/-- The sum of a weight over the values. -/
def total (f : β → ℕ) (t : Table κ β) : ℕ := (t.entries.map fun e => f e.2).sum

def size (t : Table κ β) : ℕ := t.entries.length

variable {t : Table κ β} {k l : κ} {b c : β} {p : β → Bool} {g : β → β} {f : β → ℕ}

theorem total_le_of_sublist {s : Table κ β} (h : s.entries.Sublist t.entries) : s.total f ≤ t.total f :=
  (h.map _).sum_le_sum fun _ _ => Nat.zero_le _

theorem total_keep : (t.keep p).total f = t.total fun b => if p b then f b else 0 := by
  change ((t.entries.filter fun e => p e.2).map fun e => f e.2).sum =
    (t.entries.map fun e => if p e.2 then f e.2 else 0).sum
  induction t.entries with
  | nil => rfl
  | cons e l ih => by_cases h : p e.2 <;> simp [h, ih]

theorem total_alter (h : ∀ b, f (g b) = f b) : (t.alter g).total f = t.total f := by
  simp [total, alter, Function.comp_def, h]

theorem size_eq_total : t.size = t.total fun _ => 1 := by
  simp [size, total]

variable [DecidableEq κ]

theorem mem_entries : (⟨k, b⟩ : Sigma fun _ : κ => β) ∈ t.entries ↔ t.lookup k = some b :=
  AList.mem_lookup_iff.symm

theorem lookup_of_sublist {s : Table κ β} (h : s.entries.Sublist t.entries) (hb : s.lookup k = some b) :
    t.lookup k = some b :=
  mem_entries.mp (h.subset (mem_entries.mpr hb))

theorem lookup_keep : (t.keep p).lookup k = some b ↔ t.lookup k = some b ∧ p b := by
  rw [← mem_entries, ← mem_entries]
  exact List.mem_filter

theorem lookup_alter : (t.alter g).lookup k = some c ↔ ∃ b, t.lookup k = some b ∧ g b = c := by
  rw [← mem_entries]
  constructor
  · intro h
    obtain ⟨⟨l, b⟩, hmem, heq⟩ := List.mem_map.mp h
    cases heq
    exact ⟨b, mem_entries.mp hmem, rfl⟩
  · rintro ⟨b, hb, rfl⟩
    exact List.mem_map.mpr ⟨⟨k, b⟩, mem_entries.mpr hb, rfl⟩

theorem lookup_erase : (t.erase k).lookup l = some b ↔ l ≠ k ∧ t.lookup l = some b := by
  by_cases h : l = k
  · subst h
    simp
  · simp [h]

theorem lookup_insert : (t.insert k b).lookup l = some c ↔ l = k ∧ b = c ∨ l ≠ k ∧ t.lookup l = some c := by
  by_cases h : l = k
  · subst h
    simp
  · simp [h]

theorem erase_of_lookup (h : t.lookup k = none) : t.erase k = t := by
  apply AList.ext
  exact List.kerase_of_notMem_keys (AList.lookup_eq_none.mp h)

/-- Inserting at a key that was just removed is inserting. -/
theorem insert_erase : (t.erase k).insert k b = t.insert k b := by
  apply AList.ext
  change _ :: ((t.erase k).erase k).entries = _ :: (t.erase k).entries
  rw [erase_of_lookup (AList.lookup_erase k t)]

/-- Removing what was just inserted is removing what was there. -/
theorem erase_insert : (t.insert k b).erase k = t.erase k := by
  apply AList.ext
  exact List.kerase_cons_eq rfl

theorem total_insert : total f (t.insert k b) = f b + total f (t.erase k) := rfl

/-- A weight splits into the value at a key and the rest. -/
theorem total_of_lookup (h : t.lookup k = some b) : t.total f = f b + total f (t.erase k) := by
  have hperm : t.entries.Perm (⟨k, b⟩ :: (t.erase k).entries) := by
    apply List.lookup_ext t.nodupKeys
    · exact (t.insert k b).nodupKeys
    · intro l c
      change c ∈ t.lookup l ↔ c ∈ (t.insert k b).lookup l
      rw [Option.mem_def, Option.mem_def, lookup_insert]
      by_cases hl : l = k
      · subst hl
        simp [h]
      · simp [hl]
  unfold total
  rw [(hperm.map _).sum_eq]
  rfl

/-- What an insertion adds to a total, and what it takes away of the value that was there. -/
theorem total_insert_add : total f (t.insert k b) + (t.lookup k).elim 0 f = t.total f + f b := by
  rw [total_insert]
  cases h : t.lookup k with
  | none =>
    rw [erase_of_lookup h]
    simp [Nat.add_comm]
  | some c =>
    rw [total_of_lookup h]
    simp only [Option.elim_some]
    omega

end Table
