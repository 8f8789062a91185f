import Mathlib.Data.List.Basic
import Mathlib.Data.Nat.Notation

/-! Memory as a map from addresses, read and written in blocks. -/
namespace Memory

variable {α : Type*} {m m' : ℕ → α} {bs : List α} {start other n k : ℕ}

/-- The block of `n` cells from `start` on. -/
def read (m : ℕ → α) (start n : ℕ) : List α := (List.range n).map fun i => m (start + i)

def write (m : ℕ → α) (start : ℕ) (bs : List α) : ℕ → α := fun i =>
  if h : start ≤ i ∧ i < start + bs.length then bs.get ⟨i - start, by omega⟩ else m i

/-- A block is copied as through a block of its own, so that the two may overlap. -/
def move (m : ℕ → α) (target source n : ℕ) : ℕ → α := write m target (read m source n)

@[simp] theorem length_read : (read m start n).length = n := by rw [read, List.length_map, List.length_range]

@[simp] theorem read_zero : read m start 0 = [] := rfl

theorem read_congr (h : ∀ i, start ≤ i → i < start + n → m i = m' i) : read m start n = read m' start n := by
  apply List.map_congr_left
  intro i hi
  have hlt := List.mem_range.mp hi
  exact h (start + i) (by omega) (by omega)

theorem read_add : read m start (n + k) = read m start n ++ read m (start + n) k := by
  rw [read, List.range_add, List.map_append, List.map_map]
  congr 1
  apply List.map_congr_left
  intro i _
  rw [Function.comp_apply, Nat.add_assoc]

theorem read_write_self : read (write m start bs) start bs.length = bs := by
  apply List.ext_getElem
  · rw [length_read]
  · intro i hi hi'
    have hin : start ≤ start + i ∧ start + i < start + bs.length := ⟨by omega, by omega⟩
    simp only [read, List.getElem_map, List.getElem_range, write, hin, and_self, dite_true, List.get_eq_getElem,
      Nat.add_sub_cancel_left]

theorem read_write_of_disjoint (h : other + n ≤ start ∨ start + bs.length ≤ other) :
    read (write m start bs) other n = read m other n := by
  apply read_congr
  intro i hlow hhigh
  rw [write, dif_neg (by omega)]

end Memory
