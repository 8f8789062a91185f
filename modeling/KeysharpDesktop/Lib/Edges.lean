import Mathlib.Data.Nat.Find
import Mathlib.Tactic.Linarith

/-! A line of cells drawn on a line of pixels: where the edges of the cells go to is monotone, so that every pixel lies
in one cell, and the centres of pixels sample a line of any other length. -/
namespace Edges

/-- The edges of `cells` cells among the edges of `pixels` pixels. -/
structure Scales (edge : ℕ → ℕ) (cells pixels : ℕ) : Prop where
  first : edge 0 = 0
  last : edge cells = pixels
  mono : ∀ a b, a ≤ b → b ≤ cells → edge a ≤ edge b

/-- The last cell that begins at or before a pixel. -/
def cell (edge : ℕ → ℕ) (cells pixel : ℕ) : ℕ := Nat.findGreatest (fun a => edge a ≤ pixel) cells

variable {edge : ℕ → ℕ} {cells pixels pixel a b : ℕ}

theorem Scales.le_iff (h : Scales edge cells pixels) (ha : a ≤ cells) : edge a ≤ pixel ↔ a ≤ cell edge cells pixel := by
  constructor
  · intro hedge
    exact Nat.le_findGreatest ha hedge
  · intro hcell
    have hfirst : edge 0 ≤ pixel := by
      rw [h.first]
      exact Nat.zero_le pixel
    have hfound : edge (cell edge cells pixel) ≤ pixel :=
      Nat.findGreatest_spec (P := fun a => edge a ≤ pixel) (Nat.zero_le cells) hfirst
    exact Nat.le_trans (h.mono a _ hcell (Nat.findGreatest_le cells)) hfound

theorem Scales.cell_lt (h : Scales edge cells pixels) (hpixel : pixel < pixels) : cell edge cells pixel < cells := by
  apply Nat.lt_of_not_le
  intro hcell
  have hlast := (h.le_iff (Nat.le_refl cells)).mpr hcell
  rw [h.last] at hlast
  omega

/-- A pixel is between two edges when its cell is. -/
theorem Scales.between_iff (h : Scales edge cells pixels) (pixel : ℕ) (ha : a ≤ cells) (hb : b ≤ cells) :
    edge a ≤ pixel ∧ pixel < edge b ↔ a ≤ cell edge cells pixel ∧ cell edge cells pixel < b := by
  rw [h.le_iff ha, ← Nat.not_le, ← Nat.not_le, h.le_iff hb]

theorem Scales.le_pixels (h : Scales edge cells pixels) (ha : a ≤ cells) : edge a ≤ pixels := by
  have hle := h.mono a cells ha (Nat.le_refl cells)
  rwa [h.last] at hle

/-- The sample under the centre of pixel `i` of `n`, on a line of `length` samples. -/
def sample (i n length : ℕ) : ℕ := (i * 2 + 1) * length / (n * 2)

theorem sample_lt {i n length : ℕ} (hi : i < n) (hlength : 0 < length) : sample i n length < length := by
  unfold sample
  rw [Nat.div_lt_iff_lt_mul (by omega), Nat.mul_comm length]
  exact Nat.mul_lt_mul_of_pos_right (by omega) hlength

end Edges
