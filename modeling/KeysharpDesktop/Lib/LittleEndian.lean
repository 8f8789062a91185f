import Mathlib.Data.Nat.ModEq
import Mathlib.Data.List.Basic
import Mathlib.Tactic.Ring
import Mathlib.Tactic.NormNum

/-! Little-endian words of a fixed number of bytes, over byte lists. -/
namespace LittleEndian

/-- The low `n` bytes of `k`, least significant first. -/
def bytes : ℕ → ℕ → List UInt8
  | 0, _ => []
  | n + 1, k => UInt8.ofNat k :: bytes n (k / 256)

/-- The number a byte list denotes, least significant byte first. -/
def value : List UInt8 → ℕ
  | [] => 0
  | b :: bs => b.toNat + 256 * value bs

@[simp] theorem length_bytes (n k : ℕ) : (bytes n k).length = n := by
  induction n generalizing k with
  | zero => rfl
  | succ n ih => simp [bytes, ih]

theorem value_bytes (n k : ℕ) : value (bytes n k) = k % 256 ^ n := by
  induction n generalizing k with
  | zero => simp [bytes, value, Nat.mod_one]
  | succ n ih =>
    simp only [bytes, value, ih, UInt8.toNat_ofNat', Nat.reducePow]
    rw [pow_succ, Nat.mul_comm (256 ^ n), Nat.mod_mul]

theorem value_lt (bs : List UInt8) : value bs < 256 ^ bs.length := by
  induction bs with
  | nil => simp [value]
  | cons b bs ih =>
    have hb := b.toNat_lt
    simp only [value, List.length_cons, pow_succ]
    omega

/-- Bytes are determined by their number and the value they denote. -/
theorem bytes_value (bs : List UInt8) : bytes bs.length (value bs) = bs := by
  induction bs with
  | nil => rfl
  | cons b bs ih =>
    have hb := b.toNat_lt
    have hdiv : (b.toNat + 256 * value bs) / 256 = value bs := by omega
    have hmod : UInt8.ofNat (b.toNat + 256 * value bs) = b := by
      apply UInt8.toNat_inj.mp
      rw [UInt8.toNat_ofNat']
      omega
    simp only [List.length_cons, bytes, value, hdiv, hmod, ih]

end LittleEndian
