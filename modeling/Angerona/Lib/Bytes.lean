import Mathlib.Data.List.Basic
import Mathlib.Tactic.Ring
import Mathlib.Tactic.Linarith

/-!
    Fixed-width little-endian integers. -/

namespace Bytes

/-- `n` in `k` bytes, least significant first. -/
def le : ℕ → ℕ → List UInt8
  | 0, _ => []
  | k + 1, n => UInt8.ofNat n :: le k (n / 256)

/-- The number a byte string stands for. -/
def unle : List UInt8 → ℕ
  | [] => 0
  | b :: bs => b.toNat + 256 * unle bs

@[simp] theorem length_le (k n : ℕ) : (le k n).length = k := by
  induction k generalizing n with
  | zero => rfl
  | succ k ih => simp [le, ih]

/-- A number that fits comes back. -/
theorem unle_le : ∀ {k n : ℕ}, n < 256 ^ k → unle (le k n) = n
  | 0, n, h => by
    have : n = 0 := by simpa using h
    rw [this]
    rfl
  | k + 1, n, h => by
    have hdiv : n / 256 < 256 ^ k := by
      rw [Nat.div_lt_iff_lt_mul (by decide), ← Nat.pow_succ]
      exact h
    rw [le, unle, unle_le hdiv, UInt8.toNat_ofNat']
    exact Nat.mod_add_div n 256

end Bytes
