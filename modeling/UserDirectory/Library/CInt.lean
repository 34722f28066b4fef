import Mathlib.Algebra.Group.Nat.Defs
import Mathlib.Algebra.Order.Group.Int

/-!
# C integers

The conversions between the integer types of a 64-bit platform: to `int`, which
keeps the last 32 bits as a signed number, and to `size_t`, which keeps the
last 64 bits. Both leave alone the numbers that fit. A calculation with `int`s is
made of the numbers they stand for, and converted back; so it wraps around where
it overflows.
-/

namespace CInt

/-- Conversion to a 32-bit `int`. -/
@[irreducible] def int32 (x : ℤ) : ℤ := x.bmod (2 ^ 32)

/-- Conversion to a 64-bit `size_t`. -/
@[irreducible] def sizeT (x : ℤ) : ℕ := (x % 2 ^ 64).toNat

theorem int32_natCast {n : ℕ} (h : n < 2 ^ 31) : int32 n = n := by
  rw [int32]
  apply Int.bmod_eq_of_le <;> omega

theorem sizeT_natCast {n : ℕ} (h : n < 2 ^ 64) : sizeT n = n := by
  rw [sizeT]
  omega

/-- An `int` is zero iff it was converted from a multiple of `2 ^ 32`. -/
theorem int32_eq_zero_iff {n : ℕ} : int32 n = 0 ↔ n % 2 ^ 32 = 0 := by
  rw [int32, Int.bmod_def]
  split <;> omega

/-- Subtraction may be converted early. -/
theorem int32_sub (x y : ℤ) : int32 (int32 x - y) = int32 (x - y) := by
  simp only [int32, Int.bmod_sub_bmod]

/-- Addition may be converted early. -/
theorem int32_add (x y : ℤ) : int32 (int32 x + y) = int32 (x + y) := by
  simp only [int32, Int.bmod_add_bmod]

/-- An amount of less than `2 ^ 32`, converted to `int`, is not passed by any amount of less
    than `2 ^ 31` that is within it as a `size_t`. -/
theorem le_of_le_sizeT {k n : ℕ} (hn : n < 2 ^ 32) (hk : k < 2 ^ 31) (h : k ≤ sizeT (int32 n)) :
    k ≤ n := by
  by_cases hlt : n < 2 ^ 31
  · rwa [int32_natCast hlt, sizeT_natCast (by omega)] at h
  · omega

/-- The amounts from `2 ^ 31` on grow when they are converted to `int` and then to `size_t`. -/
theorem lt_sizeT_int32 {n : ℕ} (hlow : 2 ^ 31 ≤ n) (hhigh : n < 2 ^ 32) :
    n < sizeT (int32 n) := by
  rw [sizeT, int32, Int.bmod_def]
  split <;> omega

/-- An `int` other than zero gives a positive `size_t`. -/
theorem sizeT_int32_pos {x : ℤ} (h : int32 x ≠ 0) : 0 < sizeT (int32 x) := by
  have hlo := @Int.le_bmod x (2 ^ 32) (by decide)
  have hhi := @Int.bmod_lt x (2 ^ 32) (by decide)
  rw [sizeT]
  simp only [int32] at h ⊢
  omega

end CInt
