import Mathlib.Data.Nat.Size
import Mathlib.Algebra.Group.Nat.Defs

/-!
# The bit length of a natural number

`Nat.size n` is the number of bits of `n`: the least `k` with `n < 2^k`.  Code that finds the
highest set bit of a word, by testing and shifting or after or-ing in a mask, computes it.
These are the facts such code needs: how the size changes under a right shift and under an or,
and the size of a block of ones.
-/

set_option autoImplicit false

namespace Nat

/-- A right shift by `k` takes `k` bits off, down to none. -/
theorem size_shiftRight (x k : ℕ) : (x >>> k).size = x.size - k := by
  apply Nat.le_antisymm
  · rw [size_le, shiftRight_eq_div_pow, Nat.div_lt_iff_lt_mul (Nat.two_pow_pos k), ← Nat.pow_add]
    calc x < 2 ^ x.size := lt_size_self x
      _ ≤ 2 ^ (x.size - k + k) := Nat.pow_le_pow_right (by decide) (by omega)
  · have h : x.size ≤ (x >>> k).size + k := by
      rw [size_le, Nat.pow_add, ← Nat.div_lt_iff_lt_mul (Nat.two_pow_pos k),
        ← shiftRight_eq_div_pow]
      exact lt_size_self _
    omega

/-- The bits of an or are those of its wider operand. -/
theorem size_or (x y : ℕ) : (x ||| y).size = max x.size y.size := by
  apply Nat.le_antisymm
  · rw [size_le]
    apply or_lt_two_pow
    · exact Nat.lt_of_lt_of_le (lt_size_self x)
        (Nat.pow_le_pow_right (by decide) (Nat.le_max_left _ _))
    · exact Nat.lt_of_lt_of_le (lt_size_self y)
        (Nat.pow_le_pow_right (by decide) (Nat.le_max_right _ _))
  · exact Nat.max_le.2 ⟨size_le_size left_le_or, size_le_size right_le_or⟩

/-- `k` ones take `k` bits. -/
theorem size_two_pow_sub_one (k : ℕ) : (2 ^ k - 1).size = k := by
  have hpos := Nat.two_pow_pos k
  apply Nat.le_antisymm
  · rw [size_le]
    omega
  · cases k with
    | zero => exact Nat.zero_le _
    | succ k =>
      rw [Nat.succ_le_iff, lt_size, Nat.pow_succ]
      have := Nat.two_pow_pos k
      omega

end Nat
