import Mathlib.Data.BitVec
import Mathlib.Logic.Function.Iterate

/-!
# Maps of bit vectors that are linear over GF(2)

A map `f` of bit vectors is `XorLinear` when it takes `^^^` to `^^^`.  Shifts, masks and
changes of width are, and so are their compositions, iterates and sums (`XorLinear.comp`,
`XorLinear.iterate`, `XorLinear.xor`), and so is the step of a Galois shift register, which
shifts right and adds its feedback polynomial when the bit shifted out is set
(`xorLinear_lfsr`).

Table-driven shift registers take in a byte at a time: the register `c` and the input `a` go
to `Z (c ^^^ a)`, where `Z` moves the register on by one zero byte and satisfies
`Z x = Z (x &&& 0xff) ^^^ (x >>> 8)`: the low byte goes through the table, the rest moves down.
For such a `Z`, `k + 1` zero bytes act on the low byte and on the rest apart
(`iterate_succ_byte`), and taking in the bytes of a list one at a time is taking in the word
they make, least significant byte first, and then as many zero bytes
(`foldl_eq_iterate_leWord`).  This is what makes a register that takes in eight bytes at once
compute what the bytewise one does.  What is xored into such a register before a list comes
out moved by one step for each element (`foldl_xor_eq`): registers over pieces of a list
can run apart and be added up.

A linear map is kept as its matrix of columns, the images of the bits (`Columns`); it is
its column for the low bit, where that bit is set, plus its value on the rest
(`XorLinear.apply_eq_low`), which is how a matrix is multiplied by a vector a bit at a time.
-/

set_option autoImplicit false

namespace BitVec

/-- `f` is linear over GF(2): it maps `^^^` to `^^^`. -/
def XorLinear {m n : ℕ} (f : BitVec m → BitVec n) : Prop :=
  ∀ x y, f (x ^^^ y) = f x ^^^ f y

namespace XorLinear

variable {k m n : ℕ}

theorem map_zero {f : BitVec m → BitVec n} (hf : XorLinear f) : f 0#m = 0#n := by
  have h := hf 0#m 0#m
  rw [BitVec.xor_self] at h
  rw [h, BitVec.xor_self]

theorem comp {f : BitVec m → BitVec n} {g : BitVec k → BitVec m} (hf : XorLinear f)
    (hg : XorLinear g) : XorLinear (f ∘ g) := by
  intro x y
  rw [Function.comp_apply, hg, hf]
  rfl

theorem iterate {f : BitVec n → BitVec n} (hf : XorLinear f) : ∀ j : ℕ, XorLinear f^[j]
  | 0 => fun _ _ => rfl
  | j + 1 => by
    rw [Function.iterate_succ]
    exact (hf.iterate j).comp hf

theorem xor {f g : BitVec m → BitVec n} (hf : XorLinear f) (hg : XorLinear g) :
    XorLinear fun x => f x ^^^ g x := by
  intro x y
  dsimp only
  rw [hf, hg]
  ac_rfl

end XorLinear

theorem xorLinear_ushiftRight {n : ℕ} (s : ℕ) : XorLinear fun x : BitVec n => x >>> s :=
  fun x y => ushiftRight_xor_distrib x y s

theorem xorLinear_and {n : ℕ} (c : BitVec n) : XorLinear fun x : BitVec n => x &&& c := by
  intro x y
  ext i
  simp only [getElem_and, getElem_xor, Bool.and_xor_distrib_right]

theorem xorLinear_setWidth {n : ℕ} (m : ℕ) : XorLinear (setWidth m : BitVec n → BitVec m) :=
  fun _ _ => setWidth_xor

theorem xorLinear_shiftLeft {n : ℕ} (s : ℕ) : XorLinear fun x : BitVec n => x <<< s :=
  fun x y => shiftLeft_xor_distrib x y s

/-- The step of a Galois shift register with feedback polynomial `p`. -/
theorem xorLinear_lfsr {n : ℕ} (p : BitVec n) :
    XorLinear fun x : BitVec n => if x &&& 1#n = 1#n then (x >>> 1) ^^^ p else x >>> 1 := by
  rcases n with _ | n
  · -- a register of no bits has one value
    intro x y
    ext i hi
    exact absurd hi (Nat.not_lt_zero i)
  -- the bit shifted out decides the feedback; it is the low bit, which `^^^` adds up
  have hlow : ∀ x : BitVec (n + 1), (x &&& 1#(n + 1) = 1#(n + 1)) ↔ x.getLsbD 0 = true := by
    intro x
    rw [and_one_eq_setWidth_ofBool_getLsbD]
    cases x.getLsbD 0 <;> simp
  intro x y
  simp only [hlow, getLsbD_xor, ushiftRight_xor_distrib]
  cases x.getLsbD 0 <;> cases y.getLsbD 0 <;> simp only [Bool.xor_false, Bool.xor_true,
    Bool.not_true, Bool.not_false, if_true, if_false, Bool.false_eq_true]
  · ac_rfl
  · ac_rfl
  · -- both feed back, and the two polynomials cancel
    rw [show x >>> 1 ^^^ p ^^^ (y >>> 1 ^^^ p) = (x >>> 1 ^^^ y >>> 1) ^^^ (p ^^^ p) by ac_rfl,
      BitVec.xor_self, BitVec.xor_zero]

theorem or_eq_xor_of_and_eq_zero {n : ℕ} {x y : BitVec n} (h : x &&& y = 0#n) :
    x ||| y = x ^^^ y := by
  ext i hi
  have hbit := congrArg (fun v : BitVec n => v[i]) h
  simp only [getElem_and, getElem_zero] at hbit
  simp only [getElem_or, getElem_xor]
  cases hx : x[i] <;> cases hy : y[i] <;> simp_all

/-! ## Registers that take in a byte at a time -/

theorem getLsbD_0xff (n i : ℕ) : (0xff#n).getLsbD i = (decide (i < n) && decide (i < 8)) := by
  rw [getLsbD_ofNat, show (0xff : ℕ) = 2 ^ 8 - 1 by rfl, Nat.testBit_two_pow_sub_one]

section Byte

variable {n : ℕ} {v : BitVec n} (hv : ∀ i, 8 ≤ i → v.getLsbD i = false)
include hv

/-- A value of one byte is its low byte. -/
theorem and_0xff_of_byte : v &&& 0xff#n = v := by
  apply eq_of_getLsbD_eq
  intro i hi
  rw [getLsbD_and, getLsbD_0xff]
  by_cases h8 : i < 8
  · simp [h8, hi]
  · simp [hv i (by omega)]

/-- A value of one byte has nothing above its low byte. -/
theorem ushiftRight_eight_of_byte : v >>> 8 = 0#n := by
  apply eq_of_getLsbD_eq
  intro i _
  rw [getLsbD_ushiftRight, hv (8 + i) (by omega), getLsbD_zero]

end Byte

theorem getLsbD_and_0xff_of_le {n : ℕ} (x : BitVec n) {i : ℕ} (hi : 8 ≤ i) :
    (x &&& 0xff#n).getLsbD i = false := by
  simp [getLsbD_0xff, Nat.not_lt.2 hi]

theorem getLsbD_ofNat_toNat_of_le (b : UInt8) (n : ℕ) {i : ℕ} (hi : 8 ≤ i) :
    (BitVec.ofNat n b.toNat).getLsbD i = false := by
  rw [getLsbD_ofNat, Nat.testBit_lt_two_pow, Bool.and_false]
  exact lt_of_lt_of_le b.toNat_lt (Nat.pow_le_pow_right (by decide) hi)

/-- The word whose bytes, least significant first, are `g a` for the `a` of `l`. -/
def leWord {α : Type*} {n : ℕ} (g : α → BitVec n) (l : List α) : BitVec n :=
  l.foldr (fun a w => (w <<< 8) ||| g a) 0#n

section LeWord

variable {α : Type*} {n : ℕ} (g : α → BitVec n)

@[simp] theorem leWord_nil : leWord g [] = 0#n := rfl

theorem leWord_cons (a : α) (l : List α) : leWord g (a :: l) = (leWord g l <<< 8) ||| g a := rfl

variable (hg : ∀ a i, 8 ≤ i → (g a).getLsbD i = false)
include hg

theorem getLsbD_leWord_of_le : ∀ (l : List α) (i : ℕ), 8 * l.length ≤ i →
    (leWord g l).getLsbD i = false
  | [], i, _ => by simp
  | a :: l, i, hi => by
    rw [List.length_cons] at hi
    rw [leWord_cons, getLsbD_or, getLsbD_shiftLeft, hg a i (by omega),
      getLsbD_leWord_of_le l (i - 8) (by omega)]
    simp

/-- The next byte and the word of the rest, moved up a byte, have no bit in common. -/
theorem leWord_shiftLeft_and (a : α) (l : List α) : leWord g l <<< 8 &&& g a = 0#n := by
  apply eq_of_getLsbD_eq
  intro i _
  rw [getLsbD_and, getLsbD_shiftLeft, getLsbD_zero]
  by_cases h8 : i < 8
  · simp [h8]
  · simp [hg a i (by omega)]

end LeWord

section ByteRegister

variable {n : ℕ} {Z : BitVec n → BitVec n} (hZ : XorLinear Z)
  (hbyte : ∀ x, Z x = Z (x &&& 0xff#n) ^^^ (x >>> 8))
include hZ hbyte

/-- `k + 1` zero bytes act on the low byte of the register and on the rest apart. -/
theorem iterate_succ_byte (k : ℕ) (y : BitVec n) :
    Z^[k + 1] y = Z^[k + 1] (y &&& 0xff#n) ^^^ Z^[k] (y >>> 8) := by
  rw [Function.iterate_succ_apply, hbyte y, hZ.iterate k, ← Function.iterate_succ_apply]

/-- A zero byte moves a register with a clear low byte down by a byte. -/
theorem apply_shiftLeft_eight {v : BitVec n} (hv : ∀ i, n - 8 ≤ i → v.getLsbD i = false) :
    Z (v <<< 8) = v := by
  have hlow : v <<< 8 &&& 0xff#n = 0#n := by
    apply eq_of_getLsbD_eq
    intro i _
    rw [getLsbD_and, getLsbD_shiftLeft, getLsbD_0xff, getLsbD_zero]
    by_cases h8 : i < 8 <;> simp [h8]
  have hdown : v <<< 8 >>> 8 = v := by
    apply eq_of_getLsbD_eq
    intro i hi
    rw [getLsbD_ushiftRight, getLsbD_shiftLeft]
    by_cases hlt : 8 + i < n
    · simp [hlt]
    · simp [hlt, hv i (by omega)]
  rw [hbyte, hlow, hZ.map_zero, hdown, BitVec.zero_xor]

/-- Taking in the bytes `g a` of a list one at a time is taking in their word, least
significant byte first, and then one zero byte for each. -/
theorem foldl_eq_iterate_leWord {α : Type*} (g : α → BitVec n)
    (hg : ∀ a i, 8 ≤ i → (g a).getLsbD i = false) :
    ∀ (l : List α) (x : BitVec n), 8 * l.length ≤ n →
      l.foldl (fun c a => Z (c ^^^ g a)) x = Z^[l.length] (x ^^^ leWord g l)
  | [], x, _ => by simp
  | a :: l, x, hl => by
    rw [List.length_cons] at hl
    rw [List.foldl_cons, foldl_eq_iterate_leWord g hg l _ (by omega), List.length_cons,
      Function.iterate_succ_apply]
    congr 1
    -- a zero byte takes the word of the rest, moved up a byte, back down
    have hrest : Z (leWord g l <<< 8) = leWord g l :=
      apply_shiftLeft_eight hZ hbyte fun i hi => getLsbD_leWord_of_le g hg l i (by omega)
    rw [leWord_cons, or_eq_xor_of_and_eq_zero (leWord_shiftLeft_and g hg a l),
      show x ^^^ (leWord g l <<< 8 ^^^ g a) = (x ^^^ g a) ^^^ leWord g l <<< 8 by ac_rfl,
      hZ (x ^^^ g a), hrest]

end ByteRegister

/-! ## Registers over a list -/

/-- A register taken over a list moves what was xored into it by one step of `Z` for each
element. -/
theorem foldl_xor_eq {α : Type*} {n : ℕ} {Z : BitVec n → BitVec n} (hZ : XorLinear Z)
    (g : α → BitVec n) : ∀ (l : List α) (x y : BitVec n),
      l.foldl (fun c a => Z (c ^^^ g a)) (x ^^^ y) =
        l.foldl (fun c a => Z (c ^^^ g a)) x ^^^ Z^[l.length] y
  | [], _, _ => rfl
  | a :: l, x, y => by
    rw [List.foldl_cons, List.foldl_cons, show x ^^^ y ^^^ g a = (x ^^^ g a) ^^^ y by ac_rfl,
      hZ, foldl_xor_eq hZ g l, List.length_cons, Function.iterate_succ_apply]

/-! ## Matrices of columns -/

/-- `mat` is the matrix of `f` over GF(2), kept as its columns: entry `i` is the image of
bit `i`. -/
structure Columns {n m : ℕ} (f : BitVec n → BitVec m) (mat : List (BitVec m)) : Prop where
  length_eq : mat.length = n
  getElem_eq : ∀ i (h : i < mat.length), mat[i] = f (1#n <<< i)

/-- Applying `g` to the columns of `f` gives the columns of `g ∘ f`. -/
theorem Columns.map {n m k : ℕ} {f : BitVec n → BitVec m} {g : BitVec m → BitVec k}
    {mat : List (BitVec m)} {T : BitVec m → BitVec k} (hmat : Columns f mat)
    (hT : ∀ x, T x = g x) : Columns (g ∘ f) (mat.map T) where
  length_eq := by rw [List.length_map, hmat.length_eq]
  getElem_eq i h := by
    rw [List.getElem_map, hT, hmat.getElem_eq, Function.comp_apply]

/-- A bit vector is its low bit and the rest. -/
theorem and_one_xor_ushiftRight_shiftLeft {n : ℕ} (x : BitVec n) :
    (x &&& 1#n) ^^^ (x >>> 1 <<< 1) = x := by
  apply eq_of_getLsbD_eq
  intro i hi
  rw [getLsbD_xor, getLsbD_and, getLsbD_shiftLeft, getLsbD_ushiftRight, getLsbD_one]
  rcases i with _ | i
  · simp [hi]
  · rw [show 1 + (i + 1 - 1) = i + 1 by omega]
    simp [hi]

/-- A linear map is its column for the low bit, where that bit is set, and its value on the
rest: what multiplying by the matrix one bit at a time adds up. -/
theorem XorLinear.apply_eq_low {n m : ℕ} {f : BitVec n → BitVec m} (hf : XorLinear f)
    (x : BitVec n) : f x = (if x &&& 1#n = 0#n then 0#m else f 1#n) ^^^ f (x >>> 1 <<< 1) := by
  conv_lhs => rw [← and_one_xor_ushiftRight_shiftLeft x]
  rw [hf]
  congr 1
  -- the low bit is `0` or `1`
  rw [and_one_eq_setWidth_ofBool_getLsbD]
  cases x.getLsbD 0
  · simp [hf.map_zero]
  · rcases n with _ | n
    · simp [hf.map_zero]
    · simp

end BitVec
