import Rdkafka.Buf.Crc32cSw

/-!
# The hardware CRC32C

With SSE 4.2, `rd_crc32c` runs `crc32c_hw` (`src/crc32c.c`).  Its instructions `crc32b` and
`crc32q` take the CRC-32C register through a byte and through the eight bytes of a quadword,
with no complement before or after; the model states them so.  The loops go a byte at a
time up to an address that is a multiple of eight, then three blocks of `LONG` bytes at a
time while that many are left, then three blocks of `SHORT` bytes, then a quadword at a
time, and last the bytes left.  The three blocks run apart, the second and the third from
zero, and are added up by shifting: `crc32c_shift` applies to a register the operator of as
many zero bytes as a block has, through four tables that `crc32c_init_hw` builds by
`crc32c_zeros` from the matrix that `crc32c_zeros_op` squares up from the matrix of one zero
bit over GF(2).

This file proves that `crc32c_hw` computes the bytewise `crc32c`, wherever the buffer lies
(`crc32cHw_eq_crc32c`).

The matrices are the `Columns` of `Lib.XorLinear`.  `gf2_matrix_times` applies the linear
map whose columns it is given (`gf2MatrixTimes_eq`), so `gf2_matrix_square` gives the columns
of the map applied twice.  One step of `crc32c_init_sw` is one zero bit, and eight are the
step of a zero byte (`crc32cTableStep_eq_iterate`), so `crc32c_zeros_op(len)` is the operator
of `2 ^ log2 len` zero bytes (`crc32cZerosOp_columns`), and its four tables apply it byte by
byte (`crc32cShiftZeros_eq`).  The register is linear in where it starts
(`foldl_crc32cByte_xor`), so three blocks shifted and added up are the register over the
three (`crc32cHw_combine`).  Each loop takes the register over the bytes it passes
(`Crc32cTaken`), and the loops chain.
-/

set_option autoImplicit false

namespace Rdkafka

open BitVec

/-! ## Matrices over GF(2) -/

/-- The loop of `gf2_matrix_times(mat, vec)`: while `vec` has a bit set, add the next row of
`mat` where its low bit is set, and go on to the next bit.  The matrices of `crc32c.c` have
32 rows, one for each bit of `vec`, so the loop never runs past them. -/
def gf2MatrixTimesLoop : List (BitVec 32) → BitVec 32 → BitVec 32 → BitVec 32
  | [], _, sum => sum
  | row :: mat, vec, sum =>
    if vec = 0#32 then sum
    else gf2MatrixTimesLoop mat (vec >>> 1) (if vec &&& 1#32 ≠ 0#32 then sum ^^^ row else sum)

/-- `gf2_matrix_times(mat, vec)`. -/
def gf2MatrixTimes (mat : List (BitVec 32)) (vec : BitVec 32) : BitVec 32 :=
  gf2MatrixTimesLoop mat vec 0#32

/-- `gf2_matrix_square(square, mat)`: row `n` of `square` is `mat` times row `n` of `mat`. -/
def gf2MatrixSquare (mat : List (BitVec 32)) : List (BitVec 32) := mat.map (gf2MatrixTimes mat)

/-! ## The operators for zeros -/

/-- `odd` as `crc32c_zeros_op` first fills it, the operator for one zero bit: `POLY`, and then
`row`, from `1` on, moved up a bit at a time. -/
def crc32cZeroBitOp : List (BitVec 32) := crc32cPoly :: (List.range 31).map fun n => 1#32 <<< n

/-- The `do ... while (len)` loop of `crc32c_zeros_op`: `odd` squared into `even` and `even`
back into `odd`, with `len` halved after each square until it is zero. -/
def crc32cZerosOpLoop (odd : List (BitVec 32)) (len : ℕ) : List (BitVec 32) :=
  let even := gf2MatrixSquare odd
  if len / 2 = 0 then even
  else
    let odd := gf2MatrixSquare even
    if h : len / 2 / 2 = 0 then odd else crc32cZerosOpLoop odd (len / 2 / 2)
termination_by len
decreasing_by omega

/-- `crc32c_zeros_op(even, len)`: the operator for two zero bits, then for four, then the
loop. -/
def crc32cZerosOp (len : ℕ) : List (BitVec 32) :=
  crc32cZerosOpLoop (gf2MatrixSquare (gf2MatrixSquare crc32cZeroBitOp)) len

/-- `crc32c_zeros(zeros, len)`: `zeros[k][n]` is the operator for `len` zeros times the byte
`n` moved up `k` bytes. -/
def crc32cZeros (len : ℕ) : List (List (BitVec 32)) :=
  let op := crc32cZerosOp len
  (List.range 4).map fun k =>
    (List.range 256).map fun n => gf2MatrixTimes op (BitVec.ofNat 32 n <<< (8 * k))

/-- `crc32c_shift(zeros, crc)`: one lookup for each byte of `crc`. -/
def crc32cShiftZeros (zeros : List (List (BitVec 32))) (crc : BitVec 32) : BitVec 32 :=
  (zeros.getD 0 []).getD (crc &&& 0xff#32).toNat 0#32 ^^^
    (zeros.getD 1 []).getD ((crc >>> 8) &&& 0xff#32).toNat 0#32 ^^^
    (zeros.getD 2 []).getD ((crc >>> 16) &&& 0xff#32).toNat 0#32 ^^^
    (zeros.getD 3 []).getD (crc >>> 24).toNat 0#32

/-- `crc32c_long` as `crc32c_init_hw` fills it: the shift by `LONG` zeros. -/
def crc32cLong : List (List (BitVec 32)) := crc32cZeros 8192

/-- `crc32c_short` as `crc32c_init_hw` fills it: the shift by `SHORT` zeros. -/
def crc32cShort : List (List (BitVec 32)) := crc32cZeros 256

/-! ## `crc32c_hw` -/

/-- The instruction `crc32b` on `crc0`: the CRC-32C register in its low 32 bits taken through
the byte, zero-extended. -/
def crc32b (crc : BitVec 64) (b : UInt8) : BitVec 64 :=
  (crc32cByte (crc.setWidth 32) b).setWidth 64

/-- The instruction `crc32q` on `crc0`: the register taken through the eight bytes of the
quadword, the one at the lowest address first, zero-extended. -/
def crc32q (crc : BitVec 64) (q : List UInt8) : BitVec 64 :=
  (q.foldl crc32cByte (crc.setWidth 32)).setWidth 64

/-- The first loop of `crc32c_hw`: `crc32b` on a byte at a time while `next`, the address of
the next byte, is not a multiple of eight. -/
def crc32cHwAlign : ℕ → BitVec 64 → List UInt8 → BitVec 64 × List UInt8
  | _, crc, [] => (crc, [])
  | next, crc, b :: bs =>
    if next &&& 7 ≠ 0 then crc32cHwAlign (next + 1) (crc32b crc b) bs else (crc, b :: bs)

/-- The `do ... while (next < end)` loop over three blocks: `crc32q` on the next quadword of
each block, while the first has one left. -/
def crc32cHwTriple : BitVec 64 → BitVec 64 → BitVec 64 → List UInt8 → List UInt8 →
    List UInt8 → BitVec 64 × BitVec 64 × BitVec 64
  | crc0, crc1, crc2, b₀ :: b₁ :: b₂ :: b₃ :: b₄ :: b₅ :: b₆ :: b₇ :: bs₀, bs₁, bs₂ =>
    crc32cHwTriple (crc32q crc0 [b₀, b₁, b₂, b₃, b₄, b₅, b₆, b₇]) (crc32q crc1 (bs₁.take 8))
      (crc32q crc2 (bs₂.take 8)) bs₀ (bs₁.drop 8) (bs₂.drop 8)
  | crc0, crc1, crc2, _, _, _ => (crc0, crc1, crc2)

/-- A `while (len >= LONG*3)` loop of `crc32c_hw`, for the block size `blk` and its shift
tables `zeros`: three blocks at a time, the first continuing `crc0` and the other two from
zero, added up by shifting.  `fuel` bounds the turns. -/
def crc32cHwBlocks (zeros : List (List (BitVec 32))) (blk : ℕ) :
    ℕ → BitVec 64 → List UInt8 → BitVec 64 × List UInt8
  | 0, crc0, bs => (crc0, bs)
  | fuel + 1, crc0, bs =>
    if blk * 3 ≤ bs.length then
      let (crc0, crc1, crc2) := crc32cHwTriple crc0 0#64 0#64 (bs.take blk)
        ((bs.drop blk).take blk) ((bs.drop (blk * 2)).take blk)
      let crc0 := (crc32cShiftZeros zeros (crc0.setWidth 32)).setWidth 64 ^^^ crc1
      let crc0 := (crc32cShiftZeros zeros (crc0.setWidth 32)).setWidth 64 ^^^ crc2
      crc32cHwBlocks zeros blk fuel crc0 (bs.drop (blk * 3))
    else (crc0, bs)

/-- The loop after the blocks: `crc32q` on eight bytes at a time while eight are left. -/
def crc32cHwWords : BitVec 64 → List UInt8 → BitVec 64 × List UInt8
  | crc, b₀ :: b₁ :: b₂ :: b₃ :: b₄ :: b₅ :: b₆ :: b₇ :: bs =>
    crc32cHwWords (crc32q crc [b₀, b₁, b₂, b₃, b₄, b₅, b₆, b₇]) bs
  | crc, bs => (crc, bs)

/-- `crc32c_hw(crc, buf, len)`, with `buf` at address `addr`; the bytes left bound the turns
of the block loops. -/
def crc32cHw (addr : ℕ) (crc : BitVec 32) (buf : List UInt8) : BitVec 32 :=
  let (crc0, rest) := crc32cHwAlign addr ((crc ^^^ 0xffffffff#32).setWidth 64) buf
  let (crc0, rest) := crc32cHwBlocks crc32cLong 8192 rest.length crc0 rest
  let (crc0, rest) := crc32cHwBlocks crc32cShort 256 rest.length crc0 rest
  let (crc0, rest) := crc32cHwWords crc0 rest
  -- the last loop: the bytes left, a `crc32b` each
  (rest.foldl crc32b crc0).setWidth 32 ^^^ 0xffffffff#32

/-! ## Multiplying by a matrix -/

/-- The loop adds to `sum` the image of `vec` under the linear map whose columns the rows
are. -/
theorem gf2MatrixTimesLoop_eq : ∀ (mat : List (BitVec 32)) {f : BitVec 32 → BitVec 32},
    XorLinear f → (∀ i (h : i < mat.length), mat[i] = f (1#32 <<< i)) →
      ∀ vec sum : BitVec 32, vec >>> mat.length = 0#32 →
        gf2MatrixTimesLoop mat vec sum = sum ^^^ f vec
  | [], f, hf, _, vec, sum, hvec => by
    rw [List.length_nil, ushiftRight_zero] at hvec
    rw [gf2MatrixTimesLoop, hvec, hf.map_zero, BitVec.xor_zero]
  | row :: mat, f, hf, hmat, vec, sum, hvec => by
    have hrow : row = f 1#32 := by
      have h := hmat 0 (by simp)
      rwa [List.getElem_cons_zero, shiftLeft_zero] at h
    -- the other rows are the columns of `f` after a shift up by a bit
    have hrest : ∀ i (h : i < mat.length), mat[i] = (f ∘ fun y : BitVec 32 => y <<< 1) (1#32 <<< i) := by
      intro i h
      have h' := hmat (i + 1) (by simp [h])
      rwa [List.getElem_cons_succ, shiftLeft_add] at h'
    have hvec' : vec >>> 1 >>> mat.length = 0#32 := by
      rw [← shiftRight_add, Nat.add_comm]
      exact hvec
    rw [gf2MatrixTimesLoop]
    by_cases h0 : vec = 0#32
    · rw [if_pos h0, h0, hf.map_zero, BitVec.xor_zero]
    rw [if_neg h0, gf2MatrixTimesLoop_eq mat (hf.comp (xorLinear_shiftLeft 1)) hrest _ _ hvec',
      hf.apply_eq_low vec, Function.comp_apply]
    by_cases hlow : vec &&& 1#32 = 0#32
    · rw [if_neg (not_not.2 hlow), if_pos hlow, BitVec.zero_xor]
    · rw [if_pos hlow, if_neg hlow, hrow, BitVec.xor_assoc]

/-- `gf2_matrix_times` applies the linear map whose columns it is given. -/
theorem gf2MatrixTimes_eq {f : BitVec 32 → BitVec 32} (hf : XorLinear f)
    {mat : List (BitVec 32)} (hmat : Columns f mat) (vec : BitVec 32) :
    gf2MatrixTimes mat vec = f vec := by
  have hvec : vec >>> mat.length = 0#32 := by
    rw [hmat.length_eq]
    exact ushiftRight_eq_zero (Nat.le_refl 32)
  rw [gf2MatrixTimes, gf2MatrixTimesLoop_eq mat hf hmat.getElem_eq vec 0#32 hvec,
    BitVec.zero_xor]

/-- `gf2_matrix_square` of the columns of `g` applied `k` times gives those of `g` applied
`2 * k` times. -/
theorem gf2MatrixSquare_iterate {g : BitVec 32 → BitVec 32} (hg : XorLinear g) {k : ℕ}
    {mat : List (BitVec 32)} (hmat : Columns g^[k] mat) :
    Columns g^[2 * k] (gf2MatrixSquare mat) := by
  have h := hmat.map (gf2MatrixTimes_eq (hg.iterate k) hmat)
  rwa [← Function.iterate_add, ← Nat.two_mul] at h

/-! ## The operators for zeros -/

theorem xorLinear_crc32cShift : XorLinear crc32cShift := xorLinear_lfsr crc32cPoly

/-- A register whose low `k` bits are clear moves down `k` bits in `k` steps, with nothing fed
back. -/
theorem crc32cShift_iterate_of_low : ∀ (k : ℕ) (y : BitVec 32),
    (∀ i < k, y.getLsbD i = false) → crc32cShift^[k] y = y >>> k
  | 0, y, _ => (ushiftRight_zero y).symm
  | k + 1, y, hy => by
    have hstep : crc32cShift y = y >>> 1 := by
      have hlow : y &&& 1#32 ≠ 1#32 := by
        rw [and_one_eq_setWidth_ofBool_getLsbD, hy 0 (by omega)]
        decide
      rw [crc32cShift, if_neg hlow]
    have hrest : ∀ i < k, (y >>> 1).getLsbD i = false := fun i hi => by
      rw [getLsbD_ushiftRight]
      exact hy (1 + i) (by omega)
    rw [Function.iterate_succ_apply, hstep, crc32cShift_iterate_of_low k _ hrest,
      ← shiftRight_add, Nat.add_comm]

/-- A zero byte is eight zero bits: the table step is eight steps of `crc32c_init_sw`. -/
theorem crc32cTableStep_eq_iterate : crc32cTableStep = crc32cShift^[8] := by
  funext x
  -- the low byte goes through the table, the rest has its low byte clear
  have hsplit : x = (x &&& 0xff#32) ^^^ (x ^^^ (x &&& 0xff#32)) := by
    rw [BitVec.xor_comm x, ← BitVec.xor_assoc, BitVec.xor_self, BitVec.zero_xor]
  have hhigh : ∀ i < 8, (x ^^^ (x &&& 0xff#32)).getLsbD i = false := by
    intro i hi
    simp [getLsbD_0xff, hi, show i < 32 by omega]
  have hbyte : (x &&& 0xff#32) >>> 8 = 0#32 :=
    ushiftRight_eight_of_byte fun _ hi => getLsbD_and_0xff_of_le x hi
  rw [hsplit, (xorLinear_crc32cShift.iterate 8), crc32cShift_iterate_of_low 8 _ hhigh,
    ← hsplit, crc32cTableStep, ushiftRight_xor_distrib, hbyte, BitVec.xor_zero]
  rfl

theorem xorLinear_crc32cTableStep : XorLinear crc32cTableStep := by
  rw [crc32cTableStep_eq_iterate]
  exact xorLinear_crc32cShift.iterate 8

/-- One step of `crc32c_init_sw` is the operator for one zero bit: `crc32c_zeros_op` starts
from its columns. -/
theorem crc32cZeroBitOp_columns : Columns crc32cShift crc32cZeroBitOp where
  length_eq := by simp [crc32cZeroBitOp]
  getElem_eq i h := by
    rcases i with _ | i
    · -- bit 0 is shifted out and feeds the polynomial back
      simp only [crc32cZeroBitOp, List.getElem_cons_zero]
      decide
    · -- a higher bit moves down, with nothing fed back
      have hi : i < 31 := by
        simp only [crc32cZeroBitOp, List.length_cons, List.length_map, List.length_range] at h
        omega
      have hlow : ∀ j < 1, (1#32 <<< (i + 1)).getLsbD j = false := by
        intro j hj
        simp [getLsbD_shiftLeft, show j < i + 1 by omega]
      have hstep : crc32cShift (1#32 <<< (i + 1)) = 1#32 <<< (i + 1) >>> 1 :=
        crc32cShift_iterate_of_low 1 _ hlow
      simp only [crc32cZeroBitOp, List.getElem_cons_succ, List.getElem_map, List.getElem_range,
        hstep]
      apply eq_of_getLsbD_eq
      intro j hj
      simp only [getLsbD_ushiftRight, getLsbD_shiftLeft, getLsbD_one]
      rw [Bool.eq_iff_iff]
      simp only [Bool.and_eq_true, Bool.not_eq_true', decide_eq_true_eq, decide_eq_false_iff_not]
      omega

/-- Each turn of the loop squares twice: from the columns of `g`, the loop ends with those of
`g` applied `2 ^ (log2 len + 1)` times. -/
theorem crc32cZerosOpLoop_columns (len : ℕ) : ∀ {g : BitVec 32 → BitVec 32}
    {odd : List (BitVec 32)}, XorLinear g → Columns g odd →
      Columns g^[2 ^ (Nat.log2 len + 1)] (crc32cZerosOpLoop odd len) := by
  induction len using Nat.strong_induction_on with
  | _ len ih =>
  intro g odd hg hodd
  have heven : Columns g^[2] (gf2MatrixSquare odd) := gf2MatrixSquare_iterate hg (k := 1) hodd
  have hodd' : Columns g^[4] (gf2MatrixSquare (gf2MatrixSquare odd)) :=
    gf2MatrixSquare_iterate hg heven
  rw [crc32cZerosOpLoop]
  dsimp only
  by_cases h2 : len / 2 = 0
  · -- `len` is `0` or `1`, whose `log2` is `0`
    rw [if_pos h2, Nat.log2_def, if_neg (by omega)]
    exact heven
  rw [if_neg h2, Nat.log2_def, if_pos (by omega)]
  by_cases h4 : len / 2 / 2 = 0
  · rw [dif_pos h4, Nat.log2_def, if_neg (by omega)]
    exact hodd'
  -- another turn, from the operator for four times as many zeros
  rw [dif_neg h4, Nat.log2_def, if_pos (by omega)]
  have h := ih (len / 2 / 2) (by omega) (hg.iterate 4) hodd'
  rwa [← Function.iterate_mul, show 4 * 2 ^ (Nat.log2 (len / 2 / 2) + 1) =
    2 ^ (Nat.log2 (len / 2 / 2) + 1 + 1 + 1) by rw [pow_succ, pow_succ]; ring] at h

/-- `crc32c_zeros_op(len)` is the operator for `2 ^ log2 len` zero bytes, `len` of them where
`len` is a power of two. -/
theorem crc32cZerosOp_columns (len : ℕ) :
    Columns crc32cTableStep^[2 ^ Nat.log2 len] (crc32cZerosOp len) := by
  have h4 : Columns crc32cShift^[4] (gf2MatrixSquare (gf2MatrixSquare crc32cZeroBitOp)) :=
    gf2MatrixSquare_iterate xorLinear_crc32cShift
      (gf2MatrixSquare_iterate xorLinear_crc32cShift (k := 1) crc32cZeroBitOp_columns)
  have h := crc32cZerosOpLoop_columns len (xorLinear_crc32cShift.iterate 4) h4
  rwa [← Function.iterate_mul, show 4 * 2 ^ (Nat.log2 len + 1) = 8 * 2 ^ Nat.log2 len by
    rw [pow_succ]; ring, Function.iterate_mul, ← crc32cTableStep_eq_iterate] at h

/-- A 32-bit word is the sum of its four bytes, each moved up into its place. -/
theorem bytes_xor_shiftLeft_eq (x : BitVec 32) :
    (x &&& 0xff#32) ^^^ ((x >>> 8) &&& 0xff#32) <<< 8 ^^^ ((x >>> 16) &&& 0xff#32) <<< 16 ^^^
      (x >>> 24) <<< 24 = x := by
  apply eq_of_getLsbD_eq
  intro i hi
  simp only [getLsbD_xor, getLsbD_and, getLsbD_shiftLeft, getLsbD_ushiftRight, getLsbD_0xff]
  by_cases h8 : i < 8
  · simp [h8, hi, show i < 16 by omega, show i < 24 by omega]
  by_cases h16 : i < 16
  · rw [show 8 + (i - 8) = i by omega]
    simp [h8, h16, hi, show i - 8 < 8 by omega, show i - 8 < 32 by omega, show i < 24 by omega]
  by_cases h24 : i < 24
  · rw [show 16 + (i - 16) = i by omega]
    simp [h8, h16, h24, hi, show i - 16 < 8 by omega, show i - 16 < 32 by omega,
      show ¬ i - 8 < 8 by omega]
  · rw [show 24 + (i - 24) = i by omega]
    simp [h8, h16, h24, hi, show ¬ i - 16 < 8 by omega, show ¬ i - 8 < 8 by omega]

/-- **`crc32c_shift` shifts by the zeros of its tables.**  Through the tables of
`crc32c_zeros(len)`, the four lookups apply the operator of `2 ^ log2 len` zero bytes. -/
theorem crc32cShiftZeros_eq (len : ℕ) (crc : BitVec 32) :
    crc32cShiftZeros (crc32cZeros len) crc = crc32cTableStep^[2 ^ Nat.log2 len] crc := by
  have hF := xorLinear_crc32cTableStep.iterate (2 ^ Nat.log2 len)
  -- table `k` holds the operator on the byte moved up `k` bytes
  have htab : ∀ k < 4, ∀ i : BitVec 32, i.toNat < 256 →
      ((crc32cZeros len).getD k []).getD i.toNat 0#32 =
        crc32cTableStep^[2 ^ Nat.log2 len] (i <<< (8 * k)) := by
    intro k hk i hi
    simp [crc32cZeros, hk, hi, gf2MatrixTimes_eq hF (crc32cZerosOp_columns len)]
  have hbyte : ∀ y : BitVec 32, (y &&& 0xff#32).toNat < 256 := fun y => by
    rw [toNat_and]
    exact lt_of_le_of_lt Nat.and_le_right (by decide)
  have htop : (crc >>> 24).toNat < 256 := by
    rw [toNat_ushiftRight, Nat.shiftRight_eq_div_pow]
    have := crc.isLt
    omega
  rw [crc32cShiftZeros, htab 0 (by decide) _ (hbyte _), htab 1 (by decide) _ (hbyte _),
    htab 2 (by decide) _ (hbyte _), htab 3 (by decide) _ htop, ← hF, ← hF, ← hF]
  congr 1
  simpa using bytes_xor_shiftLeft_eq crc

/-! ## Registers over pieces -/

/-- A CRC register is linear in where it starts: what is xored into it comes out moved by a
zero byte for each byte. -/
theorem foldl_crc32cByte_xor (l : List UInt8) (x y : BitVec 32) :
    l.foldl crc32cByte (x ^^^ y) = l.foldl crc32cByte x ^^^ crc32cTableStep^[l.length] y := by
  have hstep : crc32cByte = fun c b => crc32cTableStep (c ^^^ BitVec.ofNat 32 b.toNat) :=
    funext fun c => funext (crc32cByte_eq c)
  rw [hstep]
  exact foldl_xor_eq xorLinear_crc32cTableStep _ l x y

/-- The register over two pieces is the register over the first, moved by the zero bytes of
the second, plus the register over the second from zero. -/
theorem foldl_crc32cByte_append (c : BitVec 32) (A B : List UInt8) :
    (A ++ B).foldl crc32cByte c =
      crc32cTableStep^[B.length] (A.foldl crc32cByte c) ^^^ B.foldl crc32cByte 0#32 := by
  have h := foldl_crc32cByte_xor B 0#32 (A.foldl crc32cByte c)
  rw [BitVec.zero_xor] at h
  rw [List.foldl_append, h, BitVec.xor_comm]

/-- Three blocks of `blk` bytes, the second and the third from zero, shifted by `blk` zero
bytes and added up, are the register over the three. -/
theorem crc32cHw_combine {blk : ℕ} (c : BitVec 32) (A B C : List UInt8) (hB : B.length = blk)
    (hC : C.length = blk) :
    crc32cTableStep^[blk] (crc32cTableStep^[blk] (A.foldl crc32cByte c) ^^^
      B.foldl crc32cByte 0#32) ^^^ C.foldl crc32cByte 0#32 = (A ++ B ++ C).foldl crc32cByte c := by
  rw [foldl_crc32cByte_append, foldl_crc32cByte_append, hB, hC]

/-! ## The loops -/

/-- `r` is the register `c` taken over the bytes `bs` up to the rest `r.2`: in its low 32
bits, the bytewise register over the bytes taken. -/
def Crc32cTaken (c : BitVec 64) (bs : List UInt8) (r : BitVec 64 × List UInt8) : Prop :=
  ∃ pre, bs = pre ++ r.2 ∧ r.1.setWidth 32 = pre.foldl crc32cByte (c.setWidth 32)

theorem crc32cTaken_refl (c : BitVec 64) (bs : List UInt8) : Crc32cTaken c bs (c, bs) :=
  ⟨[], rfl, rfl⟩

theorem Crc32cTaken.trans {c x : BitVec 64} {bs rest : List UInt8} {r : BitVec 64 × List UInt8}
    (h₁ : Crc32cTaken c bs (x, rest)) (h₂ : Crc32cTaken x rest r) : Crc32cTaken c bs r := by
  obtain ⟨pre₁, hbs, hx⟩ := h₁
  obtain ⟨pre₂, hrest, hr⟩ := h₂
  dsimp only at hbs hx
  refine ⟨pre₁ ++ pre₂, ?_, ?_⟩
  · rw [hbs, hrest, List.append_assoc]
  · rw [hr, hx, List.foldl_append]

theorem setWidth_crc32b (c : BitVec 64) (b : UInt8) :
    (crc32b c b).setWidth 32 = crc32cByte (c.setWidth 32) b := by
  rw [crc32b, setWidth_setWidth_of_le _ (by omega), setWidth_eq]

theorem setWidth_crc32q (c : BitVec 64) (q : List UInt8) :
    (crc32q c q).setWidth 32 = q.foldl crc32cByte (c.setWidth 32) := by
  rw [crc32q, setWidth_setWidth_of_le _ (by omega), setWidth_eq]

theorem crc32cTaken_crc32b (c : BitVec 64) (b : UInt8) (bs : List UInt8) :
    Crc32cTaken c (b :: bs) (crc32b c b, bs) :=
  ⟨[b], rfl, setWidth_crc32b c b⟩

theorem crc32cTaken_crc32q (c : BitVec 64) (q bs : List UInt8) :
    Crc32cTaken c (q ++ bs) (crc32q c q, bs) :=
  ⟨q, rfl, setWidth_crc32q c q⟩

theorem crc32cHwAlign_taken : ∀ (next : ℕ) (c : BitVec 64) (bs : List UInt8),
    Crc32cTaken c bs (crc32cHwAlign next c bs)
  | _, c, [] => crc32cTaken_refl c []
  | next, c, b :: bs => by
    rw [crc32cHwAlign]
    split
    · exact (crc32cTaken_crc32b c b bs).trans (crc32cHwAlign_taken (next + 1) _ bs)
    · exact crc32cTaken_refl c _

theorem crc32cHwWords_taken (c : BitVec 64) (bs : List UInt8) :
    Crc32cTaken c bs (crc32cHwWords c bs) := by
  fun_induction crc32cHwWords c bs with
  | case1 c b₀ b₁ b₂ b₃ b₄ b₅ b₆ b₇ bs ih =>
    exact (crc32cTaken_crc32q c [b₀, b₁, b₂, b₃, b₄, b₅, b₆, b₇] bs).trans ih
  | case2 c bs _ => exact crc32cTaken_refl c bs

theorem crc32cTaken_foldl_crc32b (c : BitVec 64) (bs : List UInt8) :
    Crc32cTaken c bs (bs.foldl crc32b c, []) := by
  induction bs generalizing c with
  | nil => exact ⟨[], rfl, rfl⟩
  | cons b bs ih => exact (crc32cTaken_crc32b c b bs).trans (ih _)

/-- A list that does not start with eight elements has fewer than eight. -/
theorem length_lt_eight_of_forall_ne {α : Type} {l : List α}
    (h : ∀ (b₀ b₁ b₂ b₃ b₄ b₅ b₆ b₇ : α) (rest : List α),
      l = b₀ :: b₁ :: b₂ :: b₃ :: b₄ :: b₅ :: b₆ :: b₇ :: rest → False) : l.length < 8 := by
  rcases l with _ | ⟨b₀, _ | ⟨b₁, _ | ⟨b₂, _ | ⟨b₃, _ | ⟨b₄, _ | ⟨b₅, _ | ⟨b₆, _ | ⟨b₇, rest⟩⟩⟩⟩⟩⟩⟩⟩
  all_goals first | exact (h _ _ _ _ _ _ _ _ _ rfl).elim | simp

/-- The loop over three blocks takes each register over its block, as far as the first
goes in quadwords. -/
theorem crc32cHwTriple_eq (c₀ c₁ c₂ : BitVec 64) (A B C : List UInt8) (hA : A.length % 8 = 0)
    (hB : A.length ≤ B.length) (hC : A.length ≤ C.length) :
    (crc32cHwTriple c₀ c₁ c₂ A B C).1.setWidth 32 = A.foldl crc32cByte (c₀.setWidth 32) ∧
      (crc32cHwTriple c₀ c₁ c₂ A B C).2.1.setWidth 32 =
        (B.take A.length).foldl crc32cByte (c₁.setWidth 32) ∧
      (crc32cHwTriple c₀ c₁ c₂ A B C).2.2.setWidth 32 =
        (C.take A.length).foldl crc32cByte (c₂.setWidth 32) := by
  fun_induction crc32cHwTriple c₀ c₁ c₂ A B C with
  | case1 c₀ c₁ c₂ b₀ b₁ b₂ b₃ b₄ b₅ b₆ b₇ bs₀ bs₁ bs₂ ih =>
    simp only [List.length_cons] at hA hB hC
    obtain ⟨h₀, h₁, h₂⟩ := ih (by omega) (by rw [List.length_drop]; omega)
      (by rw [List.length_drop]; omega)
    simp only [List.length_cons]
    refine ⟨?_, ?_, ?_⟩
    · rw [h₀, setWidth_crc32q, ← List.foldl_append]
      rfl
    · rw [h₁, setWidth_crc32q, ← List.foldl_append, ← List.take_add]
      congr 2
      omega
    · rw [h₂, setWidth_crc32q, ← List.foldl_append, ← List.take_add]
      congr 2
      omega
  | case2 A c₀ c₁ c₂ B C hne =>
    -- the first block is used up
    have hnil : A = [] := by
      have := length_lt_eight_of_forall_ne hne
      exact List.eq_nil_of_length_eq_zero (by omega)
    subst hnil
    exact ⟨rfl, rfl, rfl⟩

section Blocks

variable {zeros : List (List (BitVec 32))} {blk : ℕ} (h8 : blk % 8 = 0)
  (hzeros : ∀ x, crc32cShiftZeros zeros x = crc32cTableStep^[blk] x)
include h8 hzeros

/-- One turn over three blocks takes the register over all three. -/
theorem crc32cHwBlocks_turn (c : BitVec 64) (bs : List UInt8) (h3 : blk * 3 ≤ bs.length) :
    ∃ x, crc32cHwTriple c 0#64 0#64 (bs.take blk) ((bs.drop blk).take blk)
        ((bs.drop (blk * 2)).take blk) = x ∧
      Crc32cTaken c bs (setWidth 64 (crc32cShiftZeros zeros
        (setWidth 32 (setWidth 64 (crc32cShiftZeros zeros (setWidth 32 x.1)) ^^^ x.2.1))) ^^^
          x.2.2, bs.drop (blk * 3)) := by
  have hlenA : (bs.take blk).length = blk := by rw [List.length_take]; omega
  obtain ⟨h₀, h₁, h₂⟩ := crc32cHwTriple_eq c 0#64 0#64 (bs.take blk) ((bs.drop blk).take blk)
    ((bs.drop (blk * 2)).take blk) (by rw [hlenA]; exact h8)
    (by simp only [List.length_take, List.length_drop]; omega)
    (by simp only [List.length_take, List.length_drop]; omega)
  refine ⟨_, rfl, bs.take (blk * 3), (List.take_append_drop _ _).symm, ?_⟩
  -- the low halves of the 64-bit registers carry the whole computation
  have hlow : ∀ y : BitVec 32, (y.setWidth 64).setWidth 32 = y := fun y => by
    rw [setWidth_setWidth_of_le _ (by omega), setWidth_eq]
  simp only [setWidth_xor, hlow, hzeros, h₀, h₁, h₂, hlenA, List.take_take, Nat.min_self]
  rw [show (0#64).setWidth 32 = 0#32 from rfl, crc32cHw_combine _ _ _ _ (by simp; omega)
    (by simp; omega), ← List.take_add, show blk + blk = blk * 2 by omega, ← List.take_add,
    show blk * 2 + blk = blk * 3 by omega]

theorem crc32cHwBlocks_taken : ∀ (fuel : ℕ) (c : BitVec 64) (bs : List UInt8),
    Crc32cTaken c bs (crc32cHwBlocks zeros blk fuel c bs)
  | 0, c, bs => crc32cTaken_refl c bs
  | fuel + 1, c, bs => by
    rw [crc32cHwBlocks]
    by_cases h3 : blk * 3 ≤ bs.length
    · obtain ⟨x, hx, htaken⟩ := crc32cHwBlocks_turn h8 hzeros c bs h3
      rw [if_pos h3, hx]
      exact htaken.trans (crc32cHwBlocks_taken fuel _ _)
    · rw [if_neg h3]
      exact crc32cTaken_refl c bs

end Blocks

theorem crc32cShiftZeros_long (x : BitVec 32) :
    crc32cShiftZeros crc32cLong x = crc32cTableStep^[8192] x := by
  rw [crc32cLong, crc32cShiftZeros_eq, show Nat.log2 8192 = 13 from Nat.log2_two_pow (n := 13),
    show 2 ^ 13 = 8192 by norm_num]

theorem crc32cShiftZeros_short (x : BitVec 32) :
    crc32cShiftZeros crc32cShort x = crc32cTableStep^[256] x := by
  rw [crc32cShort, crc32cShiftZeros_eq, show Nat.log2 256 = 8 from Nat.log2_two_pow (n := 8),
    show 2 ^ 8 = 256 by norm_num]

/-- **`crc32c_hw` is `rd_crc32c`.**  Wherever the buffer lies, and however long it is, the
three-way parallel hardware CRC, with its shift tables, is the bytewise CRC32C. -/
theorem crc32cHw_eq_crc32c (addr : ℕ) (crc : BitVec 32) (buf : List UInt8) :
    crc32cHw addr crc buf = crc32c crc buf := by
  rcases h₁ : crc32cHwAlign addr ((crc ^^^ 0xffffffff#32).setWidth 64) buf with ⟨c₁, r₁⟩
  rcases h₂ : crc32cHwBlocks crc32cLong 8192 r₁.length c₁ r₁ with ⟨c₂, r₂⟩
  rcases h₃ : crc32cHwBlocks crc32cShort 256 r₂.length c₂ r₂ with ⟨c₃, r₃⟩
  rcases h₄ : crc32cHwWords c₃ r₃ with ⟨c₄, r₄⟩
  -- the loops one after the other take the register over the whole buffer
  obtain ⟨pre, hbuf, hreg⟩ :=
    (((h₁ ▸ crc32cHwAlign_taken addr _ buf).trans
      (h₂ ▸ crc32cHwBlocks_taken (by decide) crc32cShiftZeros_long _ c₁ r₁)).trans
      (h₃ ▸ crc32cHwBlocks_taken (by decide) crc32cShiftZeros_short _ c₂ r₂)).trans
      ((h₄ ▸ crc32cHwWords_taken c₃ r₃).trans (crc32cTaken_foldl_crc32b c₄ r₄))
  dsimp only at hbuf hreg
  rw [List.append_nil] at hbuf
  rw [crc32cHw, h₁]
  dsimp only
  rw [h₂]
  dsimp only
  rw [h₃]
  dsimp only
  rw [h₄]
  dsimp only
  rw [hreg, ← hbuf, setWidth_setWidth_of_le _ (by omega), setWidth_eq, crc32c]

/-- The CRC-32C check value, of `"123456789"`, from an address off the eight-byte boundary. -/
example : crc32cHw 5 0 [49, 50, 51, 52, 53, 54, 55, 56, 57] = 0xe3069283#32 := by
  decide +kernel

end Rdkafka
