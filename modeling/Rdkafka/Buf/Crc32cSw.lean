import Rdkafka.Buf.Crc32c
import Rdkafka.Lib.XorLinear

/-!
# The table-driven software CRC32C

`rd_crc32c` without SSE 4.2 runs `crc32c_sw` (`src/crc32c.c`).  It keeps the CRC register
in 64 bits and takes the bytes in three loops: one at a time up to an address that is a
multiple of eight, eight at a time while eight are left, and the rest one at a time.  The
eight-byte step xors the next eight bytes, read as a little-endian word, into the register
and replaces the register by the xor of eight lookups, one per byte of it, in the tables
`crc32c_table[7]` down to `crc32c_table[0]` that `crc32c_init_sw` builds.

The model `crc32c` of `rd_crc32c` takes every byte through the one-byte step.  This file
proves that `crc32c_sw` computes that function, wherever the buffer lies
(`crc32cSw_eq_crc32c`).

The argument is linear algebra over GF(2), from `Lib.XorLinear`.  A zero byte moves the
register by `crc32cSwZero`, which is linear, and a byte `b` moves it as the zero byte
moves `crc ^ b` (`crc32cSwByte_eq`).  `crc32c_table[k][n]` is `n` moved by `k + 1` zero
bytes (`setWidth_crc32cTableSw_byte`), so the eight lookups are eight zero bytes split by
the bytes of the register (`crc32cSwWord_eq_iterate`), and eight bytes taken one at a time
are their word followed by eight zero bytes (`foldl_eq_iterate_leWord`): the eight-byte step
is eight one-byte steps (`crc32cSwWord_le64`).
-/

set_option autoImplicit false

namespace Rdkafka

open BitVec

/-! ## The tables -/

/-- The step of the second loop of `crc32c_init_sw`,
`crc = crc32c_table[0][crc & 0xff] ^ (crc >> 8)`. -/
def crc32cTableStep (crc : BitVec 32) : BitVec 32 :=
  crc32cTable (crc &&& 0xff#32) ^^^ (crc >>> 8)

/-- `crc32c_table[k][n]` as `crc32c_init_sw` fills it: `crc32c_table[0][n]`, taken `k` times
through the step. -/
def crc32cTableSw (k : ℕ) (n : BitVec 32) : BitVec 32 := crc32cTableStep^[k] (crc32cTable n)

/-! ## `crc32c_sw` -/

/-- The one-byte step of `crc32c_sw` on its 64-bit register:
`crc = crc32c_table[0][(crc ^ *next++) & 0xff] ^ (crc >> 8)`. -/
def crc32cSwByte (crc : BitVec 64) (b : UInt8) : BitVec 64 :=
  (crc32cTable (((crc ^^^ BitVec.ofNat 64 b.toNat) &&& 0xff#64).setWidth 32)).setWidth 64 ^^^
    (crc >>> 8)

/-- `le64toh(ncopy)` after `memcpy(&ncopy, next, sizeof(ncopy))`: the bytes, the first the
least significant. -/
def le64 (bs : List UInt8) : BitVec 64 := leWord (fun b : UInt8 => BitVec.ofNat 64 b.toNat) bs

/-- The eight-byte step of `crc32c_sw`: `crc ^= le64toh(ncopy)`, then one lookup per byte of
the register, its low byte in `crc32c_table[7]` and its high byte in `crc32c_table[0]`. -/
def crc32cSwWord (crc w : BitVec 64) : BitVec 64 :=
  let crc := crc ^^^ w
  (crc32cTableSw 7 ((crc &&& 0xff#64).setWidth 32) ^^^
    crc32cTableSw 6 (((crc >>> 8) &&& 0xff#64).setWidth 32) ^^^
    crc32cTableSw 5 (((crc >>> 16) &&& 0xff#64).setWidth 32) ^^^
    crc32cTableSw 4 (((crc >>> 24) &&& 0xff#64).setWidth 32) ^^^
    crc32cTableSw 3 (((crc >>> 32) &&& 0xff#64).setWidth 32) ^^^
    crc32cTableSw 2 (((crc >>> 40) &&& 0xff#64).setWidth 32) ^^^
    crc32cTableSw 1 (((crc >>> 48) &&& 0xff#64).setWidth 32) ^^^
    crc32cTableSw 0 ((crc >>> 56).setWidth 32)).setWidth 64

/-- The first loop of `crc32c_sw`: a byte at a time while `next`, the address of the next
byte, is not a multiple of eight. -/
def crc32cSwAlign : ℕ → BitVec 64 → List UInt8 → BitVec 64 × List UInt8
  | _, crc, [] => (crc, [])
  | next, crc, b :: bs =>
    if next &&& 7 ≠ 0 then crc32cSwAlign (next + 1) (crc32cSwByte crc b) bs else (crc, b :: bs)

/-- The second loop of `crc32c_sw`: eight bytes at a time while eight are left. -/
def crc32cSwWords : BitVec 64 → List UInt8 → BitVec 64 × List UInt8
  | crc, b₀ :: b₁ :: b₂ :: b₃ :: b₄ :: b₅ :: b₆ :: b₇ :: bs =>
    crc32cSwWords (crc32cSwWord crc (le64 [b₀, b₁, b₂, b₃, b₄, b₅, b₆, b₇])) bs
  | crc, bs => (crc, bs)

/-- `crc32c_sw(crci, buf, len)`, with `buf` at address `addr`. -/
def crc32cSw (addr : ℕ) (crci : BitVec 32) (buf : List UInt8) : BitVec 32 :=
  let (crc, rest) := crc32cSwAlign addr ((crci ^^^ 0xffffffff#32).setWidth 64) buf
  let (crc, rest) := crc32cSwWords crc rest
  -- the third loop: the bytes left, one at a time
  (rest.foldl crc32cSwByte crc).setWidth 32 ^^^ 0xffffffff#32

/-! ## Zero bytes -/

/-- The register of `crc32c_sw` after a zero byte. -/
def crc32cSwZero (crc : BitVec 64) : BitVec 64 :=
  (crc32cTable ((crc &&& 0xff#64).setWidth 32)).setWidth 64 ^^^ (crc >>> 8)

theorem xorLinear_crc32cTable : XorLinear crc32cTable :=
  (xorLinear_lfsr crc32cPoly).iterate 8

theorem xorLinear_crc32cSwZero : XorLinear crc32cSwZero :=
  ((xorLinear_setWidth 64).comp (xorLinear_crc32cTable.comp
    ((xorLinear_setWidth 32).comp (xorLinear_and _)))).xor (xorLinear_ushiftRight 8)

/-- A zero byte takes the low byte of the register through the table and moves the rest
down. -/
theorem crc32cSwZero_byte (x : BitVec 64) :
    crc32cSwZero x = crc32cSwZero (x &&& 0xff#64) ^^^ (x >>> 8) := by
  have hlow : (x &&& 0xff#64) >>> 8 = 0#64 :=
    ushiftRight_eight_of_byte fun _ hi => getLsbD_and_0xff_of_le x hi
  rw [crc32cSwZero, crc32cSwZero, BitVec.and_assoc, BitVec.and_self, hlow, BitVec.xor_zero]

/-- A byte moves the register as a zero byte moves the register xor the byte. -/
theorem crc32cSwByte_eq (crc : BitVec 64) (b : UInt8) :
    crc32cSwByte crc b = crc32cSwZero (crc ^^^ BitVec.ofNat 64 b.toNat) := by
  have hb : BitVec.ofNat 64 b.toNat >>> 8 = 0#64 :=
    ushiftRight_eight_of_byte fun _ hi => getLsbD_ofNat_toNat_of_le b 64 hi
  rw [crc32cSwZero, ushiftRight_xor_distrib, hb, BitVec.xor_zero, crc32cSwByte]

/-- The same for the 32-bit register of the model. -/
theorem crc32cByte_eq (crc : BitVec 32) (b : UInt8) :
    crc32cByte crc b = crc32cTableStep (crc ^^^ BitVec.ofNat 32 b.toNat) := by
  have hb : BitVec.ofNat 32 b.toNat >>> 8 = 0#32 :=
    ushiftRight_eight_of_byte fun _ hi => getLsbD_ofNat_toNat_of_le b 32 hi
  rw [crc32cTableStep, ushiftRight_xor_distrib, hb, BitVec.xor_zero, crc32cByte]

/-- A 32-bit register stays one in 64 bits: the table step is the zero byte. -/
theorem setWidth_crc32cTableStep (c : BitVec 32) :
    (crc32cTableStep c).setWidth 64 = crc32cSwZero (c.setWidth 64) := by
  have hidx : (c.setWidth 64 &&& 0xff#64).setWidth 32 = c &&& 0xff#32 := by
    apply eq_of_getLsbD_eq
    intro i hi
    simp [hi]
  have hdown : c.setWidth 64 >>> 8 = (c >>> 8).setWidth 64 := by
    apply eq_of_getLsbD_eq
    intro i hi
    simp only [getLsbD_ushiftRight, getLsbD_setWidth]
    by_cases h : 8 + i < 32
    · simp [h, hi, show 8 + i < 64 by omega]
    · simp [getLsbD_of_ge c (8 + i) (by omega)]
  rw [crc32cTableStep, crc32cSwZero, hidx, hdown, setWidth_xor]

/-- `crc32c_table[k][n]`, in 64 bits, is the table entry of `n` moved by `k` zero bytes. -/
theorem setWidth_crc32cTableSw (k : ℕ) (n : BitVec 32) :
    (crc32cTableSw k n).setWidth 64 = crc32cSwZero^[k] ((crc32cTable n).setWidth 64) := by
  induction k with
  | zero => rfl
  | succ k ih =>
    rw [crc32cTableSw, Function.iterate_succ_apply', ← crc32cTableSw,
      setWidth_crc32cTableStep, ih, ← Function.iterate_succ_apply' crc32cSwZero]

/-- `crc32c_table[k][e]`, for a byte `e`, is `e` moved by `k + 1` zero bytes. -/
theorem setWidth_crc32cTableSw_byte (k : ℕ) {e : BitVec 64}
    (he : ∀ i, 8 ≤ i → e.getLsbD i = false) :
    (crc32cTableSw k (e.setWidth 32)).setWidth 64 = crc32cSwZero^[k + 1] e := by
  have hzero : crc32cSwZero e = (crc32cTable (e.setWidth 32)).setWidth 64 := by
    rw [crc32cSwZero, and_0xff_of_byte he, ushiftRight_eight_of_byte he, BitVec.xor_zero]
  rw [setWidth_crc32cTableSw, ← hzero, Function.iterate_succ_apply]

/-! ## Eight bytes at a time -/

/-- The eight lookups are eight zero bytes: each byte of the register goes through as many
zero bytes as follow it. -/
theorem crc32cSwWord_eq_iterate (c w : BitVec 64) :
    crc32cSwWord c w = crc32cSwZero^[8] (c ^^^ w) := by
  set x := c ^^^ w
  have hbyte := crc32cSwZero_byte
  have hlin := xorLinear_crc32cSwZero
  -- the bytes of `x`, low to high, and the zero bytes that follow each
  have hsplit : crc32cSwZero^[8] x =
      crc32cSwZero^[8] (x &&& 0xff#64) ^^^ crc32cSwZero^[7] ((x >>> 8) &&& 0xff#64) ^^^
        crc32cSwZero^[6] ((x >>> 16) &&& 0xff#64) ^^^
        crc32cSwZero^[5] ((x >>> 24) &&& 0xff#64) ^^^
        crc32cSwZero^[4] ((x >>> 32) &&& 0xff#64) ^^^
        crc32cSwZero^[3] ((x >>> 40) &&& 0xff#64) ^^^
        crc32cSwZero^[2] ((x >>> 48) &&& 0xff#64) ^^^ crc32cSwZero^[1] (x >>> 56) := by
    rw [iterate_succ_byte hlin hbyte 7, iterate_succ_byte hlin hbyte 6,
      iterate_succ_byte hlin hbyte 5, iterate_succ_byte hlin hbyte 4,
      iterate_succ_byte hlin hbyte 3, iterate_succ_byte hlin hbyte 2,
      iterate_succ_byte hlin hbyte 1]
    simp only [← shiftRight_add]
    ac_rfl
  have hlow : ∀ s : ℕ, ∀ i, 8 ≤ i → ((x >>> s) &&& 0xff#64).getLsbD i = false :=
    fun s _ hi => getLsbD_and_0xff_of_le _ hi
  have htop : ∀ i, 8 ≤ i → (x >>> 56).getLsbD i = false := by
    intro i hi
    rw [getLsbD_ushiftRight, getLsbD_of_ge x (56 + i) (by omega)]
  rw [hsplit, crc32cSwWord]
  simp only [setWidth_xor]
  rw [setWidth_crc32cTableSw_byte 7 (fun _ hi => getLsbD_and_0xff_of_le x hi),
    setWidth_crc32cTableSw_byte 6 (hlow 8), setWidth_crc32cTableSw_byte 5 (hlow 16),
    setWidth_crc32cTableSw_byte 4 (hlow 24), setWidth_crc32cTableSw_byte 3 (hlow 32),
    setWidth_crc32cTableSw_byte 2 (hlow 40), setWidth_crc32cTableSw_byte 1 (hlow 48),
    setWidth_crc32cTableSw_byte 0 htop]

/-- **The eight-byte step is eight one-byte steps.** -/
theorem crc32cSwWord_le64 {bs : List UInt8} (hbs : bs.length = 8) (c : BitVec 64) :
    crc32cSwWord c (le64 bs) = bs.foldl crc32cSwByte c := by
  have hstep : crc32cSwByte = fun c b => crc32cSwZero (c ^^^ BitVec.ofNat 64 b.toNat) :=
    funext fun c => funext (crc32cSwByte_eq c)
  rw [hstep, foldl_eq_iterate_leWord xorLinear_crc32cSwZero crc32cSwZero_byte _
    (fun b _ hi => getLsbD_ofNat_toNat_of_le b 64 hi) bs c (by omega), hbs,
    crc32cSwWord_eq_iterate, le64]

/-! ## The loops -/

/-- The first loop takes a byte at a time from the front of the buffer. -/
theorem crc32cSwAlign_eq : ∀ (next : ℕ) (c : BitVec 64) (bs : List UInt8),
    ∃ pre rest, bs = pre ++ rest ∧ crc32cSwAlign next c bs = (pre.foldl crc32cSwByte c, rest)
  | _, c, [] => ⟨[], [], rfl, rfl⟩
  | next, c, b :: bs => by
    rw [crc32cSwAlign]
    split
    · obtain ⟨pre, rest, hbs, h⟩ := crc32cSwAlign_eq (next + 1) (crc32cSwByte c b) bs
      exact ⟨b :: pre, rest, by rw [hbs, List.cons_append], h⟩
    · exact ⟨[], b :: bs, rfl, rfl⟩

/-- The second loop takes the bytes of the buffer it passes over one at a time. -/
theorem crc32cSwWords_eq (c : BitVec 64) (bs : List UInt8) :
    ∃ pre rest, bs = pre ++ rest ∧ crc32cSwWords c bs = (pre.foldl crc32cSwByte c, rest) := by
  fun_induction crc32cSwWords c bs with
  | case1 c b₀ b₁ b₂ b₃ b₄ b₅ b₆ b₇ bs ih =>
    obtain ⟨pre, rest, hbs, hrun⟩ := ih
    refine ⟨[b₀, b₁, b₂, b₃, b₄, b₅, b₆, b₇] ++ pre, rest, by rw [hbs]; rfl, ?_⟩
    rw [hrun, List.foldl_append, crc32cSwWord_le64 rfl]
  | case2 c bs _ => exact ⟨[], bs, rfl, rfl⟩

/-- From a 32-bit register, the 64-bit one-byte steps are those of the model. -/
theorem foldl_crc32cSwByte_setWidth (bs : List UInt8) (c : BitVec 32) :
    bs.foldl crc32cSwByte (c.setWidth 64) = (bs.foldl crc32cByte c).setWidth 64 := by
  induction bs generalizing c with
  | nil => rfl
  | cons b bs ih =>
    have hb : (BitVec.ofNat 32 b.toNat).setWidth 64 = BitVec.ofNat 64 b.toNat :=
      setWidth_ofNat_of_le_of_lt (by omega) (lt_of_lt_of_le b.toNat_lt (by decide))
    rw [List.foldl_cons, List.foldl_cons, crc32cSwByte_eq, ← hb, ← setWidth_xor,
      ← setWidth_crc32cTableStep, ← crc32cByte_eq, ih]

/-- **`crc32c_sw` is `rd_crc32c`.**  Wherever the buffer lies, and so wherever the loops
change over, the table-driven software CRC is the bytewise CRC32C. -/
theorem crc32cSw_eq_crc32c (addr : ℕ) (crci : BitVec 32) (buf : List UInt8) :
    crc32cSw addr crci buf = crc32c crci buf := by
  obtain ⟨pre₁, rest₁, hbuf, halign⟩ :=
    crc32cSwAlign_eq addr ((crci ^^^ 0xffffffff#32).setWidth 64) buf
  obtain ⟨pre₂, rest₂, hrest, hwords⟩ :=
    crc32cSwWords_eq (pre₁.foldl crc32cSwByte ((crci ^^^ 0xffffffff#32).setWidth 64)) rest₁
  rw [crc32cSw, halign]
  dsimp only
  rw [hwords]
  dsimp only
  rw [← List.foldl_append, ← List.foldl_append, ← hrest, ← hbuf,
    foldl_crc32cSwByte_setWidth, setWidth_setWidth_of_le _ (by omega), setWidth_eq, crc32c]

/-- The CRC-32C check value, of `"123456789"`, through one eight-byte step and one byte. -/
example : crc32cSw 0 0 [49, 50, 51, 52, 53, 54, 55, 56, 57] = 0xe3069283#32 := by
  decide +kernel

end Rdkafka
