import Rdkafka.Buf.KafkaBuf

/-!
# CRC32C

This file models `rd_crc32c` (`src/crc32c.c`) and `rd_slice_crc32c` (`src/rdbuf.c`), which
computes the CRC32C of the bytes a slice has left, segment by segment.

`rd_crc32c(crc, buf, len)` continues a CRC: it undoes the final complement of `crc`, runs
the CRC register over the bytes and complements again, so a CRC taken in pieces is the CRC
of the pieces together (`crc32c_append`).  The software path `crc32c_sw` steps the
register one byte at a time through the table `crc32c_table[0]` up to an aligned address
and then eight bytes at a time through the tables `crc32c_table[1..7]`, which
`crc32c_init_sw` builds so that the eight-byte step is eight one-byte steps; the model takes
every byte through the one-byte step.  The hardware path computes the same function.
-/

set_option autoImplicit false

namespace Rdkafka

/-- `POLY`, the CRC-32C (Castagnoli) polynomial, bit-reflected. -/
def crc32cPoly : BitVec 32 := 0x82f63b78#32

/-- One step of `crc32c_init_sw`: `crc & 1 ? (crc >> 1) ^ POLY : crc >> 1`. -/
def crc32cShift (crc : BitVec 32) : BitVec 32 :=
  if crc &&& 1#32 = 1#32 then (crc >>> 1) ^^^ crc32cPoly else crc >>> 1

/-- `crc32c_table[0][n]`: eight steps from `n`. -/
def crc32cTable (n : BitVec 32) : BitVec 32 := Nat.iterate crc32cShift 8 n

/-- The one-byte step of `crc32c_sw`:
`crc = crc32c_table[0][(crc ^ *next++) & 0xff] ^ (crc >> 8)`. -/
def crc32cByte (crc : BitVec 32) (b : UInt8) : BitVec 32 :=
  crc32cTable ((crc ^^^ BitVec.ofNat 32 b.toNat) &&& 0xff#32) ^^^ (crc >>> 8)

/-- `rd_crc32c(crc, buf, len)`. -/
def crc32c (crc : BitVec 32) (buf : List UInt8) : BitVec 32 :=
  buf.foldl crc32cByte (crc ^^^ 0xffffffff#32) ^^^ 0xffffffff#32

@[simp] theorem crc32c_nil (crc : BitVec 32) : crc32c crc [] = crc := by
  simp only [crc32c, List.foldl_nil, BitVec.xor_assoc, BitVec.xor_self, BitVec.xor_zero]

/-- A CRC continued over more bytes is the CRC of all of them. -/
theorem crc32c_append (crc : BitVec 32) (a b : List UInt8) :
    crc32c (crc32c crc a) b = crc32c crc (a ++ b) := by
  simp only [crc32c, List.foldl_append, BitVec.xor_assoc, BitVec.xor_self, BitVec.xor_zero]

/-- The `while ((rlen = rd_slice_reader(slice, &p)))` loop of `rd_slice_crc32c`; `none` is a
failed assertion in the reader.  `fuel` bounds the reader calls as in `sliceReadLoop`. -/
def sliceCrc32cLoop (b : Buf) : ℕ → BitVec 32 → Slice → Option (BitVec 32)
  | 0, _, _ => none
  | fuel + 1, crc, s =>
    match sliceReader0 b s true with
    | none => none
    | some ([], _) => some crc
    | some (p, s) => sliceCrc32cLoop b fuel (crc32c crc p) s

/-- `rd_slice_crc32c(slice)`: the CRC32C of the bytes left in the slice. -/
def sliceCrc32c (b : Buf) (s : Slice) : Option (BitVec 32) :=
  sliceCrc32cLoop b (b.segs.length + 1) 0 s

/-- The CRC loop takes the CRC of the bytes the read loop reads. -/
theorem sliceCrc32cLoop_eq (b : Buf) (fuel : ℕ) (crc : BitVec 32) (s : Slice) :
    sliceCrc32cLoop b fuel crc s = (sliceReadLoop b fuel s).map fun r => crc32c crc r.1 := by
  induction fuel generalizing crc s with
  | zero => rfl
  | succ fuel ih =>
    rw [sliceCrc32cLoop, sliceReadLoop]
    rcases hr : sliceReader0 b s true with _ | ⟨_ | ⟨x, xs⟩, s'⟩
    · rfl
    · simp
    · simp only [ih, Option.map_map]
      congr 1
      funext r
      simp [Function.comp, crc32c_append]

/-- The CRC of a window of the shadow buffer is the CRC of its bytes. -/
theorem sliceCrc32c_window {data : List UInt8} {p e : ℕ} (hpe : p ≤ e) (he : e ≤ data.length) :
    sliceCrc32c (shadowBuf data) (windowSlice p e) = some (crc32c 0 ((data.drop p).take (e - p))) := by
  rw [sliceCrc32c, sliceCrc32cLoop_eq]
  have hfuel : (shadowBuf data).segs.length + 1 = 0 + 2 := rfl
  rw [hfuel, sliceReadLoop_window hpe he]
  rfl

end Rdkafka
