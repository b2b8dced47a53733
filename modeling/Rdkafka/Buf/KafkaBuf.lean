import Rdkafka.Buf.SliceVarint
import Rdkafka.Lib.ByteFields

/-!
# Protocol buffers

This file models the reading side of `rd_kafka_buf_t` (`src/rdkafka_buf.h`,
`src/rdkafka_buf.c`) that protocol parsers use: a buffer with a reader slice,
`rd_kafka_buf_new_shadow` (a buffer over memory it does not own), and the read macros
`rd_kafka_buf_read_varint` and `rd_kafka_buf_read_ptr` with their underflow checks, as well
as the bytes `rd_kafka_buf_write_varint` writes.

A read that fails jumps to the parser's `err_parse` label with `rkbuf_err` set; here it
is an `Except` error.  Where a macro would go on with a `NULL` pointer into memory it is
undefined behaviour, and the result is `none`.

The lemmas are about the buffer `rd_kafka_buf_new_shadow` builds, one read-only segment,
and its reader narrowed to a window of it: a read there takes the bytes at the reader's offset
(`bufReadVarint_window`, `bufReadPtr_window`), and each read macro either does so or fails
with an underflow (`bufReadVarint_window_cases`, `bufSkip_window_cases`).
-/

set_option autoImplicit false

namespace Rdkafka

open Leb128

/-- The `rd_kafka_resp_err_t` codes of the modelled functions. -/
inductive RespErr where
  /-- `RD_KAFKA_RESP_ERR_NO_ERROR`. -/
  | noError
  /-- `RD_KAFKA_RESP_ERR__BAD_MSG`. -/
  | badMsg
  /-- `RD_KAFKA_RESP_ERR__NOENT`. -/
  | noent
  /-- `RD_KAFKA_RESP_ERR__UNDERFLOW`. -/
  | underflow
  deriving DecidableEq, Repr

/-! ## Machine integers -/

/-- `INT32_MAX`. -/
def int32Max : ℕ := 2 ^ 31 - 1

/-- `a + b` on `int64_t`; `none` when it overflows. -/
def i64Add (a b : BitVec 64) : Option (BitVec 64) := if a.saddOverflow b then none else some (a + b)

/-- `a - b` on `int64_t`; `none` when it overflows. -/
def i64Sub (a b : BitVec 64) : Option (BitVec 64) := if a.ssubOverflow b then none else some (a - b)

/-- An `int32_t` converted to `size_t`. -/
def i32ToSize (x : BitVec 32) : ℕ := (x.signExtend 64).toNat

/-- A `size_t` converted to `int32_t`. -/
def sizeToI32 (n : ℕ) : BitVec 32 := BitVec.ofNat 32 n

/-- `a + b` on `size_t`. -/
def sizeAdd (a b : ℕ) : ℕ := (a + b) % 2 ^ 64

theorem i64Add_of_not_saddOverflow {a b : BitVec 64} (h : ¬a.saddOverflow b) :
    i64Add a b = some (a + b) := if_neg h

theorem sizeAdd_of_lt {a b : ℕ} (h : a + b < 2 ^ 64) : sizeAdd a b = a + b := Nat.mod_eq_of_lt h

theorem sizeSub_of_le {a b : ℕ} (h : b ≤ a) (ha : a < 2 ^ 64) : sizeSub a b = a - b := by
  unfold sizeSub
  omega

theorem signExtend_ofNat_of_lt {n : ℕ} (h : n < 2 ^ 31) :
    (BitVec.ofNat 32 n).signExtend 64 = BitVec.ofNat 64 n := by
  have hmsb : (BitVec.ofNat 32 n).msb = false := by
    rw [BitVec.msb_eq_false_iff_two_mul_lt, BitVec.toNat_ofNat]
    omega
  rw [BitVec.signExtend_eq_setWidth_of_msb_false hmsb]
  apply BitVec.eq_of_toNat_eq
  simp only [BitVec.toNat_setWidth, BitVec.toNat_ofNat]
  omega

/-- A size below `2^31` survives the round trip through `int32_t`. -/
theorem i32ToSize_sizeToI32 {n : ℕ} (h : n < 2 ^ 31) : i32ToSize (sizeToI32 n) = n := by
  rw [i32ToSize, sizeToI32, signExtend_ofNat_of_lt h, BitVec.toNat_ofNat]
  omega

/-! ## Reading -/

/-- `rd_kafka_buf_new_shadow(ptr, size, free_cb)`: a buffer with `data` pushed as one
read-only segment, and its reader slice over all of it; `none` is the failed assertion in
`rd_slice_init_full`. -/
def bufNewShadow (data : List UInt8) : Option (Buf × Slice) :=
  match bufPush0 bufInit data false with
  | none => none
  | some b => (sliceInitFull b).map fun s => (b, s)

/-- `rd_kafka_buf_read_varint(rkbuf, &v)` on the reader slice `s`: the value and the slice
after it, or underflow.  A read that returns a byte count always stores the value, so the
last case does not occur. -/
def bufReadVarint (b : Buf) (s : Slice) : Except RespErr (BitVec 64 × Slice) :=
  match sliceReadVarint b s with
  | (0, _, _) => .error .underflow
  | (_, some v, s) => .ok (v, s)
  | (_, none, _) => .error .underflow

/-- `rd_kafka_buf_check_len(rkbuf, len)`: underflow unless `len` bytes remain. -/
def bufCheckLen (b : Buf) (s : Slice) (len : ℕ) : Except RespErr Unit :=
  if sliceRemains b s < len then .error .underflow else .ok ()

/-- `rd_kafka_buf_read_ptr(rkbuf, &p, len)`: a pointer to `len` contiguous bytes (the memory
from there on) and the slice after them.  When they are not contiguous but remain, the
pointer is `NULL` (inner `none`); when they do not remain, underflow. -/
def bufReadPtr (b : Buf) (s : Slice) (len : ℕ) :
    Option (Except RespErr (Option (List UInt8) × Slice)) :=
  match sliceEnsureContig b s len with
  | none => none
  | some (some p, s) => some (.ok (some p, s))
  | some (none, s) => some ((bufCheckLen b s len).map fun _ => (none, s))

/-- The bytes `rd_kafka_buf_write_varint(rkbuf, v)` writes: `rd_uvarint_enc_i64` into a
buffer of `RD_UVARINT_ENC_SIZEOF(int64_t)` bytes. -/
def bufWriteVarint (v : BitVec 64) : List UInt8 :=
  let r := uvarintEncI64 (uvarintEncSizeof 8) v
  r.2.take r.1

/-- `rd_kafka_buf_read(rkbuf, dst, len)`: the `len` bytes copied to `dst` and the slice
after them.  `rd_slice_read` returns `0` when fewer remain, and then `rd_kafka_buf_check_len`
fails unless `len` is `0`. -/
def bufRead (b : Buf) (s : Slice) (len : ℕ) : Option (Except RespErr (List UInt8 × Slice)) :=
  (sliceRead b s len).map fun (r, bytes, s') =>
    if r = 0 then (bufCheckLen b s' len).map fun _ => (bytes, s') else .ok (bytes, s')

/-- `rd_kafka_buf_read_i8` and the byte-swapping `rd_kafka_buf_read_i16`, `_i32` and `_i64`:
a `w`-byte integer in network byte order. -/
def bufReadInt (w : ℕ) (b : Buf) (s : Slice) : Option (Except RespErr (BitVec (8 * w) × Slice)) :=
  (bufRead b s w).map fun r => r.map fun (bytes, s') =>
    (BitVec.ofNat (8 * w) (BigEndian.ofBytes bytes), s')

/-- `rd_kafka_buf_read_i64(rkbuf, &v)`. -/
def bufReadI64 (b : Buf) (s : Slice) : Option (Except RespErr (BitVec 64 × Slice)) :=
  bufReadInt 8 b s

/-- `rd_kafka_buf_read_i32(rkbuf, &v)`. -/
def bufReadI32 (b : Buf) (s : Slice) : Option (Except RespErr (BitVec 32 × Slice)) :=
  bufReadInt 4 b s

/-- `rd_kafka_buf_read_i16(rkbuf, &v)`. -/
def bufReadI16 (b : Buf) (s : Slice) : Option (Except RespErr (BitVec 16 × Slice)) :=
  bufReadInt 2 b s

/-- `rd_kafka_buf_read_i8(rkbuf, &v)`. -/
def bufReadI8 (b : Buf) (s : Slice) : Option (Except RespErr (BitVec 8 × Slice)) :=
  bufReadInt 1 b s

/-- `rd_kafka_buf_skip(rkbuf, len)`. -/
def bufSkip (b : Buf) (s : Slice) (len : ℕ) : Option (Except RespErr Slice) :=
  if len = 0 then some (.ok s) else (bufRead b s len).map fun r => r.map Prod.snd

/-- `rd_kafka_buf_skip_to(rkbuf, pos)`: skip to the slice offset `pos`; the distance is a
`size_t` difference. -/
def bufSkipTo (b : Buf) (s : Slice) (pos : ℕ) : Option (Except RespErr Slice) :=
  bufSkip b s (sizeSub pos (sliceOffset b s))

/-- A Kafka bytes field `rd_kafkap_bytes_t`: `len` (`-1` for `NULL`) and `data`, the memory
it points to (`none` for `NULL`). -/
structure KafkapBytes where
  /-- `len`. -/
  len : BitVec 32
  /-- `data`. -/
  data : Option (List UInt8)
  deriving DecidableEq, Repr

/-- `RD_KAFKAP_BYTES_LEN(kbytes)`: the length, `0` for `NULL`. -/
def KafkapBytes.bytesLen (kb : KafkapBytes) : BitVec 32 := if kb.len = -1 then 0 else kb.len

/-- The memory of the string literal `""`. -/
def emptyString : List UInt8 := [0]

/-- `rd_kafka_buf_read_kbytes_varint(rkbuf, &kbytes)`: a varint length and that many bytes.
A `NULL` field gets length `0`, an empty one points to `""`; bytes that remain but are not
contiguous leave the pointer `NULL`. -/
def bufReadKbytesVarint (b : Buf) (s : Slice) : Option (Except RespErr (KafkapBytes × Slice)) :=
  match sliceReadVarint b s with
  | (0, _, _) => some (.error .underflow)
  | (_, none, _) => some (.error .underflow)
  | (_, some len2, s) =>
    let len : BitVec 32 := len2.setWidth 32
    if len = -1 then some (.ok (⟨0, none⟩, s))
    else if len = 0 then some (.ok (⟨len, some emptyString⟩, s))
    else
      match sliceEnsureContig b s len2.toNat with
      | none => none
      | some (some p, s) => some (.ok (⟨len, some p⟩, s))
      | some (none, s) => some ((bufCheckLen b s len2.toNat).map fun _ => (⟨len, none⟩, s))

/-- `rd_slice_narrow_relative(slice, &save_slice, relsize)`: the slice cut to end `relsize`
bytes after the read position, or `none` (the return value `0`) when it is shorter.  The
outer `none` is the failed `rd_assert`.  The saved slice is the slice before. -/
def sliceNarrowRelative (b : Buf) (s : Slice) (relsize : ℕ) : Option (Option Slice) :=
  let size := sliceOffset b s + relsize
  if s.stop < s.start + size then some none
  else
    let s' := { s with stop := s.start + size }
    if sliceAbsOffset b s' ≤ s'.stop then some (some s') else none

/-- `rd_slice_widen(slice, save_slice)`: the end of `save_slice`, the read position of
`slice`. -/
def sliceWiden (s save : Slice) : Slice := { s with stop := save.stop }

/-- `rd_slice_narrow_copy_relative(orig, &new_slice, relsize)`. -/
def sliceNarrowCopyRelative (b : Buf) (orig : Slice) (relsize : ℕ) : Option (Option Slice) :=
  sliceNarrowCopy b orig (sliceOffset b orig + relsize)

/-- Past a known prefix of the bytes from offset `p` come the bytes after it. -/
theorem drop_add_length_of_drop_eq {data a t : List UInt8} {p : ℕ} (h : data.drop p = a ++ t) :
    data.drop (p + a.length) = t := by
  rw [← List.drop_drop, h, List.drop_left]

/-- Bytes known to come at offset `p` lie within the data. -/
theorem add_length_le_of_drop_eq {data a t : List UInt8} {p : ℕ} (h : data.drop p = a ++ t)
    (ha : a ≠ []) : p + a.length ≤ data.length := by
  have hlen := congrArg List.length h
  rw [List.length_drop, List.length_append] at hlen
  have := List.length_pos_of_ne_nil ha
  omega

theorem add_length_le_of_drop_eq_of_le {data a t : List UInt8} {p : ℕ}
    (h : data.drop p = a ++ t) (hp : p ≤ data.length) : p + a.length ≤ data.length := by
  have hlen := congrArg List.length h
  rw [List.length_drop, List.length_append] at hlen
  omega

theorem bufWriteVarint_eq (v : BitVec 64) :
    bufWriteVarint v = encode (BitVec.zigzagEncode v).toNat := by
  rw [bufWriteVarint, uvarintEncI64_eq_encode v le_rfl]
  exact List.take_length

theorem bufWriteVarint_ne_nil (v : BitVec 64) : bufWriteVarint v ≠ [] := by
  rw [bufWriteVarint_eq]
  exact encode_ne_nil _

/-! ## The shadow buffer -/

/-- The buffer `rd_kafka_buf_new_shadow` builds over `data`. -/
def shadowBuf (data : List UInt8) : Buf :=
  ⟨[⟨data, data.length, 0, true, 0⟩], some 0, data.length, 0, data.length⟩

/-- A reader of the shadow buffer at offset `p` whose end is at offset `e`. -/
def windowSlice (p e : ℕ) : Slice := ⟨some 0, p, 0, e⟩

theorem bufNewShadow_eq {data : List UInt8} (h : data ≠ []) :
    bufNewShadow data = some (shadowBuf data, windowSlice 0 data.length) := by
  have hpos : 0 < data.length := List.length_pos_iff.2 h
  simp [bufNewShadow, bufPush0, bufInit, bufAppendSegment, sliceInitFull, sliceInit,
    bufGetSegmentAtOffset, segmentAtFrom, sliceInitSeg, shadowBuf, windowSlice, Segment.of,
    hpos, Nat.pos_iff_ne_zero.1 hpos]

theorem segsFrom_shadowBuf (data : List UInt8) : SegsFrom 0 (shadowBuf data).segs := by
  simp [SegsFrom, shadowBuf]

theorem segsData_shadowBuf (data : List UInt8) : segsData ((shadowBuf data).segs.drop 0) = data := by
  simp [shadowBuf]

@[simp] theorem sliceOffset_window (data : List UInt8) (p e : ℕ) :
    sliceOffset (shadowBuf data) (windowSlice p e) = p := by
  simp [sliceOffset, Slice.segment, shadowBuf, windowSlice]

@[simp] theorem sliceRemains_window (data : List UInt8) (p e : ℕ) :
    sliceRemains (shadowBuf data) (windowSlice p e) = e - p := by
  simp [sliceRemains, sliceAbsOffset, Slice.segment, shadowBuf, windowSlice]

/-- The shadow buffer's slice reads varints from the bytes at its offset. -/
theorem sliceReadVarint_window {data : List UInt8} {p e : ℕ} (he : e ≤ data.length)
    (u : BitVec 64) (t : List UInt8) (hbytes : data.drop p = encode u.toNat ++ t)
    (hfit : p + (encode u.toNat).length ≤ e) :
    sliceReadVarint (shadowBuf data) (windowSlice p e) =
      ((encode u.toNat).length, some (BitVec.zigzagDecode u),
        windowSlice (p + (encode u.toNat).length) e) := by
  obtain ⟨j, rof', seg', hread, hseg', hpos⟩ :=
    sliceReadVarint_encode_append (segsFrom_shadowBuf data) (s := windowSlice p e)
      (i := 0) rfl rfl (by simp [windowSlice, Segment.of]; omega) u t
      (by rw [segsData_shadowBuf]; exact hbytes) (by simpa [windowSlice] using hfit)
  obtain ⟨hj, hseg''⟩ := List.getElem?_eq_some_iff.1 hseg'
  obtain rfl : j = 0 := by simpa [shadowBuf] using hj
  obtain rfl : seg' = ⟨data, data.length, 0, true, 0⟩ := by simpa [shadowBuf] using hseg''.symm
  have hrof : rof' = p + (encode u.toNat).length := by
    simpa [windowSlice] using hpos
  rw [hread, hrof]
  rfl

/-- The shadow buffer's reader reads varints from the bytes at its offset. -/
theorem bufReadVarint_window {data : List UInt8} {p e : ℕ} (he : e ≤ data.length)
    (u : BitVec 64) (t : List UInt8) (hbytes : data.drop p = encode u.toNat ++ t)
    (hfit : p + (encode u.toNat).length ≤ e) :
    bufReadVarint (shadowBuf data) (windowSlice p e) =
      .ok (BitVec.zigzagDecode u, windowSlice (p + (encode u.toNat).length) e) := by
  have hk := one_le_length_encode u.toNat
  rw [bufReadVarint, sliceReadVarint_window he u t hbytes hfit]
  cases hk' : (encode u.toNat).length with
  | zero => omega
  | succ k => rfl

/-- A varint the writer wrote is read back by the shadow buffer's slice. -/
theorem sliceReadVarint_window_write {data : List UInt8} {p e : ℕ} (he : e ≤ data.length)
    (v : BitVec 64) {t : List UInt8} (hbytes : data.drop p = bufWriteVarint v ++ t)
    (hfit : p + (bufWriteVarint v).length ≤ e) :
    sliceReadVarint (shadowBuf data) (windowSlice p e) =
      ((bufWriteVarint v).length, some v, windowSlice (p + (bufWriteVarint v).length) e) := by
  rw [bufWriteVarint_eq] at hbytes hfit ⊢
  rw [sliceReadVarint_window he _ t hbytes hfit, BitVec.zigzagDecode_zigzagEncode]

/-- A varint the writer wrote is read back by the shadow buffer's reader. -/
theorem bufReadVarint_window_write {data : List UInt8} {p e : ℕ} (he : e ≤ data.length)
    (v : BitVec 64) {t : List UInt8} (hbytes : data.drop p = bufWriteVarint v ++ t)
    (hfit : p + (bufWriteVarint v).length ≤ e) :
    bufReadVarint (shadowBuf data) (windowSlice p e) =
      .ok (v, windowSlice (p + (bufWriteVarint v).length) e) := by
  rw [bufWriteVarint_eq] at hbytes hfit ⊢
  rw [bufReadVarint_window he _ t hbytes hfit, BitVec.zigzagDecode_zigzagEncode]

/-- At the slice end the shadow buffer's reader has nothing to give. -/
theorem sliceReader0_shadow_end (data : List UInt8) (q start : ℕ) :
    sliceReader0 (shadowBuf data) ⟨some 0, q, start, q⟩ true = some ([], ⟨some 0, q, start, q⟩) := by
  simp [sliceReader0, readerFind, shadowBuf]

/-- Before the slice end the shadow buffer's reader gives all the bytes up to it. -/
theorem sliceReader0_shadow_read {data : List UInt8} {p len : ℕ} (start : ℕ) (hpos : 0 < len)
    (hlen : p + len ≤ data.length) :
    sliceReader0 (shadowBuf data) ⟨some 0, p, start, p + len⟩ true =
      some ((data.drop p).take len, ⟨some 0, p + len, start, p + len⟩) := by
  have hmin : min (data.length - p) len = len := by omega
  have hfind : readerFind (p + len) ((shadowBuf data).segs.drop 0) 0 p =
      some (0, ⟨data, data.length, 0, true, 0⟩, p) := by
    simp [readerFind, shadowBuf, Segment.of]
    omega
  rw [sliceReader0]
  dsimp only
  rw [hfind]
  simp [sliceRemains, sliceAbsOffset, Slice.segment, shadowBuf, Segment.of, hmin,
    Nat.pos_iff_ne_zero.1 hpos]

/-- The reader loop of `rd_slice_read` over a window of the shadow buffer takes the bytes of
the window in one reader call and stops at the next. -/
theorem sliceReadLoop_window {data : List UInt8} {p e : ℕ} (hpe : p ≤ e) (he : e ≤ data.length)
    (fuel : ℕ) :
    sliceReadLoop (shadowBuf data) (fuel + 2) (windowSlice p e) =
      some ((data.drop p).take (e - p), windowSlice e e) := by
  obtain ⟨len, rfl⟩ : ∃ len, e = p + len := ⟨e - p, by omega⟩
  rw [Nat.add_sub_cancel_left]
  rcases Nat.eq_zero_or_pos len with rfl | hpos
  · -- nothing to read: the first reader call is already at the end
    simp [sliceReadLoop, windowSlice, sliceReader0_shadow_end]
  · -- one reader call takes the `len` bytes, the next one is at the end
    obtain ⟨x, xs, hx⟩ : ∃ x xs, (data.drop p).take len = x :: xs := by
      cases h : (data.drop p).take len with
      | nil =>
        have := congrArg List.length h
        simp [List.length_take, List.length_drop] at this
        omega
      | cons x xs => exact ⟨x, xs, rfl⟩
    have hread := sliceReader0_shadow_read 0 hpos he
    rw [hx] at hread ⊢
    simp [sliceReadLoop, windowSlice, hread, sliceReader0_shadow_end]

/-- A read of `len` bytes at offset `p` of the shadow buffer. -/
theorem sliceRead_window {data : List UInt8} {p e len : ℕ} (hlen : p + len ≤ e)
    (he : e ≤ data.length) :
    sliceRead (shadowBuf data) (windowSlice p e) len =
      some (len, (data.drop p).take len, windowSlice (p + len) e) := by
  have hrem : ¬sliceRemains (shadowBuf data) (windowSlice p e) < len := by
    rw [sliceRemains_window]
    omega
  have habs : sliceAbsOffset (shadowBuf data) (windowSlice p e) = p := by
    simp [sliceAbsOffset, Slice.segment, shadowBuf, windowSlice]
  have hloop := sliceReadLoop_window (Nat.le_add_right p len) (by omega : p + len ≤ data.length) 0
  rw [Nat.add_sub_cancel_left] at hloop
  have hfuel : (shadowBuf data).segs.length + 1 = 0 + 2 := rfl
  rw [sliceRead, if_neg hrem, habs, hfuel]
  simp only [windowSlice] at hloop ⊢
  rw [hloop]

theorem bufRead_window {data : List UInt8} {p e len : ℕ} (hlen : p + len ≤ e)
    (he : e ≤ data.length) :
    bufRead (shadowBuf data) (windowSlice p e) len =
      some (.ok ((data.drop p).take len, windowSlice (p + len) e)) := by
  rw [bufRead, sliceRead_window hlen he]
  by_cases h0 : len = 0
  · subst h0
    simp [bufCheckLen, Except.map]
  · simp [h0]

/-- A `w`-byte integer the writer wrote in network byte order is read back. -/
theorem bufReadInt_window {data : List UInt8} {p e : ℕ} (w : ℕ) (v : BitVec (8 * w))
    {t : List UInt8} (hbytes : data.drop p = BigEndian.toBytes w v.toNat ++ t)
    (hlen : p + w ≤ e) (he : e ≤ data.length) :
    bufReadInt w (shadowBuf data) (windowSlice p e) = some (.ok (v, windowSlice (p + w) e)) := by
  have htake : (data.drop p).take w = BigEndian.toBytes w v.toNat := by
    rw [hbytes, List.take_left' (BigEndian.length_toBytes w _)]
  rw [bufReadInt, bufRead_window hlen he, htake]
  simp [Except.map, BigEndian.ofNat_ofBytes_toBytes w rfl]

/-- The bytes at the read position of the shadow buffer are contiguous: the pointer is the
memory from there on. -/
theorem sliceEnsureContig_window {data : List UInt8} {p e len : ℕ} (hlen : p + len ≤ e)
    (he : e ≤ data.length) :
    sliceEnsureContig (shadowBuf data) (windowSlice p e) len =
      some (some (data.drop p), windowSlice (p + len) e) := by
  have hcontig : ¬(sliceRemains (shadowBuf data) (windowSlice p e) < len ∨
      (⟨data, data.length, 0, true, 0⟩ : Segment).of < (windowSlice p e).rof + len) := by
    rw [sliceRemains_window]
    simp [windowSlice, Segment.of]
    omega
  have hseg : (windowSlice p e).segment (shadowBuf data) =
      some ⟨data, data.length, 0, true, 0⟩ := rfl
  rw [sliceEnsureContig, hseg]
  dsimp only
  rw [if_neg hcontig, sliceRead_window hlen he]
  rfl

/-- The shadow buffer's reader hands out pointers to the memory at its offset. -/
theorem bufReadPtr_window {data : List UInt8} {p e len : ℕ} (hlen : p + len ≤ e)
    (he : e ≤ data.length) :
    bufReadPtr (shadowBuf data) (windowSlice p e) len =
      some (.ok (some (data.drop p), windowSlice (p + len) e)) := by
  rw [bufReadPtr, sliceEnsureContig_window hlen he]

/-- The shadow buffer's reader hands out pointers to the memory at its offset, which starts
with the bytes there. -/
theorem bufReadPtr_window_bytes {data : List UInt8} {p e : ℕ} {bytes t : List UInt8}
    (he : e ≤ data.length) (hbytes : data.drop p = bytes ++ t) (hfit : p + bytes.length ≤ e) :
    bufReadPtr (shadowBuf data) (windowSlice p e) bytes.length =
      some (.ok (some (bytes ++ t), windowSlice (p + bytes.length) e)) := by
  rw [bufReadPtr_window hfit he, hbytes]

/-- A copy of a window of the shadow buffer narrowed to the next `len` bytes. -/
theorem sliceNarrowCopyRelative_window (data : List UInt8) {p e len : ℕ} (hlen : p + len ≤ e) :
    sliceNarrowCopyRelative (shadowBuf data) (windowSlice p e) len =
      some (some (windowSlice p (p + len))) := by
  have habs : sliceAbsOffset (shadowBuf data) (windowSlice p (p + len)) = p := by
    simp [sliceAbsOffset, Slice.segment, shadowBuf, windowSlice]
  simp only [sliceNarrowCopyRelative, sliceNarrowCopy, sliceOffset_window]
  rw [if_neg (by simp [windowSlice]; omega)]
  simp only [windowSlice, Nat.zero_add] at habs ⊢
  rw [if_pos (by rw [habs]; omega)]

/-- `rd_slice_narrow_relative` cuts the slice itself where `rd_slice_narrow_copy_relative`
cuts a copy, at the same end. -/
theorem sliceNarrowRelative_eq_copy (b : Buf) (s : Slice) (relsize : ℕ) :
    sliceNarrowRelative b s relsize = sliceNarrowCopyRelative b s relsize := rfl

/-- Narrowing a window of the shadow buffer to the next `len` bytes. -/
theorem sliceNarrowRelative_window (data : List UInt8) {p e len : ℕ} (hlen : p + len ≤ e) :
    sliceNarrowRelative (shadowBuf data) (windowSlice p e) len =
      some (some (windowSlice p (p + len))) := by
  rw [sliceNarrowRelative_eq_copy, sliceNarrowCopyRelative_window data hlen]

/-! ## Reads from a window, whatever its bytes -/

/-- Whatever the bytes, `rd_slice_read_varint` on a window of the shadow buffer reads a value of
one byte or more inside the window, or nothing. -/
theorem sliceReadVarint_window_cases {data : List UInt8} {p e : ℕ} (he : e ≤ data.length)
    (hpe : p ≤ e) :
    sliceReadVarint (shadowBuf data) (windowSlice p e) = (0, none, windowSlice p e) ∨
      ∃ k v, 0 < k ∧ p + k ≤ e ∧
        sliceReadVarint (shadowBuf data) (windowSlice p e) = (k, some v, windowSlice (p + k) e) := by
  have hread := @sliceReadUvarint_eq (shadowBuf data) (segsFrom_shadowBuf data) (windowSlice p e) 0
    ⟨data, data.length, 0, true, 0⟩ rfl rfl (by simp [windowSlice, Segment.of]; omega)
  have hdata : segsData (shadowBuf data).segs = data := by simp [shadowBuf]
  simp only [windowSlice, List.drop_zero, hdata, Nat.zero_add] at hread
  revert hread
  cases hsc : scan (0 : BitVec 64) 0 ((data.drop p).take (e - p)) with
  | done n k =>
    rintro ⟨j, rof', seg', hs, hseg', hpos⟩
    obtain ⟨hk, hkle⟩ := scan_eq_done_used hsc
    obtain ⟨hj, hseg''⟩ := List.getElem?_eq_some_iff.1 hseg'
    obtain rfl : j = 0 := by simpa [shadowBuf] using hj
    obtain rfl : seg' = ⟨data, data.length, 0, true, 0⟩ := by simpa [shadowBuf] using hseg''.symm
    have hrof : rof' = p + k := by simpa using hpos
    have hlen : ((data.drop p).take (e - p)).length ≤ e - p := List.length_take_le _ _
    refine .inr ⟨k, (n >>> 1) ^^^ -(n &&& 1#64), hk, by omega, ?_⟩
    have hs' : sliceReadUvarint (shadowBuf data) (windowSlice p e) =
        (k, some n, windowSlice (p + k) e) := by
      rw [← hrof]
      exact hs
    rw [sliceReadVarint, hs']
    simp only [gt_iff_lt, Option.map_some]
    rw [if_pos (show 0 < k by omega)]
  | more n s =>
    intro hs
    have hs' : sliceReadUvarint (shadowBuf data) (windowSlice p e) = (0, none, windowSlice p e) :=
      hs
    left
    rw [sliceReadVarint, hs']
    rfl

theorem bufReadVarint_window_cases {data : List UInt8} {p e : ℕ} (he : e ≤ data.length)
    (hpe : p ≤ e) :
    bufReadVarint (shadowBuf data) (windowSlice p e) = .error .underflow ∨
      ∃ v p', p < p' ∧ p' ≤ e ∧ bufReadVarint (shadowBuf data) (windowSlice p e) =
        .ok (v, windowSlice p' e) := by
  rcases sliceReadVarint_window_cases he hpe with h | ⟨k, v, hk, hke, h⟩
  · left
    rw [bufReadVarint, h]
    rfl
  · refine .inr ⟨v, p + k, by omega, hke, ?_⟩
    rw [bufReadVarint, h]
    obtain ⟨k, rfl⟩ : ∃ k', k = k' + 1 := ⟨k - 1, by omega⟩
    rfl

/-- A read of `len` bytes from a window takes them, or underflows when fewer remain. -/
theorem bufRead_window_cases {data : List UInt8} {p e : ℕ} (he : e ≤ data.length) (hpe : p ≤ e)
    (len : ℕ) :
    bufRead (shadowBuf data) (windowSlice p e) len = some (.error .underflow) ∨
      p + len ≤ e ∧ bufRead (shadowBuf data) (windowSlice p e) len =
        some (.ok ((data.drop p).take len, windowSlice (p + len) e)) := by
  by_cases hlen : p + len ≤ e
  · exact .inr ⟨hlen, bufRead_window hlen he⟩
  · left
    have hrem : sliceRemains (shadowBuf data) (windowSlice p e) < len := by
      rw [sliceRemains_window]
      omega
    rw [bufRead, sliceRead, if_pos hrem, Option.map_some]
    simp only [↓reduceIte, bufCheckLen, if_pos hrem]
    rfl

theorem bufReadInt_window_cases {data : List UInt8} {p e : ℕ} (he : e ≤ data.length)
    (hpe : p ≤ e) (w : ℕ) :
    bufReadInt w (shadowBuf data) (windowSlice p e) = some (.error .underflow) ∨
      ∃ v, p + w ≤ e ∧ bufReadInt w (shadowBuf data) (windowSlice p e) =
        some (.ok (v, windowSlice (p + w) e)) := by
  rcases bufRead_window_cases he hpe w with h | ⟨hw, h⟩
  · left
    rw [bufReadInt, h]
    rfl
  · refine .inr ⟨BitVec.ofNat (8 * w) (BigEndian.ofBytes ((data.drop p).take w)), hw, ?_⟩
    rw [bufReadInt, h]
    rfl

/-- A skip within the window moves the reader by its length. -/
theorem bufSkip_window {data : List UInt8} {p e len : ℕ} (hlen : p + len ≤ e)
    (he : e ≤ data.length) :
    bufSkip (shadowBuf data) (windowSlice p e) len = some (.ok (windowSlice (p + len) e)) := by
  by_cases h0 : len = 0
  · subst h0
    rw [bufSkip, if_pos rfl]
    rfl
  · rw [bufSkip, if_neg h0, bufRead_window hlen he]
    rfl

/-- A skip past the window's end is an underflow. -/
theorem bufSkip_window_short {data : List UInt8} {p e len : ℕ} (hpe : p ≤ e) (hlen : e < p + len) :
    bufSkip (shadowBuf data) (windowSlice p e) len = some (.error .underflow) := by
  have hrem : sliceRemains (shadowBuf data) (windowSlice p e) < len := by
    rw [sliceRemains_window]
    omega
  rw [bufSkip, if_neg (by omega), bufRead, sliceRead, if_pos hrem, Option.map_some]
  simp only [↓reduceIte, bufCheckLen, if_pos hrem]
  rfl

theorem bufSkip_window_cases {data : List UInt8} {p e : ℕ} (he : e ≤ data.length) (hpe : p ≤ e)
    (len : ℕ) :
    bufSkip (shadowBuf data) (windowSlice p e) len = some (.error .underflow) ∨
      p + len ≤ e ∧ bufSkip (shadowBuf data) (windowSlice p e) len =
        some (.ok (windowSlice (p + len) e)) := by
  by_cases hlen : p + len ≤ e
  · exact .inr ⟨hlen, bufSkip_window hlen he⟩
  · exact .inl (bufSkip_window_short hpe (by omega))

/-- A skip to `pos` from a window: `pos` before the reader wraps the distance round, which
then is too far, so the skip never moves the reader back. -/
theorem bufSkipTo_window_cases {data : List UInt8} {p e : ℕ} (he : e ≤ data.length)
    (hpe : p ≤ e) (pos : ℕ) :
    bufSkipTo (shadowBuf data) (windowSlice p e) pos = some (.error .underflow) ∨
      ∃ p', p ≤ p' ∧ p' ≤ e ∧
        bufSkipTo (shadowBuf data) (windowSlice p e) pos = some (.ok (windowSlice p' e)) := by
  rw [bufSkipTo, sliceOffset_window]
  rcases bufSkip_window_cases he hpe (sizeSub pos p) with h | ⟨hlen, h⟩
  · exact .inl h
  · exact .inr ⟨_, Nat.le_add_right _ _, hlen, h⟩

/-- Fewer than `len` bytes remain in the window: no pointer, and the slice as it was. -/
theorem sliceEnsureContig_window_short {data : List UInt8} {p e len : ℕ} (hpe : p ≤ e)
    (hlen : e < p + len) :
    sliceEnsureContig (shadowBuf data) (windowSlice p e) len = some (none, windowSlice p e) := by
  have hrem : sliceRemains (shadowBuf data) (windowSlice p e) < len := by
    rw [sliceRemains_window]
    omega
  have hseg : (windowSlice p e).segment (shadowBuf data) =
      some ⟨data, data.length, 0, true, 0⟩ := rfl
  rw [sliceEnsureContig, hseg]
  dsimp only
  rw [if_pos (.inl hrem)]

theorem bufReadPtr_window_cases {data : List UInt8} {p e : ℕ} (he : e ≤ data.length) (hpe : p ≤ e)
    (len : ℕ) :
    bufReadPtr (shadowBuf data) (windowSlice p e) len = some (.error .underflow) ∨
      p + len ≤ e ∧ bufReadPtr (shadowBuf data) (windowSlice p e) len =
        some (.ok (some (data.drop p), windowSlice (p + len) e)) := by
  by_cases hlen : p + len ≤ e
  · exact .inr ⟨hlen, bufReadPtr_window hlen he⟩
  · left
    have hrem' : e - p < len := by omega
    rw [bufReadPtr, sliceEnsureContig_window_short hpe (by omega)]
    simp [bufCheckLen, hrem']
    rfl

theorem bufReadKbytesVarint_window_cases {data : List UInt8} {p e : ℕ} (he : e ≤ data.length)
    (hpe : p ≤ e) :
    bufReadKbytesVarint (shadowBuf data) (windowSlice p e) = some (.error .underflow) ∨
      ∃ kb p', p < p' ∧ p' ≤ e ∧ bufReadKbytesVarint (shadowBuf data) (windowSlice p e) =
        some (.ok (kb, windowSlice p' e)) := by
  rcases sliceReadVarint_window_cases he hpe with h | ⟨k, v, hk, hke, h⟩
  · left
    rw [bufReadKbytesVarint, h]
    rfl
  · obtain ⟨k, rfl⟩ : ∃ k', k = k' + 1 := ⟨k - 1, by omega⟩
    rw [bufReadKbytesVarint, h]
    simp only
    split_ifs with hnull hzero
    · exact .inr ⟨_, p + (k + 1), by omega, hke, rfl⟩
    · exact .inr ⟨_, p + (k + 1), by omega, hke, rfl⟩
    · -- the bytes follow the length
      by_cases hlen : p + (k + 1) + v.toNat ≤ e
      · rw [sliceEnsureContig_window hlen he]
        exact .inr ⟨_, p + (k + 1) + v.toNat, by omega, hlen, rfl⟩
      · left
        have hrem : e - (p + (k + 1)) < v.toNat := by omega
        rw [sliceEnsureContig_window_short hke (by omega)]
        simp [bufCheckLen, hrem]
        rfl


end Rdkafka
