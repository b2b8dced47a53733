import Mathlib.Data.List.Basic
import Mathlib.Data.Int.Notation
import Mathlib.Algebra.Group.Nat.Defs

/-!
# Segmented buffers

This file models the generic byte buffer `rd_buf_t` of `src/rdbuf.c`: a list of segments,
each with its own backing memory, write offset, capacity and offset in the whole buffer.
The buffer is written at its end (`rd_buf_write`, which grows it segment by segment), can
have foreign memory pushed into it (`rd_buf_push0`), and can have earlier parts
overwritten (`rd_buf_write_update`), cut off (`rd_buf_write_seek`) or removed
(`rd_buf_erase`).

A segment's memory is modelled by the bytes written to it, `seg_p[0 .. seg_of)`; the
allocated but unwritten rest of it is never read and is left out, so `seg_of` is the
length of the written bytes.  Writes with a `NULL` payload, which only move the write
position over uninitialised memory, are not modelled.  The segment list is a list and
the write position `rbuf_wpos` an index into it; where the code destroys a segment the
index of the segments after it moves down by one.

Sizes are `size_t` in the source and natural numbers here.  Where a `size_t` subtraction
in the source can wrap in a state the buffer operations reach, the model wraps it
modulo `2^64` (`sizeSub`); the other subtractions are between ordered quantities.

Loops that the code runs over the segments take a fuel argument that is at least the
number of segments they can visit, so they end on the segments, not on the fuel.  A
failed `rd_assert` or `RD_BUG`, a `NULL` dereference and a loop that makes no progress are
all `none`.
-/

set_option autoImplicit false

namespace Rdkafka

/-- `size_t` subtraction, which wraps modulo `2^64`. -/
def sizeSub (a b : ℕ) : ℕ := (a + (2 ^ 64 - b % 2 ^ 64)) % 2 ^ 64

/-- `SIZE_MAX`. -/
def sizeMax : ℕ := 2 ^ 64 - 1

/-- `sizeof(rd_segment_t)` on an LP64 target: a two-pointer `TAILQ_ENTRY`, `seg_p`,
`seg_of`, `seg_size`, `seg_absof`, `seg_free`, `seg_flags` with its padding, and
`seg_erased`. -/
def segmentStructSize : ℕ := 72

/-- A buffer segment `rd_segment_t`. -/
structure Segment where
  /-- `seg_p[0 .. seg_of)`, the bytes written to the segment. -/
  data : List UInt8
  /-- `seg_size`, the size of the segment's memory. -/
  size : ℕ
  /-- `seg_absof`, the offset of the segment's first byte in the buffer. -/
  absof : ℕ
  /-- `seg_flags & RD_SEGMENT_F_RDONLY`. -/
  rdonly : Bool
  /-- `seg_erased`, the bytes erased from the segment so far. -/
  erased : ℕ
  deriving DecidableEq, Repr

/-- `seg_of`, the relative write position: the number of bytes written to the segment. -/
def Segment.of (seg : Segment) : ℕ := seg.data.length

/-- A buffer `rd_buf_t`.  Its segment count and its extra memory for segment headers are
left out: no modelled function reads them except to choose where memory comes from. -/
structure Buf where
  /-- `rbuf_segments`. -/
  segs : List Segment
  /-- `rbuf_wpos`, the current write segment, as an index into `segs`. -/
  wpos : Option ℕ
  /-- `rbuf_len`, the written length. -/
  len : ℕ
  /-- `rbuf_erased`, the bytes erased from the segments. -/
  erased : ℕ
  /-- `rbuf_size`, the total memory of the segments. -/
  size : ℕ
  deriving DecidableEq, Repr

/-- `rd_buf_init`: an empty buffer.  The pre-allocated extra memory only decides where
later segments are allocated from, which is not modelled. -/
def bufInit : Buf := ⟨[], none, 0, 0, 0⟩

/-- `rd_segment_write_remains`: the room left in a segment; none in a read-only one. -/
def segmentWriteRemains (seg : Segment) : ℕ := if seg.rdonly then 0 else seg.size - seg.of

/-- `rd_buf_write_remains`: the room for writing before the buffer must grow. -/
def bufWriteRemains (b : Buf) : ℕ := b.size - (b.len + b.erased)

/-- `rd_buf_alloc_segment0` followed by `rd_segment_init`: a zeroed segment header with
`size` bytes of memory, not yet part of the buffer. -/
def segmentNew (size : ℕ) : Segment := ⟨[], size, 0, false, 0⟩

/-! ## The write position -/

/-- The scan of `rd_buf_get_writable0` from segment `idx` on: every visited segment
becomes the write position, and the first one with room ends the scan.  A segment
allocated before the previous one filled up gets its offset moved up to the buffer
length when it is first found writable. -/
def getWritable0Scan (idx : ℕ) : ℕ → Buf → Buf × ℕ
  | 0, b => (b, 0)
  | fuel + 1, b =>
    match b.segs[idx]? with
    | none => (b, 0)
    | some seg =>
      let b := { b with wpos := some idx }
      let len := segmentWriteRemains seg
      if len = 0 then getWritable0Scan (idx + 1) fuel b
      else
        let seg := if seg.of = 0 ∧ seg.absof < b.len then { seg with absof := b.len } else seg
        ({ b with segs := b.segs.set idx seg }, len)

/-- `rd_buf_get_writable0(rbuf, ...)`: the number of contiguous writable bytes at the write
position, which is moved to the first segment with room. -/
def bufGetWritable0 (b : Buf) : Buf × ℕ :=
  match b.wpos with
  | none => (b, 0)
  | some w => getWritable0Scan w b.segs.length b

/-- `rd_buf_append_segment`: add `seg` at the tail, at the current buffer length. -/
def bufAppendSegment (b : Buf) (seg : Segment) : Buf :=
  let seg := { seg with absof := b.len }
  let b' := { b with segs := b.segs ++ [seg], len := b.len + seg.of, size := b.size + seg.size }
  match b.wpos with
  | none => { b' with wpos := some b.segs.length }
  | some _ => (bufGetWritable0 b').1

/-- `rd_buf_alloc_segment(rbuf, min_size, max_size)`: append a new segment of at least
`min_size` bytes, over-allocated unless `min_size = max_size > 0`.  The new segment is
the last one. -/
def bufAllocSegment (b : Buf) (minSize maxSize : ℕ) : Buf :=
  let size :=
    if minSize ≠ maxSize ∨ maxSize = 0 then
      max (segmentStructSize * 4) (max (minSize * 2) (b.size / 2))
    else maxSize
  bufAppendSegment b (segmentNew size)

/-- `rd_buf_write_ensure_contig(rbuf, size)`: make `size` contiguous bytes writable at the
write position, allocating a new segment of exactly that size if the current one has too
little room. -/
def bufWriteEnsureContig (b : Buf) (size : ℕ) : Buf :=
  let alloc := { bufAllocSegment b size size with wpos := some b.segs.length }
  match b.wpos with
  | none => alloc
  | some w =>
    match b.segs[w]? with
    | none => alloc
    | some seg => if size ≤ segmentWriteRemains seg then b else alloc

/-- The `while` loop of `rd_buf_write_ensure`. -/
def writeEnsureLoop (minSize maxSize : ℕ) : ℕ → Buf → Buf
  | 0, b => b
  | fuel + 1, b =>
    let remains := bufWriteRemains b
    if remains < minSize then
      writeEnsureLoop minSize maxSize fuel
        (bufAllocSegment b (minSize - remains) (if maxSize ≠ 0 then maxSize - remains else 0))
    else b

/-- `rd_buf_write_ensure(rbuf, min_size, max_size)`: grow the buffer until `min_size` bytes
can be written.  Each pass adds at least `min_size - remains` bytes of room, so the fuel
`min_size + 1` is never what ends the loop. -/
def bufWriteEnsure (b : Buf) (minSize maxSize : ℕ) : Buf :=
  writeEnsureLoop minSize maxSize (minSize + 1) b

/-! ## Writing -/

/-- The `while (remains > 0)` loop of `rd_buf_write`: copy as much of the payload as the
write segment holds, and move on.  When no segment from the write position on has room
(`wlen = 0`) the loop would spin for ever; when there is no segment at all it
dereferences `NULL`. -/
def writeLoop : ℕ → List UInt8 → Buf → Option Buf
  | 0, _, b => some b
  | fuel + 1, payload, b =>
    if payload = [] then some b
    else
      let r := bufGetWritable0 b
      let b := r.1
      let wlen := min payload.length r.2
      match b.wpos with
      | none => none
      | some w =>
        if wlen = 0 then none
        else
          writeLoop fuel (payload.drop wlen)
            { b with
              segs := b.segs.modify w fun seg => { seg with data := seg.data ++ payload.take wlen }
              len := b.len + wlen }

/-- `rd_buf_write(rbuf, payload, size)`: append `payload`, growing the buffer first.
Returns the write position before the write, and the new buffer. -/
def bufWrite (b : Buf) (payload : List UInt8) : Option (ℕ × Buf) :=
  (writeLoop payload.length payload (bufWriteEnsure b payload.length 0)).map (b.len, ·)

/-! ## Finding a segment -/

/-- The `do ... while` scan of `rd_buf_get_segment_at_offset` from segment `i` on. -/
def segmentAtFrom (absof : ℕ) : List Segment → ℕ → Option ℕ
  | [], _ => none
  | seg :: rest, i =>
    if seg.absof ≤ absof ∧ absof < seg.absof + seg.of then some i
    else segmentAtFrom absof rest (i + 1)

/-- `rd_buf_get_segment_at_offset(rbuf, hint, absof)`: the segment holding the byte at
`absof`, scanning from `hint` when that is not past it, else from the head. -/
def bufGetSegmentAtOffset (b : Buf) (hint : Option ℕ) (absof : ℕ) : Option ℕ :=
  if b.len ≤ absof then none
  else
    let start :=
      match hint with
      | none => 0
      | some h =>
        match b.segs[h]? with
        | none => 0
        | some seg => if absof < seg.absof then 0 else h
    segmentAtFrom absof (b.segs.drop start) start

/-! ## Updating written bytes -/

/-- `rd_segment_write_update(seg, absof, payload, size)`: overwrite what fits of `payload`
in the written part of `seg` from `absof` on.  Returns the bytes written and the new
segment; `none` is the failed `rd_assert(relof <= seg->seg_of)`. -/
def segmentWriteUpdate (seg : Segment) (absof : ℕ) (payload : List UInt8) :
    Option (ℕ × Segment) :=
  let relof := absof - seg.absof
  if seg.of < relof then none
  else
    let wlen := min payload.length (seg.of - relof)
    some (wlen, { seg with
      data := seg.data.take relof ++ payload.take wlen ++ seg.data.drop (relof + wlen) })

/-- The loop of `rd_buf_write_update` from segment `idx` with `of` bytes written. -/
def writeUpdateLoop (absof : ℕ) (payload : List UInt8) : ℕ → Buf → ℕ → ℕ → Option Buf
  | 0, _, _, _ => none
  | fuel + 1, b, idx, of =>
    if payload.length ≤ of then some b
    else
      match b.segs[idx]? with
      | none => none
      | some seg =>
        if b.len < seg.absof then none
        else
          match segmentWriteUpdate seg (absof + of) (payload.drop of) with
          | none => none
          | some (wlen, seg) =>
            writeUpdateLoop absof payload fuel { b with segs := b.segs.set idx seg } (idx + 1)
              (of + wlen)

/-- `rd_buf_write_update(rbuf, absof, payload, size)`: overwrite bytes already written,
from `absof` on, without changing the length.  Returns the bytes written and the new
buffer. -/
def bufWriteUpdate (b : Buf) (absof : ℕ) (payload : List UInt8) : Option (ℕ × Buf) :=
  match bufGetSegmentAtOffset b b.wpos absof with
  | none => none
  | some idx => (writeUpdateLoop absof payload (b.segs.length + 1) b idx 0).map (payload.length, ·)

/-! ## Pushing foreign memory -/

/-- `rd_segment_split(rbuf, seg, absof)` on segment `idx`: cut it at `absof`, returning the
buffer without the later part and that part as a new segment, not yet appended. -/
def segmentSplit (b : Buf) (idx absof : ℕ) : Option (Buf × Segment) :=
  if b.wpos ≠ some idx then none
  else
    match b.segs[idx]? with
    | none => none
    | some seg =>
      if ¬ (seg.absof ≤ absof ∧ absof ≤ seg.absof + seg.of) then none
      else
        let relof := absof - seg.absof
        let newseg : Segment := ⟨seg.data.drop relof, seg.size - relof, sizeMax, seg.rdonly, 0⟩
        some ({ b with
          segs := b.segs.set idx { seg with data := seg.data.take relof, size := relof }
          len := b.len - newseg.of
          size := b.size - newseg.size }, newseg)

/-- `rd_buf_push0(rbuf, payload, size, free_cb, writable)`: add `payload` as a segment of its
own at the write position.  If the write segment still has room it is split, and its
unused rest goes after the pushed segment. -/
def bufPush0 (b : Buf) (payload : List UInt8) (writable : Bool) : Option Buf :=
  let seg : Segment := ⟨payload, payload.length, 0, !writable, 0⟩
  match b.wpos with
  | none => some (bufAppendSegment b seg)
  | some w =>
    match b.segs[w]? with
    | none => none
    | some prevseg =>
      if 0 < segmentWriteRemains prevseg then
        match segmentSplit b w (prevseg.absof + prevseg.of) with
        | none => none
        | some (b, tailseg) => some (bufAppendSegment (bufAppendSegment b seg) tailseg)
      else some (bufAppendSegment b seg)

/-! ## Removing bytes -/

/-- `rd_buf_destroy_segment(rbuf, seg)` on segment `idx`. -/
def bufDestroySegment (b : Buf) (idx : ℕ) : Option Buf :=
  match b.segs[idx]? with
  | none => none
  | some seg =>
    if b.len < seg.of ∨ b.size < seg.size then none
    else
      some { b with
        segs := b.segs.eraseIdx idx
        len := b.len - seg.of
        size := b.size - seg.size
        wpos :=
          match b.wpos with
          | none => none
          | some w => if w = idx then none else if idx < w then some (w - 1) else some w }

/-- The first loop of `rd_buf_erase`, at segment `idx` with `of` bytes erased so far:
erase from each segment what is left to erase of it, destroying emptied segments.
Returns the buffer, the bytes erased and the index of the segment after the last one
visited.  Every segment visited has the bytes erased before it subtracted from its
offset. -/
def eraseLoop (absof size : ℕ) : ℕ → Buf → ℕ → ℕ → Option (Buf × ℕ × ℕ)
  | 0, b, idx, of => some (b, of, idx)
  | fuel + 1, b, idx, of =>
    if size ≤ of then some (b, of, idx)
    else
      match b.segs[idx]? with
      | none => some (b, of, idx)
      | some seg =>
        let rof := sizeSub (absof + of) seg.absof
        let toerase := min (sizeSub seg.of rof) (size - of)
        let seg := { seg with absof := sizeSub seg.absof of }
        if toerase = 0 then eraseLoop absof size fuel { b with segs := b.segs.set idx seg } (idx + 1) of
        else if seg.rdonly then none
        else
          let seg := { seg with
            data := seg.data.take rof ++ seg.data.drop (rof + toerase)
            erased := (seg.erased + toerase) % 2 ^ 64 }
          let b := { b with segs := b.segs.set idx seg, len := sizeSub b.len toerase }
          if seg.of = 0 then
            match bufDestroySegment { b with erased := sizeSub b.erased seg.erased } idx with
            | none => none
            | some b => eraseLoop absof size fuel b idx (of + toerase)
          else eraseLoop absof size fuel b (idx + 1) (of + toerase)

/-- The second loop of `rd_buf_erase`: move the segments after the erased range down by
the bytes erased; `none` is the failed `rd_assert(seg->seg_absof >= of)`. -/
def eraseShift (of : ℕ) : List Segment → Option (List Segment)
  | [] => some []
  | seg :: rest =>
    if seg.absof < of then none
    else (eraseShift of rest).map ({ seg with absof := seg.absof - of } :: ·)

/-- `rd_buf_erase(rbuf, absof, size)`: remove `size` bytes from `absof` on.  Returns the
number of bytes erased and the new buffer; the counters are `size_t`, and wrap. -/
def bufErase (b : Buf) (absof size : ℕ) : Option (ℕ × Buf) :=
  match bufGetSegmentAtOffset b none absof with
  | none => some (0, b)
  | some idx =>
    match eraseLoop absof size (b.segs.length + 1) b idx 0 with
    | none => none
    | some (b, of, next) =>
      match eraseShift of (b.segs.drop next) with
      | none => none
      | some rest =>
        some (of, { b with segs := b.segs.take next ++ rest, erased := (b.erased + of) % 2 ^ 64 })

/-- `rd_buf_erase` after a pre-allocating `rd_buf_write_ensure`.  The second segment is
appended while the first still has room, so it keeps the offset 0 that `get_writable0`
would only correct once it is written to.  Erasing 5 of the 8 bytes written to the first
segment then subtracts 5 from that offset, and `rd_assert(seg->seg_absof >= of)` fails. -/
theorem bufErase_preallocated_segment_fails :
    ∃ b, bufWrite (bufWriteEnsure (bufWriteEnsure bufInit 10 10) 100 0) (List.replicate 8 0) =
        some (0, b) ∧
      b.len = 8 ∧ b.segs.map Segment.absof = [0, 0] ∧ b.segs.map Segment.of = [8, 0] ∧
      bufErase b 0 5 = none :=
  ⟨_, rfl, rfl, rfl, rfl, by decide⟩

/-- The segments are destroyed from the last one back to the one after `idx`, each taking
its erased bytes out of `rbuf_erased` first. -/
def destroyAfter (idx : ℕ) : ℕ → Buf → Option Buf
  | 0, b => some b
  | fuel + 1, b =>
    if b.segs.length ≤ idx + 1 then some b
    else
      let last := b.segs.length - 1
      match b.segs[last]? with
      | none => none
      | some this =>
        match bufDestroySegment { b with erased := sizeSub b.erased this.erased } last with
        | none => none
        | some b => destroyAfter idx fuel b

/-- `rd_buf_write_seek(rbuf, absof)`: move the write position back to `absof`, destroying
every later segment.  Returns the return code (`-1` when `absof` is not inside the
written bytes) and the new buffer. -/
def bufWriteSeek (b : Buf) (absof : ℕ) : Option (ℤ × Buf) :=
  match bufGetSegmentAtOffset b b.wpos absof with
  | none => some (-1, b)
  | some idx =>
    match b.segs[idx]? with
    | none => none
    | some seg =>
      let relof := absof - seg.absof
      if seg.of < relof then some (-1, b)
      else
        match destroyAfter idx b.segs.length b with
        | none => none
        | some b =>
          let seg := { seg with data := seg.data.take relof }
          let b := { b with segs := b.segs.set idx seg, wpos := some idx, len := seg.absof + seg.of }
          if b.len = absof then some (0, b) else none

end Rdkafka
