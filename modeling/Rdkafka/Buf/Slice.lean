import Rdkafka.Buf.Varint

/-!
# Slices

This file models the slice reader `rd_slice_t` of `src/rdbuf.c` and `src/rdbuf.h`: a read
position (a segment and an offset in it) and the range `[start, end)` of buffer offsets it
may read, over a buffer it does not change.  It covers setting a slice up
(`rd_slice_init_seg`, `rd_slice_init`, `rd_slice_init_full`, `rd_slice_narrow_copy`), its
offsets, reading bytes (`rd_slice_reader0`, `rd_slice_read`, `rd_slice_ensure_contig`) and
reading a varint (`rd_slice_read_uvarint`, `rd_slice_read_varint`).

Both readers walk the segments, so what they read may lie across any number of segment
boundaries.  `SegsFrom` says that the segments lie end to end, which is what lets the
walks be compared with reads of the buffer's bytes as one list.
-/

set_option autoImplicit false

namespace Rdkafka

open Leb128

/-! ## Slices and their offsets -/

/-- A slice `rd_slice_t`.  The buffer it reads (`slice->buf`) is passed to each function
beside it. -/
structure Slice where
  /-- `seg`, the segment of the read position as an index; `none` is `NULL`, the end. -/
  seg : Option ℕ
  /-- `rof`, the read offset in that segment. -/
  rof : ℕ
  /-- `start`, the buffer offset of the slice's first byte. -/
  start : ℕ
  /-- `end`, the buffer offset one past the slice's last byte. -/
  stop : ℕ
  deriving DecidableEq, Repr

/-- The segment `slice->seg` points to. -/
def Slice.segment (b : Buf) (s : Slice) : Option Segment := s.seg.bind fun i => b.segs[i]?

/-- `rd_slice_abs_offset`: the read position as a buffer offset. -/
def sliceAbsOffset (b : Buf) (s : Slice) : ℕ :=
  match s.segment b with
  | none => s.stop
  | some seg => seg.absof + s.rof

/-- `rd_slice_size`. -/
def sliceSize (s : Slice) : ℕ := s.stop - s.start

/-- `rd_slice_offset`: the read position as an offset in the slice. -/
def sliceOffset (b : Buf) (s : Slice) : ℕ :=
  match s.segment b with
  | none => sliceSize s
  | some seg => seg.absof + s.rof - s.start

/-- `rd_slice_remains`. -/
def sliceRemains (b : Buf) (s : Slice) : ℕ := s.stop - sliceAbsOffset b s

/-- `rd_slice_init_seg(slice, rbuf, seg, rof, size)`: a slice of `size` bytes from offset
`rof` of segment `idx`; `none` when the buffer is shorter (`-1`). -/
def sliceInitSeg (b : Buf) (idx rof size : ℕ) : Option Slice :=
  match b.segs[idx]? with
  | none => none
  | some seg =>
    if b.len < seg.absof + rof + size then none
    else some ⟨some idx, rof, seg.absof + rof, seg.absof + rof + size⟩

/-- `rd_slice_init(slice, rbuf, absof, size)`: a slice of `size` bytes from buffer offset
`absof`; `none` is `-1`. -/
def sliceInit (b : Buf) (absof size : ℕ) : Option Slice :=
  match bufGetSegmentAtOffset b none absof with
  | none => none
  | some idx =>
    match b.segs[idx]? with
    | none => none
    | some seg => sliceInitSeg b idx (absof - seg.absof) size

/-- `rd_slice_init_full(slice, rbuf)`: a slice over the whole buffer; `none` is the failed
`rd_assert(r == 0)`. -/
def sliceInitFull (b : Buf) : Option Slice := sliceInit b 0 b.len

/-- `rd_slice_narrow_copy(orig, new_slice, size)`: a copy of `orig` cut to `size` bytes
from its start.  `some none` is the return value `0` (not enough bytes), and `none` the
failed `rd_assert(rd_slice_abs_offset(new_slice) <= new_slice->end)`. -/
def sliceNarrowCopy (b : Buf) (orig : Slice) (size : ℕ) : Option (Option Slice) :=
  if orig.stop < orig.start + size then some none
  else
    let s := { orig with stop := orig.start + size }
    if sliceAbsOffset b s ≤ s.stop then some (some s) else none

/-! ## Reading bytes -/

/-- The search of `rd_slice_reader0` for the segment to read from: from the read position,
segments whose written bytes are all read are skipped (the next one is read from `0`) while
the position is before the slice end.  `none` is `NULL`, past the last segment. -/
def readerFind (stop : ℕ) : List Segment → ℕ → ℕ → Option (ℕ × Segment × ℕ)
  | [], _, _ => none
  | seg :: segs, idx, rof =>
    if seg.absof + rof < stop ∧ seg.of = rof then readerFind stop segs (idx + 1) 0
    else some (idx, seg, rof)

/-- `rd_slice_reader0(slice, &p, update_pos)`: the contiguous bytes it makes available at `p`
(`rlen` of them, none at the end of the slice), and the slice, moved past them when
`update_pos` is set.  `none` is the failed `rd_assert` on moving to another segment. -/
def sliceReader0 (b : Buf) (s : Slice) (updatePos : Bool) : Option (List UInt8 × Slice) :=
  match s.seg with
  | none => some ([], s)
  | some i =>
    match readerFind s.stop (b.segs.drop i) i s.rof with
    | none => some ([], s)
    | some (idx, seg, rof) =>
      if s.stop ≤ seg.absof + rof then some ([], s)
      else
        let rlen := min (seg.of - rof) (sliceRemains b s)
        let p := (seg.data.drop rof).take rlen
        if !updatePos then some (p, s)
        else if s.seg ≠ some idx then
          if s.start ≤ seg.absof + rof ∧ seg.absof + rof + rlen ≤ s.stop then
            some (p, { s with seg := some idx, rof := rlen })
          else none
        else some (p, { s with rof := s.rof + rlen })

/-- The `while ((rlen = rd_slice_reader(slice, &p)))` loop of `rd_slice_read`: the bytes
read until the reader has none left.  `fuel` bounds the reader calls; one per segment and
a last empty one are enough. -/
def sliceReadLoop (b : Buf) : ℕ → Slice → Option (List UInt8 × Slice)
  | 0, _ => none
  | fuel + 1, s =>
    match sliceReader0 b s true with
    | none => none
    | some ([], s) => some ([], s)
    | some (p, s) => (sliceReadLoop b fuel s).map fun r => (p ++ r.1, r.2)

/-- `rd_slice_read(slice, dst, size)`: `size` (or `0` when fewer bytes remain), the bytes
copied to `dst`, and the slice moved past them.  The slice end is moved to the end of the
read while it runs and put back after. -/
def sliceRead (b : Buf) (s : Slice) (size : ℕ) : Option (ℕ × List UInt8 × Slice) :=
  if sliceRemains b s < size then some (0, [], s)
  else
    match sliceReadLoop b (b.segs.length + 1) { s with stop := sliceAbsOffset b s + size } with
    | none => none
    | some (bytes, s') => some (size, bytes, { s' with stop := s.stop })

/-- `rd_slice_ensure_contig(slice, size)`: a pointer to `size` contiguous bytes at the read
position, that is the segment's written bytes from there on, and the slice moved past
them; `NULL` (inner `none`) when fewer remain in the slice or in the segment.  The outer
`none` is the `NULL` segment dereference or a failed assertion in `rd_slice_read`. -/
def sliceEnsureContig (b : Buf) (s : Slice) (size : ℕ) : Option (Option (List UInt8) × Slice) :=
  match s.segment b with
  | none => none
  | some seg =>
    if sliceRemains b s < size ∨ seg.of < s.rof + size then some (none, s)
    else
      match sliceRead b s size with
      | none => none
      | some (_, _, s') => some (some (seg.data.drop s.rof), s')

/-! ## Reading a varint -/

/-- Where the byte walk of `rd_slice_read_uvarint` stands after the bytes of a segment. -/
inductive UvarintWalk where
  /-- The slice ended before the value did. -/
  | underflow
  /-- Every byte had the continuation bit; on to the next segment. -/
  | more (num : BitVec 64) (shift : ℕ)
  /-- The value ended; the read offset after it is `rof`. -/
  | done (num : BitVec 64) (rof shift : ℕ)
  deriving DecidableEq

/-- The inner loop of `rd_slice_read_uvarint` over the bytes `seg_p[rof .. seg_of)` of a
segment at buffer offset `absof`, stopping at the slice end `stop`. -/
def readUvarintBytes (absof stop : ℕ) : List UInt8 → ℕ → BitVec 64 → ℕ → UvarintWalk
  | [], _, num, shift => .more num shift
  | oct :: octs, rof, num, shift =>
    if stop ≤ absof + rof then .underflow
    else
      let num := num ||| BitVec.ofNat 64 (oct &&& 0x7f).toNat <<< shift
      if oct &&& 0x80 = 0 then .done num (rof + 1) (shift + 7)
      else readUvarintBytes absof stop octs (rof + 1) num (shift + 7)

/-- The outer loop of `rd_slice_read_uvarint` over the segments from index `idx` on, the
first read from `rof` and the others from `0`: the segment and offset after the value,
the value and the final shift, or `none` on underflow. -/
def readUvarintSegs (stop : ℕ) :
    List Segment → ℕ → ℕ → BitVec 64 → ℕ → Option (ℕ × ℕ × BitVec 64 × ℕ)
  | [], _, _, _, _ => none
  | seg :: segs, idx, rof, num, shift =>
    match readUvarintBytes seg.absof stop (seg.data.drop rof) rof num shift with
    | .underflow => none
    | .done num rof shift => some (idx, rof, num, shift)
    | .more num shift => readUvarintSegs stop segs (idx + 1) 0 num shift

/-- `rd_slice_read_uvarint(slice, &num)`: the byte count (`0` on underflow), `num`, and the
slice with its read position moved past the value. -/
def sliceReadUvarint (b : Buf) (s : Slice) : ℕ × Option (BitVec 64) × Slice :=
  match s.seg with
  | none => (0, none, s)
  | some i =>
    match readUvarintSegs s.stop (b.segs.drop i) i s.rof 0 0 with
    | none => (0, none, s)
    | some (idx, rof, num, shift) => (shift / 7, some num, { s with seg := some idx, rof := rof })

/-- `rd_slice_read_varint(slice, &num)`: `rd_slice_read_uvarint` followed by zig-zag
decoding. -/
def sliceReadVarint (b : Buf) (s : Slice) : ℕ × Option (BitVec 64) × Slice :=
  let r := sliceReadUvarint b s
  if r.1 > 0 then (r.1, r.2.1.map fun (u : BitVec 64) => (u >>> 1) ^^^ -(u &&& 1#64), r.2.2)
  else (r.1, none, r.2.2)

/-! ## Segments laid end to end -/

/-- The segments lie end to end from buffer offset `a`: each starts where the written bytes
of the one before it end. -/
def SegsFrom : ℕ → List Segment → Prop
  | _, [] => True
  | a, seg :: segs => seg.absof = a ∧ SegsFrom (a + seg.of) segs

instance decSegsFrom : (a : ℕ) → (segs : List Segment) → Decidable (SegsFrom a segs)
  | _, [] => isTrue trivial
  | a, seg :: segs =>
    haveI := decSegsFrom (a + seg.of) segs
    inferInstanceAs (Decidable (seg.absof = a ∧ SegsFrom (a + seg.of) segs))

/-- The written bytes of the segments, in order. -/
def segsData (segs : List Segment) : List UInt8 := (segs.map Segment.data).flatten

@[simp] theorem segsData_nil : segsData [] = [] := rfl

@[simp] theorem segsData_cons (seg : Segment) (segs : List Segment) :
    segsData (seg :: segs) = seg.data ++ segsData segs := rfl

/-- Segments that lie end to end from `a` still do so after the first `i`, from the end
of the written bytes of those. -/
theorem SegsFrom.drop {a : ℕ} {segs : List Segment} (h : SegsFrom a segs) (i : ℕ) :
    SegsFrom (a + ((segs.take i).map Segment.of).sum) (segs.drop i) := by
  induction segs generalizing a i with
  | nil => simpa using h
  | cons seg segs ih =>
    cases i with
    | zero => simpa using h
    | succ i =>
      have h' := ih h.2 i
      rw [List.take_succ_cons, List.map_cons, List.sum_cons, List.drop_succ_cons, ← Nat.add_assoc]
      exact h'

/-- In a buffer whose segments lie end to end from `0`, the segments from `i` on lie end to
end from the offset of segment `i`. -/
theorem SegsFrom.drop_of_getElem? {segs : List Segment} (h : SegsFrom 0 segs) {i : ℕ}
    {seg : Segment} (hi : segs[i]? = some seg) :
    SegsFrom seg.absof (segs.drop i) ∧ (segs.drop i).head? = some seg := by
  obtain ⟨hlt, rfl⟩ := List.getElem?_eq_some_iff.1 hi
  have hd := h.drop i
  rw [List.drop_eq_getElem_cons hlt] at hd ⊢
  refine ⟨⟨rfl, ?_⟩, rfl⟩
  rw [hd.1]
  exact hd.2

theorem Slice.segment_of_seg {b : Buf} {s : Slice} {i : ℕ} {seg : Segment} (hi : s.seg = some i)
    (hseg : b.segs[i]? = some seg) : s.segment b = some seg := by
  rw [Slice.segment, hi, Option.bind_some, hseg]

end Rdkafka
