import Rdkafka.Buf.Slice

/-!
# Reading varints from slices

`rd_slice_read_uvarint` walks the segments of a buffer byte by byte, so a varint may lie
across any number of segment boundaries.  When the segments lie end to end, that walk is
one `Leb128.scan` over the bytes from the read position on, cut at the slice's end
(`readUvarintSegs_eq`, `sliceReadUvarint_eq`).  The main result,
`sliceReadVarint_uvarintEncI64`, is the round trip of `rd_uvarint_enc_i64` through a slice,
however the bytes are split.
-/

set_option autoImplicit false

namespace Rdkafka

open Leb128

/-- The inner loop is a scan of the segment's bytes cut at the slice end; it underflows when
the cut falls inside the segment before the value ends. -/
theorem readUvarintBytes_eq (absof stop : ℕ) (bs : List UInt8) (rof : ℕ) (num : BitVec 64)
    (shift : ℕ) :
    readUvarintBytes absof stop bs rof num shift =
      match scan num shift (bs.take (stop - (absof + rof))) with
      | .done n k => .done n (rof + k) (shift + 7 * k)
      | .more n s => if bs.length ≤ stop - (absof + rof) then .more n s else .underflow := by
  induction bs generalizing rof num shift with
  | nil => simp [readUvarintBytes]
  | cons oct octs ih =>
    rw [readUvarintBytes]
    by_cases hstop : stop ≤ absof + rof
    · have h0 : stop - (absof + rof) = 0 := by omega
      simp [hstop, h0]
    · obtain ⟨m, hm⟩ : ∃ m, stop - (absof + rof) = m + 1 := ⟨stop - (absof + rof) - 1, by omega⟩
      have hm' : stop - (absof + (rof + 1)) = m := by omega
      rw [if_neg hstop, hm, List.take_succ_cons, scan_cons]
      by_cases hb : oct &&& 0x80 = 0
      · simp only [if_pos hb]
      · simp only [if_neg hb]
        rw [ih, hm']
        cases scan (num ||| BitVec.ofNat 64 (oct &&& 0x7f).toNat <<< shift) (shift + 7)
            (octs.take m) with
        | done n k =>
          simp only [Scan.addUsed, UvarintWalk.done.injEq, true_and]
          omega
        | more n s =>
          simp only [Scan.addUsed, List.length_cons, Nat.add_le_add_iff_right]

/-- **The segment walk is a scan of the bytes from the read position.**  Over segments
that lie end to end from `a`, read from offset `rof` of the first, the walk of
`rd_slice_read_uvarint` ends exactly when a scan of the bytes from buffer offset `a + rof`
up to the slice end does, with the same value, and its read position is then `k` bytes
further on. -/
theorem readUvarintSegs_eq {stop a : ℕ} {segs : List Segment} (hsegs : SegsFrom a segs)
    {rof : ℕ} (hrof : ∀ seg ∈ segs.head?, rof ≤ seg.of) (idx : ℕ) (num : BitVec 64)
    (shift : ℕ) :
    match scan num shift (((segsData segs).drop rof).take (stop - (a + rof))) with
    | .done n k => ∃ j rof', readUvarintSegs stop segs idx rof num shift =
        some (idx + j, rof', n, shift + 7 * k) ∧
        ∃ seg, segs[j]? = some seg ∧ seg.absof + rof' = a + rof + k
    | .more _ _ => readUvarintSegs stop segs idx rof num shift = none := by
  induction segs generalizing a idx rof num shift with
  | nil => simp [readUvarintSegs]
  | cons seg segs ih =>
    obtain ⟨habs, hrest⟩ := hsegs
    have hrof' : rof ≤ seg.data.length := hrof seg rfl
    have hbytes : ((segsData (seg :: segs)).drop rof).take (stop - (a + rof)) =
        (seg.data.drop rof).take (stop - (a + rof)) ++
          (segsData segs).take (stop - (a + rof) - (seg.data.length - rof)) := by
      rw [segsData_cons, List.drop_append_of_le_length hrof', List.take_append, List.length_drop]
    rw [hbytes, readUvarintSegs, readUvarintBytes_eq, habs]
    cases hsc : scan num shift ((seg.data.drop rof).take (stop - (a + rof))) with
    | done n k =>
      -- the value ends in this segment
      rw [scan_append_of_done hsc]
      exact ⟨0, rof + k, rfl, seg, rfl, by omega⟩
    | more n s =>
      dsimp only
      by_cases hlen : seg.data.length - rof ≤ stop - (a + rof)
      · -- the segment is used up: the walk goes on in the next one from offset `0`
        have htake : (seg.data.drop rof).take (stop - (a + rof)) = seg.data.drop rof :=
          List.take_of_length_le (by rw [List.length_drop]; exact hlen)
        have hs : s = shift + 7 * (seg.data.length - rof) := by
          have := scan_eq_more_shift hsc
          rwa [htake, List.length_drop] at this
        rw [scan_append_of_more hsc, htake, List.length_drop, if_pos hlen]
        dsimp only
        have hstop : stop - (a + rof) - (seg.data.length - rof) = stop - (a + seg.of + 0) := by
          unfold Segment.of
          omega
        have ih' := @ih (a + seg.of) hrest 0 (by simp) (idx + 1) n s
        rw [List.drop_zero, ← hstop] at ih'
        revert ih'
        cases scan n s ((segsData segs).take (stop - (a + rof) - (seg.data.length - rof))) with
        | done n' k' =>
          rintro ⟨j, rof', hwalk, seg', hseg', hpos⟩
          refine ⟨j + 1, rof', ?_, seg', hseg', ?_⟩
          · rw [hwalk, hs]
            simp only [Option.some.injEq, Prod.mk.injEq, true_and]
            constructor <;> omega
          · unfold Segment.of at hpos
            omega
        | more n' s' =>
          intro hwalk
          exact hwalk
      · -- the slice ends inside this segment
        have hcut : stop - (a + rof) - (seg.data.length - rof) = 0 := by omega
        rw [hcut, List.take_zero, List.append_nil, hsc, List.length_drop, if_neg hlen]

/-- **`rd_slice_read_uvarint` is a scan of the bytes from the read position.**  In a buffer
whose segments lie end to end, reading from a position inside a segment's written bytes
gives what a scan of the bytes from there up to the slice end gives: the value and its
byte count, with the read position moved that many bytes on, or `0` and the slice
unchanged when the scan runs out of bytes. -/
theorem sliceReadUvarint_eq {b : Buf} (hsegs : SegsFrom 0 b.segs) {s : Slice} {i : ℕ}
    {seg : Segment} (hi : s.seg = some i) (hseg : b.segs[i]? = some seg)
    (hrof : s.rof ≤ seg.of) :
    match scan (0 : BitVec 64) 0
        (((segsData (b.segs.drop i)).drop s.rof).take (s.stop - (seg.absof + s.rof))) with
    | .done n k => ∃ j rof' seg',
        sliceReadUvarint b s = (k, some n, { s with seg := some (i + j), rof := rof' }) ∧
        b.segs[i + j]? = some seg' ∧ seg'.absof + rof' = seg.absof + s.rof + k
    | .more _ _ => sliceReadUvarint b s = (0, none, s) := by
  obtain ⟨hfrom, hhead⟩ := hsegs.drop_of_getElem? hseg
  have hwalk := @readUvarintSegs_eq s.stop seg.absof (b.segs.drop i) hfrom s.rof
    (by rw [hhead]; simpa using hrof) i 0 0
  rw [sliceReadUvarint, hi]
  dsimp only
  revert hwalk
  cases scan (0 : BitVec 64) 0
      (((segsData (b.segs.drop i)).drop s.rof).take (s.stop - (seg.absof + s.rof))) with
  | done n k =>
    rintro ⟨j, rof', hw, seg', hseg', hpos⟩
    refine ⟨j, rof', seg', ?_, ?_, hpos⟩
    · rw [hw]
      simp only [Prod.mk.injEq, and_true]
      omega
    · rw [← hseg', List.getElem?_drop]
  | more n s' =>
    intro hw
    rw [hw]

/-- Through a slice that holds all of it, `rd_slice_read_varint` reads the encoding of `u`
as its zig-zag decoding and moves the read position past it. -/
theorem sliceReadVarint_encode_append {b : Buf} (hsegs : SegsFrom 0 b.segs) {s : Slice}
    {i : ℕ} {seg : Segment} (hi : s.seg = some i) (hseg : b.segs[i]? = some seg)
    (hrof : s.rof ≤ seg.of) (u : BitVec 64) (t : List UInt8)
    (hbytes : (segsData (b.segs.drop i)).drop s.rof = encode u.toNat ++ t)
    (hfits : seg.absof + s.rof + (encode u.toNat).length ≤ s.stop) :
    ∃ j rof' seg', sliceReadVarint b s = ((encode u.toNat).length, some (BitVec.zigzagDecode u),
        { s with seg := some (i + j), rof := rof' }) ∧
      b.segs[i + j]? = some seg' ∧ seg'.absof + rof' = seg.absof + s.rof + (encode u.toNat).length := by
  have hread := sliceReadUvarint_eq hsegs hi hseg hrof
  have htake : (encode u.toNat ++ t).take (s.stop - (seg.absof + s.rof)) =
      encode u.toNat ++ t.take (s.stop - (seg.absof + s.rof) - (encode u.toNat).length) := by
    rw [List.take_append, List.take_of_length_le (by omega)]
  rw [hbytes, htake, scan_encode_append (by simp)] at hread
  obtain ⟨j, rof', seg', hs', hseg', hpos⟩ := hread
  refine ⟨j, rof', seg', ?_, hseg', hpos⟩
  have hk := one_le_length_encode u.toNat
  rw [sliceReadVarint, hs']
  simp only [gt_iff_lt, if_pos (show 0 < (encode u.toNat).length by omega), Option.map_some]
  rw [← BitVec.zigzagDecode.eq_def]
  simp

/-- A slice that ends before the last byte of an encoding reads nothing from it. -/
theorem sliceReadVarint_encode_underflow {b : Buf} (hsegs : SegsFrom 0 b.segs) {s : Slice}
    {i : ℕ} {seg : Segment} (hi : s.seg = some i) (hseg : b.segs[i]? = some seg)
    (hrof : s.rof ≤ seg.of) (u : BitVec 64) (t : List UInt8)
    (hbytes : (segsData (b.segs.drop i)).drop s.rof = encode u.toNat ++ t)
    (hcut : s.stop < seg.absof + s.rof + (encode u.toNat).length) :
    sliceReadVarint b s = (0, none, s) := by
  have hread := sliceReadUvarint_eq hsegs hi hseg hrof
  have hk := one_le_length_encode u.toNat
  obtain ⟨a, s'', hmore⟩ : ∃ a s'', scan (0 : BitVec 64) 0
      ((encode u.toNat ++ t).take (s.stop - (seg.absof + s.rof))) = .more a s'' :=
    scan_take_encode _ t (by omega)
  rw [hbytes, hmore] at hread
  rw [sliceReadVarint, hread]
  simp

/-- **Zig-zag varints through slices, however they are split.**  For every `int64_t`
`num`, `rd_uvarint_enc_i64` into a buffer of at least `RD_UVARINT_ENC_SIZEOF(int64_t)`
bytes writes `k` bytes `enc`, one to ten of them; `rd_varint_dec_i64` reads `num` back from
them.  Wherever `enc` and any bytes after it lie in a buffer whose segments lie end to end,
split over its segments in any way, `rd_slice_read_varint` on a slice whose read position
is at `enc` returns `k` and `num` and moves the slice offset `k` bytes on when the slice
holds all of `enc`, and returns `0` with the slice unchanged when it ends before the last
byte of `enc`. -/
theorem sliceReadVarint_uvarintEncI64 (num : BitVec 64) (t : List UInt8) {dstsize k : ℕ}
    {enc : List UInt8} (hdst : uvarintEncSizeof 8 ≤ dstsize)
    (henc : uvarintEncI64 dstsize num = (k, enc)) {b : Buf} (hsegs : SegsFrom 0 b.segs)
    {s : Slice} {i : ℕ} {seg : Segment} (hi : s.seg = some i) (hseg : b.segs[i]? = some seg)
    (hrof : s.rof ≤ seg.of) (hstart : s.start ≤ seg.absof + s.rof)
    (hbytes : (segsData (b.segs.drop i)).drop s.rof = enc ++ t) :
    1 ≤ k ∧ k ≤ 10 ∧
      (∀ srcsize, k ≤ srcsize → varintDecI64 (enc ++ t) srcsize = (k, some num)) ∧
      (seg.absof + s.rof + k ≤ s.stop → ∃ s', sliceReadVarint b s = (k, some num, s') ∧
        sliceOffset b s' = sliceOffset b s + k) ∧
      (s.stop < seg.absof + s.rof + k → sliceReadVarint b s = (0, none, s)) := by
  obtain ⟨hk1, hk10, -, hflat⟩ := varintDecI64_uvarintEncI64 num t hdst henc
  have henc' := uvarintEncI64_eq_encode num hdst
  rw [henc, Prod.mk.injEq] at henc'
  obtain ⟨rfl, rfl⟩ := henc'
  refine ⟨hk1, hk10, hflat, fun hfits => ?_, fun hcut => ?_⟩
  · -- the slice holds the whole encoding
    obtain ⟨j, rof', seg', hs', hseg', hpos⟩ :=
      sliceReadVarint_encode_append hsegs hi hseg hrof _ t hbytes hfits
    refine ⟨_, by rw [hs', BitVec.zigzagDecode_zigzagEncode], ?_⟩
    have hseg'' : Slice.segment b { s with seg := some (i + j), rof := rof' } = some seg' := by
      rw [Slice.segment, Option.bind_some, hseg']
    rw [sliceOffset, sliceOffset, hseg'', Slice.segment_of_seg hi hseg]
    dsimp only
    omega
  · exact sliceReadVarint_encode_underflow hsegs hi hseg hrof _ t hbytes hcut

/-- A varint of `rd_uvarint_enc_i64`'s unit test, `1234567890101112` in eight bytes, read
from a buffer that holds it in three read-only segments followed by one more byte. -/
theorem sliceReadVarint_uvarintEncI64_three_segments :
    let num : BitVec 64 := 1234567890101112#64
    let enc : List UInt8 := [0xf0, 0x8d, 0xd3, 0xc8, 0xa7, 0xb5, 0xb1, 0x04]
    let seg : Segment := ⟨[0xf0, 0x8d], 2, 0, true, 0⟩
    let b : Buf := ⟨[seg, ⟨[0xd3, 0xc8, 0xa7], 3, 2, true, 0⟩,
      ⟨[0xb5, 0xb1, 0x04, 0xff], 4, 5, true, 0⟩], some 2, 9, 0, 9⟩
    let s : Slice := ⟨some 0, 0, 0, 9⟩
    1 ≤ 8 ∧ 8 ≤ 10 ∧
      (∀ srcsize, 8 ≤ srcsize → varintDecI64 (enc ++ [0xff]) srcsize = (8, some num)) ∧
      (seg.absof + s.rof + 8 ≤ s.stop → ∃ s', sliceReadVarint b s = (8, some num, s') ∧
        sliceOffset b s' = sliceOffset b s + 8) ∧
      (s.stop < seg.absof + s.rof + 8 → sliceReadVarint b s = (0, none, s)) := by
  intro num enc seg b s
  exact @sliceReadVarint_uvarintEncI64 num [0xff] 10 8 enc (by decide) (by decide) b
    (by decide) s 0 seg rfl rfl (by decide) (by decide) (by decide)

end Rdkafka
