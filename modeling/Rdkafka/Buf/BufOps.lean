import Rdkafka.Buf.BufSpec
import Rdkafka.Lib.ByteFields

/-!
# Pushing, overwriting and cutting back a buffer

The other three operations that build a request in an `rd_buf_t`, each on a buffer in shape
(`Buf.WF`), and each as the list operation of the same name on the buffer's bytes.

* `rd_buf_push0` appends memory of its own as a segment.  If the write segment still has
  room it is split first, so that the pushed bytes come right after the written ones and the
  room goes after them (`bufPush0_spec`).
* `rd_buf_write_update` overwrites bytes inside the written range, over as many segments as
  they span, and changes nothing else: no segment moves or grows (`bufWriteUpdate_spec`).
* `rd_buf_write_seek` cuts the buffer back to an offset inside it (`bufWriteSeek_spec`).
  The segment it cuts into becomes the write segment, so it must not be memory pushed
  read-only: that segment would keep its size, and the room `rd_buf_write_ensure` counts in
  it could never be written.
-/

set_option autoImplicit false

namespace Rdkafka

/-! ## Appending a segment -/

section Append

variable {b : Buf}

/-- The scan of `rd_buf_get_writable0` past the last segment finds no room. -/
theorem getWritable0Scan_none {w : ℕ} (h : b.segs[w]? = none) :
    ∀ fuel, getWritable0Scan w fuel b = (b, 0)
  | 0 => rfl
  | _ + 1 => by rw [getWritable0Scan, h]

/-- In a buffer with no room left every segment is used up. -/
theorem Buf.WF.used_up_of_full (hb : b.WF) (hfull : bufWriteRemains b = 0) :
    ∀ seg ∈ b.segs, seg.size = seg.of := by
  intro seg hseg
  rcases List.eq_nil_or_concat' b.segs with hnil | ⟨pre, last, hsegs⟩
  · rw [hnil] at hseg
    cases hseg
  · rw [hsegs, List.mem_append, List.mem_singleton] at hseg
    rcases hseg with hseg | rfl
    · apply hb.used_up
      rw [hsegs, List.dropLast_concat]
      exact hseg
    · have hroom := (hb.bufWriteRemains_eq hsegs).symm.trans hfull
      have := segmentWriteRemains_add (hb.fits seg (by simp [hsegs]))
        (hb.rdonly_full seg (by simp [hsegs]))
      omega

/-- `rd_buf_append_segment` on a buffer with no room left: the segment goes at the end, at
the buffer's length, and becomes the write position. -/
theorem Buf.WF.bufAppendSegment_eq (hb : b.WF) (hfull : bufWriteRemains b = 0) (seg : Segment) :
    bufAppendSegment b seg = { b with
      segs := b.segs ++ [{ seg with absof := b.len }]
      len := b.len + seg.of
      size := b.size + seg.size
      wpos := some b.segs.length } := by
  unfold bufAppendSegment
  dsimp only
  rcases List.eq_nil_or_concat' b.segs with hnil | ⟨pre, last, hsegs⟩
  · rw [hb.wpos_eq, if_pos hnil]
    rfl
  · have hwpos : b.wpos = some pre.length := by
      rw [hb.wpos_eq, if_neg (by simp [hsegs]), hsegs]
      simp
    have hlast : segmentWriteRemains last = 0 := (hb.bufWriteRemains_eq hsegs).symm.trans hfull
    rw [hwpos]
    dsimp only
    unfold bufGetWritable0
    dsimp only
    set b' : Buf := { b with
      segs := b.segs ++ [{ seg with absof := b.len }]
      len := b.len + ({ seg with absof := b.len } : Segment).of
      size := b.size + seg.size
      wpos := some pre.length } with hb'
    have h1 : b'.segs[pre.length]? = some last := by
      rw [hb', hsegs]
      simp
    have h2 : b'.segs[pre.length + 1]? = some { seg with absof := b.len } := by
      rw [hb', hsegs]
      simp
    have hlen : b'.segs.length = pre.length + 1 + 1 := by
      rw [hb', hsegs]
      simp
    have hnew : b.segs.length = pre.length + 1 := by
      rw [hsegs, List.length_append, List.length_singleton]
    rw [hlen, getWritable0Scan_skip h1 hlast, hnew]
    by_cases hroom : segmentWriteRemains seg = 0
    · -- the new segment has no room either: the scan runs off the end
      have h3 : ({ b' with wpos := some (pre.length + 1) } : Buf).segs[pre.length + 1 + 1]? =
          none := by
        show b'.segs[pre.length + 1 + 1]? = none
        rw [hb', hsegs]
        simp
      rw [getWritable0Scan_skip h2 hroom, getWritable0Scan_none h3]
      rfl
    · -- the new segment starts at the buffer's end, so its offset is already right
      have habs : ¬(({ seg with absof := b.len } : Segment).of = 0 ∧
          ({ seg with absof := b.len } : Segment).absof <
            ({ b' with wpos := some pre.length } : Buf).len) := by
        show ¬(seg.of = 0 ∧ b.len < b.len + seg.of)
        omega
      rw [getWritable0Scan_room h2 hroom habs]
      have hset : b'.segs.set (pre.length + 1) { seg with absof := b.len } = b'.segs := by
        rw [hb', hsegs]
        simp
      show ({ b' with wpos := some (pre.length + 1), segs := b'.segs.set _ _ } : Buf) = _
      rw [hset]
      rfl

/-- **Appending keeps a buffer in shape.**  A segment appended to a buffer in shape with no
room left, that fits its memory and is used up if read-only, is the new write segment: its
bytes come after the buffer's, and its room is the buffer's. -/
theorem Buf.WF.appendSegment (hb : b.WF) (hfull : bufWriteRemains b = 0) {seg : Segment}
    (herased : seg.erased = 0) (hfit : seg.of ≤ seg.size)
    (hro : seg.rdonly = true → seg.size = seg.of) :
    (bufAppendSegment b seg).WF ∧ (bufAppendSegment b seg).content = b.content ++ seg.data ∧
      bufWriteRemains (bufAppendSegment b seg) = segmentWriteRemains seg ∧
      (bufAppendSegment b seg).segs = b.segs ++ [{ seg with absof := b.len }] ∧
      (bufAppendSegment b seg).len = b.len + seg.of := by
  have hused := hb.used_up_of_full hfull
  have hwf : (bufAppendSegment b seg).WF := by
    rw [hb.bufAppendSegment_eq hfull]
    refine ⟨?_, ?_, by simp [hb.size_eq], hb.erased_eq, ?_, ?_, ?_, ?_, by simp⟩
    · refine segsFrom_append_singleton.2 ⟨hb.segsFrom, ?_⟩
      rw [Nat.zero_add, ← Buf.content, ← hb.len_eq]
    · rw [Buf.content, segsData_append, List.length_append, ← Buf.content, ← hb.len_eq]
      simp [Segment.of]
    · intro s hs
      rw [List.mem_append, List.mem_singleton] at hs
      rcases hs with hs | rfl
      · exact hb.seg_erased s hs
      · exact herased
    · intro s hs
      rw [List.mem_append, List.mem_singleton] at hs
      rcases hs with hs | rfl
      · exact hb.fits s hs
      · exact hfit
    · intro s hs
      rw [List.mem_append, List.mem_singleton] at hs
      rcases hs with hs | rfl
      · exact hb.rdonly_full s hs
      · exact hro
    · intro s hs
      rw [List.dropLast_concat] at hs
      exact hused s hs
  have hsegs : (bufAppendSegment b seg).segs = b.segs ++ [{ seg with absof := b.len }] := by
    rw [hb.bufAppendSegment_eq hfull]
  refine ⟨hwf, ?_, ?_, hsegs, by rw [hb.bufAppendSegment_eq hfull]⟩
  · rw [Buf.content, hsegs, segsData_append, ← Buf.content]
    simp
  · rw [hwf.bufWriteRemains_eq hsegs]
    rfl

end Append

/-! ## Pushing -/

section Push

variable {b : Buf} {pre : List Segment} {last : Segment}

/-- `rd_segment_split` at the end of the write segment's bytes cuts off its room as a
segment of its own; what is left is used up. -/
theorem Buf.WF.segmentSplit_eq (hb : b.WF) (hsegs : b.segs = pre ++ [last]) :
    segmentSplit b pre.length (last.absof + last.of) =
      some ({ b with
          segs := pre ++ [{ last with size := last.of }]
          size := b.size - (last.size - last.of) },
        ⟨[], last.size - last.of, sizeMax, last.rdonly, 0⟩) := by
  have hwpos : b.wpos = some pre.length := by
    rw [hb.wpos_eq, if_neg (by simp [hsegs]), hsegs]
    simp
  have hlast : b.segs[pre.length]? = some last := by
    rw [hsegs]
    simp
  unfold segmentSplit
  rw [if_neg (not_not.2 hwpos), hlast]
  dsimp only
  rw [if_neg (by omega), Nat.add_sub_cancel_left]
  simp [Segment.of, hsegs]

/-- The buffer left by the split is in shape, holds the same bytes and has no room left. -/
theorem Buf.WF.split (hb : b.WF) (hsegs : b.segs = pre ++ [last]) :
    ({ b with
        segs := pre ++ [{ last with size := last.of }]
        size := b.size - (last.size - last.of) } : Buf).WF ∧
      bufWriteRemains { b with
        segs := pre ++ [{ last with size := last.of }]
        size := b.size - (last.size - last.of) } = 0 := by
  have hmem : ∀ s ∈ pre, s ∈ b.segs := fun s hs => by simp [hsegs, hs]
  have hlast : last ∈ b.segs := by simp [hsegs]
  have hfit := hb.fits last hlast
  have hsize := hb.size_eq
  rw [hsegs] at hsize
  have hwf : ({ b with
      segs := pre ++ [{ last with size := last.of }]
      size := b.size - (last.size - last.of) } : Buf).WF := by
    refine ⟨?_, ?_, ?_, hb.erased_eq, ?_, ?_, ?_, ?_, ?_⟩
    · -- the cut segment still starts where it did
      have h := hb.segsFrom
      rw [hsegs] at h
      obtain ⟨hpre, habs⟩ := segsFrom_append_singleton.1 h
      exact segsFrom_append_singleton.2 ⟨hpre, habs⟩
    · show b.len = (segsData (pre ++ [{ last with size := last.of }])).length
      rw [hb.len_eq, Buf.content, hsegs]
      simp [segsData]
    · simp only [List.map_append, List.map_cons, List.map_nil, List.sum_append, List.sum_cons,
        List.sum_nil] at hsize ⊢
      omega
    · refine List.forall_mem_append.2 ⟨fun s hs => hb.seg_erased s (hmem s hs), ?_⟩
      exact List.forall_mem_singleton.2 (hb.seg_erased last hlast)
    · refine List.forall_mem_append.2 ⟨fun s hs => hb.fits s (hmem s hs), ?_⟩
      exact List.forall_mem_singleton.2 (Nat.le_refl _)
    · refine List.forall_mem_append.2 ⟨fun s hs => hb.rdonly_full s (hmem s hs), ?_⟩
      exact List.forall_mem_singleton.2 fun _ => rfl
    · intro s hs
      rw [List.dropLast_concat] at hs
      apply hb.used_up
      rw [hsegs, List.dropLast_concat]
      exact hs
    · rw [hb.wpos_eq, hsegs]
      simp
  refine ⟨hwf, ?_⟩
  rw [hwf.bufWriteRemains_eq rfl]
  simp [segmentWriteRemains, Segment.of]

/-- **`rd_buf_push0` appends.**  On a buffer in shape, pushing memory never fails: the pushed
bytes come right after the written ones, and the buffer is in shape again.  The only
read-only segment it can add is the pushed one, which ends at the new end of the buffer. -/
theorem bufPush0_spec {b : Buf} (hb : b.WF) (payload : List UInt8) (writable : Bool) :
    ∃ b', bufPush0 b payload writable = some b' ∧ b'.WF ∧
      b'.content = b.content ++ payload ∧ ∀ seg ∈ b'.segs, seg.rdonly = true →
        seg ∈ b.segs ∨ (writable = false ∧ seg.absof + seg.of = b.len + payload.length) := by
  -- the pushed segment is used up, so it never has room
  set seg : Segment := ⟨payload, payload.length, 0, !writable, 0⟩ with hseg
  have hsfit : seg.of ≤ seg.size := Nat.le_refl _
  have hsro : seg.rdonly = true → seg.size = seg.of := fun _ => rfl
  have hsroom : segmentWriteRemains seg = 0 := by
    simp [segmentWriteRemains, hseg, Segment.of]
  -- the pushed segment, at the end of the buffer it is appended to
  have hpushed : ∀ (c : Buf) (s : Segment), s ∈ c.segs ++ [{ seg with absof := c.len }] →
      s.rdonly = true →
        s ∈ c.segs ∨ (writable = false ∧ s.absof + s.of = c.len + payload.length) := by
    intro c s hs hro
    rw [List.mem_append, List.mem_singleton] at hs
    rcases hs with hs | rfl
    · exact Or.inl hs
    · refine Or.inr ⟨?_, rfl⟩
      simpa [hseg] using hro
  unfold bufPush0
  rw [← hseg]
  rcases List.eq_nil_or_concat' b.segs with hnil | ⟨pre, last, hsegs⟩
  · -- an empty buffer: the pushed segment is the first one
    rw [hb.wpos_eq, if_pos hnil]
    obtain ⟨hwf, hc, -, hs, -⟩ := hb.appendSegment (hb.bufWriteRemains_nil hnil) rfl hsfit hsro
    refine ⟨_, rfl, hwf, hc, fun s hs' hro => ?_⟩
    rw [hs] at hs'
    exact hpushed b s hs' hro
  have hwpos : b.wpos = some pre.length := by
    rw [hb.wpos_eq, if_neg (by simp [hsegs]), hsegs]
    simp
  have hlast : b.segs[pre.length]? = some last := by
    rw [hsegs]
    simp
  rw [hwpos]
  dsimp only
  rw [hlast]
  dsimp only
  by_cases hroom : 0 < segmentWriteRemains last
  · -- the write segment is split: the pushed bytes, then its room
    rw [if_pos hroom, hb.segmentSplit_eq hsegs]
    dsimp only
    obtain ⟨hro, -⟩ := segmentWriteRemains_of_pos hroom
    obtain ⟨hwf1, hfull1⟩ := hb.split hsegs
    obtain ⟨hwf2, hc2, hfull2, hs2, hl2⟩ := hwf1.appendSegment hfull1 rfl hsfit hsro
    have htfit : (⟨[], last.size - last.of, sizeMax, last.rdonly, 0⟩ : Segment).of ≤
        last.size - last.of := Nat.zero_le _
    obtain ⟨hwf3, hc3, -, hs3, -⟩ := hwf2.appendSegment (hfull2.trans hsroom) rfl htfit
      (fun h => by rw [hro] at h; cases h)
    refine ⟨_, rfl, hwf3, ?_, ?_⟩
    · rw [hc3, hc2, List.append_nil, Buf.content, Buf.content, hsegs]
      simp [segsData, hseg]
    · -- the tail is writable, and the cut segment was the writable write segment
      intro s hs hsro'
      rw [hs3, List.mem_append, List.mem_singleton] at hs
      rcases hs with hs | rfl
      · rw [hs2] at hs
        rcases hpushed _ s hs hsro' with hs | hs
        · left
          rw [List.mem_append, List.mem_singleton] at hs
          rcases hs with hs | rfl
          · rw [hsegs]
            exact List.mem_append_left _ hs
          · rw [hro] at hsro'
            cases hsro'
        · exact Or.inr hs
      · rw [hro] at hsro'
        cases hsro'
  · -- the write segment is used up: the pushed segment goes after it
    rw [if_neg hroom]
    have hfull : bufWriteRemains b = 0 := by
      rw [hb.bufWriteRemains_eq hsegs]
      omega
    obtain ⟨hwf, hc, -, hs, -⟩ := hb.appendSegment hfull rfl hsfit hsro
    refine ⟨_, rfl, hwf, hc, fun s hs' hro => ?_⟩
    rw [hs] at hs'
    exact hpushed b s hs' hro

end Push

/-! ## Finding the segment of an offset -/

section Find

variable {x : ℕ}

/-- The scan of `rd_buf_get_segment_at_offset` over segments lying end to end from `a` finds
the one holding a byte of theirs. -/
theorem segmentAtFrom_spec : ∀ {segs : List Segment} {a k : ℕ}, SegsFrom a segs → a ≤ x →
    x < a + (segsData segs).length →
    ∃ i seg, segmentAtFrom x segs k = some (k + i) ∧ segs[i]? = some seg ∧ seg.absof ≤ x ∧
      x < seg.absof + seg.of
  | [], _, _, _, hle, hlt => by
    rw [segsData_nil, List.length_nil] at hlt
    omega
  | seg :: segs, a, k, ⟨habs, hrest⟩, hle, hlt => by
    by_cases hin : seg.absof ≤ x ∧ x < seg.absof + seg.of
    · exact ⟨0, seg, by rw [segmentAtFrom, if_pos hin, Nat.add_zero], rfl, hin⟩
    · rw [segsData_cons, List.length_append] at hlt
      obtain ⟨i, s, hf, hs, h1, h2⟩ := segmentAtFrom_spec (k := k + 1) hrest
        (by simp only [Segment.of] at hin ⊢; omega) (by simp only [Segment.of]; omega)
      refine ⟨i + 1, s, ?_, hs, h1, h2⟩
      rw [segmentAtFrom, if_neg hin, hf, Nat.add_assoc, Nat.add_comm 1 i]

/-- In segments lying end to end from `0`, segment `i` starts after the bytes of the ones
before it. -/
theorem SegsFrom.absof_eq {segs : List Segment} (h : SegsFrom 0 segs) {i : ℕ} {seg : Segment}
    (hi : segs[i]? = some seg) : seg.absof = (segsData (segs.take i)).length := by
  have hd := h.drop i
  obtain ⟨hlt, rfl⟩ := List.getElem?_eq_some_iff.1 hi
  rw [List.drop_eq_getElem_cons hlt] at hd
  rw [hd.1, Nat.zero_add, length_segsData]

/-- The scan started at a segment that is not past the offset finds the segment holding
it. -/
theorem segmentAtFrom_drop {segs : List Segment} (h : SegsFrom 0 segs)
    (hx : x < (segsData segs).length) {start : ℕ}
    (hstart : (segsData (segs.take start)).length ≤ x) :
    ∃ idx seg, segmentAtFrom x (segs.drop start) start = some idx ∧ segs[idx]? = some seg ∧
      seg.absof ≤ x ∧ x < seg.absof + seg.of := by
  have hd := h.drop start
  rw [Nat.zero_add, ← length_segsData] at hd
  have hsplit : (segsData segs).length =
      (segsData (segs.take start)).length + (segsData (segs.drop start)).length := by
    rw [← List.length_append, ← segsData_append, List.take_append_drop]
  obtain ⟨i, seg, hf, hs, h1, h2⟩ := segmentAtFrom_spec (k := start) hd hstart (by omega)
  refine ⟨start + i, seg, hf, ?_, h1, h2⟩
  rw [← List.getElem?_drop]
  exact hs

/-- **`rd_buf_get_segment_at_offset` finds the segment of an offset.**  In a buffer whose
segments lie end to end, any offset before the end is found, whatever the hint. -/
theorem bufGetSegmentAtOffset_spec {b : Buf} (h : SegsFrom 0 b.segs)
    (hlen : b.len = (segsData b.segs).length) (hint : Option ℕ) (habs : x < b.len) :
    ∃ idx seg, bufGetSegmentAtOffset b hint x = some idx ∧ b.segs[idx]? = some seg ∧
      seg.absof ≤ x ∧ x < seg.absof + seg.of := by
  rw [hlen] at habs
  have hzero : (segsData (b.segs.take 0)).length ≤ x := by simp
  unfold bufGetSegmentAtOffset
  rw [if_neg (by omega)]
  dsimp only
  rcases hint with _ | w
  · exact segmentAtFrom_drop h habs hzero
  · dsimp only
    split
    · exact segmentAtFrom_drop h habs hzero
    · next seg hseg =>
      split
      · exact segmentAtFrom_drop h habs hzero
      · -- the hint is not past the offset: the scan starts there
        next hnot =>
        refine segmentAtFrom_drop h habs ?_
        rw [← h.absof_eq hseg]
        omega

end Find

/-! ## Overwriting -/

/-- A segment with its bytes zeroed: where it lies, its memory, its flags and how many bytes
it holds, which is all that `Buf.WF` looks at. -/
def Segment.layout (seg : Segment) : Segment := { seg with data := List.replicate seg.of 0 }

@[simp] theorem Segment.of_layout (seg : Segment) : seg.layout.of = seg.of := by
  simp [Segment.layout, Segment.of]

theorem Segment.layout_congr {seg : Segment} {data : List UInt8} (h : data.length = seg.of) :
    ({ seg with data := data } : Segment).layout = seg.layout := by
  simp only [Segment.layout, Segment.of, h]

section Layout

variable {segs segs' : List Segment}

/-- Segments lie end to end exactly when their layouts do. -/
theorem segsFrom_map_layout : ∀ {a : ℕ} {segs : List Segment},
    SegsFrom a (segs.map Segment.layout) ↔ SegsFrom a segs
  | _, [] => Iff.rfl
  | a, seg :: segs => by
    rw [List.map_cons, SegsFrom, SegsFrom, Segment.of_layout, segsFrom_map_layout]
    rfl

/-- What holds of every segment, and looks only at layouts, holds of every segment with the
same layout. -/
theorem forall_mem_of_map_layout (h : segs'.map Segment.layout = segs.map Segment.layout)
    {P : Segment → Prop} (hP : ∀ seg, P seg.layout ↔ P seg) (hall : ∀ seg ∈ segs, P seg) :
    ∀ seg ∈ segs', P seg := by
  intro seg hseg
  have hmem : seg.layout ∈ segs.map Segment.layout := h ▸ List.mem_map_of_mem hseg
  obtain ⟨s, hs, heq⟩ := List.mem_map.1 hmem
  rw [← hP, ← heq, hP]
  exact hall s hs

theorem length_segsData_of_map_layout (h : segs'.map Segment.layout = segs.map Segment.layout) :
    (segsData segs').length = (segsData segs).length := by
  have hof := congrArg (List.map Segment.of) h
  simp only [List.map_map] at hof
  have hfun : Segment.of ∘ Segment.layout = Segment.of := funext Segment.of_layout
  rw [hfun] at hof
  rw [length_segsData, length_segsData, hof]

theorem sum_size_of_map_layout (h : segs'.map Segment.layout = segs.map Segment.layout) :
    (segs'.map Segment.size).sum = (segs.map Segment.size).sum := by
  have hsize := congrArg (List.map Segment.size) h
  simp only [List.map_map] at hsize
  have hfun : Segment.size ∘ Segment.layout = Segment.size := rfl
  rw [hfun] at hsize
  rw [hsize]

/-- **Rewriting bytes in place keeps a buffer in shape.**  A buffer whose segments have the
layouts of a buffer in shape, with the same counters and write position, is in shape. -/
theorem Buf.WF.of_map_layout {b b' : Buf} (hb : b.WF)
    (h : b'.segs.map Segment.layout = b.segs.map Segment.layout) (hwpos : b'.wpos = b.wpos)
    (hlen : b'.len = b.len) (herased : b'.erased = b.erased) (hsize : b'.size = b.size) :
    b'.WF := by
  have hlength : b'.segs.length = b.segs.length := by
    simpa using congrArg List.length h
  refine ⟨?_, ?_, ?_, herased.trans hb.erased_eq, ?_, ?_, ?_, ?_, ?_⟩
  · rw [← segsFrom_map_layout, h, segsFrom_map_layout]
    exact hb.segsFrom
  · rw [hlen, hb.len_eq, Buf.content, Buf.content, length_segsData_of_map_layout h]
  · rw [hsize, hb.size_eq, sum_size_of_map_layout h]
  · exact forall_mem_of_map_layout h (fun _ => Iff.rfl) hb.seg_erased
  · exact forall_mem_of_map_layout h (fun seg => by rw [Segment.of_layout]; rfl) hb.fits
  · exact forall_mem_of_map_layout h (fun seg => by rw [Segment.of_layout]; rfl) hb.rdonly_full
  · have hd : b'.segs.dropLast.map Segment.layout = b.segs.dropLast.map Segment.layout := by
      rw [List.map_dropLast, h, ← List.map_dropLast]
    exact forall_mem_of_map_layout hd (fun seg => by rw [Segment.of_layout]; rfl) hb.used_up
  · rw [hwpos, hb.wpos_eq, hlength]
    simp only [← List.length_eq_zero_iff, hlength]

end Layout

/-- `rd_segment_write_update` from an offset inside a segment's bytes overwrites what fits
of the payload there. -/
theorem segmentWriteUpdate_eq {seg : Segment} {absof : ℕ} (payload : List UInt8)
    (h : absof - seg.absof ≤ seg.of) :
    segmentWriteUpdate seg absof payload =
      some (min payload.length (seg.of - (absof - seg.absof)), { seg with
        data := seg.data.overwrite (absof - seg.absof)
          (payload.take (seg.of - (absof - seg.absof))) }) := by
  have htake : payload.take (min payload.length (seg.of - (absof - seg.absof))) =
      payload.take (seg.of - (absof - seg.absof)) := by
    rw [List.take_eq_take_iff]
    omega
  unfold segmentWriteUpdate
  rw [if_neg (by omega)]
  dsimp only
  rw [htake, List.overwrite, List.length_take, Nat.min_comm]

/-- **Run.**  The loop of `rd_buf_write_update`, at the segments `T` lying end to end from `a`
after the ones in `P`, with `of` bytes written and the next byte to write inside the first
of `T`, overwrites the rest of the payload across `T` and changes nothing else. -/
theorem writeUpdateLoop_spec (absof : ℕ) (payload : List UInt8) :
    ∀ (T : List Segment) (fuel of : ℕ) {b : Buf} {P : List Segment} {a : ℕ},
    b.segs = P ++ T → SegsFrom a T → a + (segsData T).length ≤ b.len → a ≤ absof + of →
    (∀ seg ∈ T.head?, absof + of ≤ a + seg.of) →
    absof + payload.length ≤ a + (segsData T).length → of ≤ payload.length →
    T.length < fuel →
    ∃ T', writeUpdateLoop absof payload fuel b P.length of = some { b with segs := P ++ T' } ∧
      T'.map Segment.layout = T.map Segment.layout ∧
      segsData T' = (segsData T).overwrite (absof + of - a) (payload.drop of)
  | T, 0, _, _, _, _, _, _, _, _, _, _, _, hfuel => absurd hfuel (Nat.not_lt_zero _)
  | T, fuel + 1, of, b, P, a, hsegs, hfrom, hend, hle, hhead, hfit, hof, hfuel => by
    by_cases hdone : payload.length ≤ of
    · -- nothing left to write
      refine ⟨T, ?_, rfl, ?_⟩
      · rw [writeUpdateLoop, if_pos hdone, ← hsegs]
      · rw [List.drop_of_length_le hdone, List.overwrite_nil]
    rcases T with _ | ⟨seg, T⟩
    · rw [segsData_nil, List.length_nil] at hfit
      omega
    obtain ⟨habs, hrest⟩ := hfrom
    have hrel : absof + of - a ≤ seg.of := by
      have := hhead seg rfl
      omega
    have hseg : b.segs[P.length]? = some seg := by
      rw [hsegs]
      simp
    have hlenT : (segsData (seg :: T)).length = seg.of + (segsData T).length := by
      rw [segsData_cons, List.length_append]
      rfl
    rw [hlenT] at hend hfit
    -- the bytes that fall in this segment
    set k := seg.of - (absof + of - seg.absof) with hk
    set seg' : Segment := { seg with
      data := seg.data.overwrite (absof + of - seg.absof) ((payload.drop of).take k) } with hseg'
    have hkle : absof + of - seg.absof + k ≤ seg.of := by omega
    have hlayout : seg'.layout = seg.layout := by
      refine Segment.layout_congr (List.length_overwrite ?_)
      rw [List.length_take]
      have := Nat.min_le_left k (payload.drop of).length
      show _ ≤ seg.of
      omega
    have hdata : seg'.data ++ (segsData T).overwrite 0 ((payload.drop of).drop k) =
        (seg.data ++ segsData T).overwrite (absof + of - a) (payload.drop of) := by
      rw [List.overwrite_append hrel, ← habs]
      rfl
    have hstep : writeUpdateLoop absof payload (fuel + 1) b P.length of =
        writeUpdateLoop absof payload fuel { b with segs := P ++ seg' :: T } (P ++ [seg']).length
          (of + min (payload.drop of).length k) := by
      rw [writeUpdateLoop, if_neg hdone, hseg]
      dsimp only
      rw [if_neg (by omega), segmentWriteUpdate_eq _ (by omega)]
      dsimp only
      rw [hsegs, List.set_append_right _ _ (Nat.le_refl _), Nat.sub_self, List.set_cons_zero,
        List.length_append, List.length_singleton]
    have hnext : absof + of + k = a + seg.of := by omega
    have hof' : of + k ≤ payload.length ∨ payload.length - of ≤ k := by omega
    by_cases hlast : payload.length - of ≤ k
    · -- the rest of the payload fits in this segment: the next pass stops
      obtain ⟨fuel, rfl⟩ : ∃ f, fuel = f + 1 := ⟨fuel - 1, by simp at hfuel; omega⟩
      refine ⟨seg' :: T, ?_, by rw [List.map_cons, List.map_cons, hlayout], ?_⟩
      · rw [hstep, writeUpdateLoop, if_pos (by rw [List.length_drop]; omega)]
      · rw [segsData_cons, segsData_cons, ← hdata,
          List.drop_of_length_le (by rw [List.length_drop]; omega), List.overwrite_nil]
    · -- the segment is filled to its end, and the next one starts where it ends
      have hmin : min (payload.drop of).length k = k := by
        rw [List.length_drop]
        omega
      obtain ⟨T', hrun, hT', hdata'⟩ := writeUpdateLoop_spec absof payload T fuel (of + k)
        (b := { b with segs := P ++ seg' :: T }) (P := P ++ [seg']) (a := a + seg.of)
        (by simp) hrest (by simp only; omega) (by omega)
        (by intro s _; omega) (by omega) (by omega)
        (by simp at hfuel; omega)
      refine ⟨seg' :: T', ?_, by rw [List.map_cons, List.map_cons, hlayout, hT'], ?_⟩
      · rw [hstep, hmin, hrun]
        simp
      · rw [segsData_cons, segsData_cons, hdata', ← hdata, List.drop_drop]
        congr 2
        omega

/-- **`rd_buf_write_update` overwrites.**  On a buffer in shape, overwriting bytes inside the
written range never fails and returns the payload's length; the buffer holds its bytes with
the payload written over them from `absof` on, and no segment has moved or changed size. -/
theorem bufWriteUpdate_spec {b : Buf} (hb : b.WF) {absof : ℕ} (payload : List UInt8)
    (habs : absof < b.len) (hfit : absof + payload.length ≤ b.len) :
    ∃ b', bufWriteUpdate b absof payload = some (payload.length, b') ∧ b'.WF ∧
      b'.content = b.content.overwrite absof payload ∧
      b'.segs.map Segment.layout = b.segs.map Segment.layout := by
  obtain ⟨idx, seg, hfind, hseg, hlo, hhi⟩ :=
    bufGetSegmentAtOffset_spec hb.segsFrom hb.len_eq b.wpos habs
  obtain ⟨hlt, rfl⟩ := List.getElem?_eq_some_iff.1 hseg
  have hstart := hb.segsFrom.absof_eq hseg
  have hdrop := (hb.segsFrom.drop_of_getElem? hseg).1
  have hsplit : (segsData b.segs).length =
      (segsData (b.segs.take idx)).length + (segsData (b.segs.drop idx)).length := by
    rw [← List.length_append, ← segsData_append, List.take_append_drop]
  have hlen := hb.len_eq
  rw [Buf.content] at hlen
  have hhead : ∀ s ∈ (b.segs.drop idx).head?, absof + 0 ≤ b.segs[idx].absof + s.of := by
    intro s hs
    rw [List.head?_drop, List.getElem?_eq_getElem hlt] at hs
    cases hs
    omega
  obtain ⟨T', hrun, hT', hdata⟩ := writeUpdateLoop_spec absof payload (b.segs.drop idx)
    (b.segs.length + 1) 0 (List.take_append_drop idx b.segs).symm hdrop (by omega) (by omega)
    hhead (by omega) (Nat.zero_le _) (by rw [List.length_drop]; omega)
  rw [List.length_take_of_le hlt.le] at hrun
  have hmap : (b.segs.take idx ++ T').map Segment.layout = b.segs.map Segment.layout := by
    rw [List.map_append, hT', ← List.map_append, List.take_append_drop]
  refine ⟨{ b with segs := b.segs.take idx ++ T' }, ?_, hb.of_map_layout hmap rfl rfl rfl rfl, ?_,
    hmap⟩
  · rw [bufWriteUpdate, hfind]
    dsimp only
    rw [hrun]
    rfl
  · show segsData (b.segs.take idx ++ T') = _
    rw [segsData_append, hdata, List.drop_zero, Nat.add_zero, Buf.content]
    conv_rhs => rw [← List.take_append_drop idx b.segs, segsData_append]
    rw [← List.overwrite_append_left, hstart]
    congr 1
    omega

/-! ## Cutting back -/

section Seek

/-- Segments lie end to end from `a` when the first ones do and the rest start where their
bytes end. -/
theorem segsFrom_append : ∀ {a : ℕ} {segs segs' : List Segment},
    SegsFrom a (segs ++ segs') ↔ SegsFrom a segs ∧ SegsFrom (a + (segsData segs).length) segs'
  | _, [], _ => by simp [SegsFrom]
  | a, seg :: segs, segs' => by
    rw [List.cons_append, SegsFrom, SegsFrom, segsFrom_append, segsData_cons,
      List.length_append, Nat.add_assoc]
    exact and_assoc.symm

/-- The loop of `rd_buf_write_seek` destroys the segments `D` after the first `idx + 1`, from
the last one back, taking their bytes and memory out of the buffer's counters.  None of them
has erased bytes, so `rbuf_erased` stays `0`. -/
theorem destroyAfter_spec {S : List Segment} {idx : ℕ} (hS : S.length = idx + 1) :
    ∀ (fuel : ℕ) (D : List Segment) {b : Buf}, b.segs = S ++ D → D.length ≤ fuel →
    b.erased = 0 → (∀ seg ∈ D, seg.erased = 0) → b.len = (segsData b.segs).length →
    b.size = (b.segs.map Segment.size).sum →
    ∃ b', destroyAfter idx fuel b = some b' ∧ b'.segs = S ∧ b'.len = (segsData S).length ∧
      b'.size = (S.map Segment.size).sum ∧ b'.erased = 0
  | 0, D, b, hsegs, hD, herased, _, hlen, hsize => by
    obtain rfl : D = [] := List.eq_nil_of_length_eq_zero (by omega)
    rw [List.append_nil] at hsegs
    exact ⟨b, rfl, hsegs, by rw [hlen, hsegs], by rw [hsize, hsegs], herased⟩
  | fuel + 1, D, b, hsegs, hD, herased, hDerased, hlen, hsize => by
    rcases List.eq_nil_or_concat' D with rfl | ⟨D, t, rfl⟩
    · rw [List.append_nil] at hsegs
      refine ⟨b, ?_, hsegs, by rw [hlen, hsegs], by rw [hsize, hsegs], herased⟩
      rw [destroyAfter, if_pos (by rw [hsegs, hS])]
    -- the last segment is destroyed first
    have hlast : b.segs.length - 1 = (S ++ D).length := by
      rw [hsegs]
      simp
    have ht : b.segs[(S ++ D).length]? = some t := by
      rw [hsegs, ← List.append_assoc]
      simp
    have hterased : t.erased = 0 := hDerased t (by simp)
    have hlen' : b.len = (segsData (S ++ D)).length + t.of := by
      rw [hlen, hsegs, ← List.append_assoc, segsData_append, List.length_append]
      simp [Segment.of]
    have hsize' : b.size = ((S ++ D).map Segment.size).sum + t.size := by
      rw [hsize, hsegs, ← List.append_assoc]
      simp [Nat.add_assoc]
    have herase : b.segs.eraseIdx (S ++ D).length = S ++ D := by
      rw [List.eraseIdx_eq_dropLast (by rw [hsegs]; simp [Nat.add_assoc]), hsegs,
        ← List.append_assoc, List.dropLast_concat]
    rw [destroyAfter, if_neg (by rw [hsegs, List.length_append, hS]; simp), hlast]
    dsimp only
    rw [ht]
    dsimp only
    rw [herased, hterased, show sizeSub 0 0 = 0 by simp [sizeSub], bufDestroySegment]
    dsimp only
    rw [ht]
    dsimp only
    rw [if_neg (by omega)]
    -- the rest of the loop runs on the buffer without its last segment
    exact destroyAfter_spec hS fuel D herase
      (by rw [List.length_append, List.length_singleton] at hD; omega) rfl
      (fun s hs => hDerased s (by simp [hs]))
      (by
        show b.len - t.of = (segsData (b.segs.eraseIdx (S ++ D).length)).length
        rw [herase]
        omega)
      (by
        show b.size - t.size = ((b.segs.eraseIdx (S ++ D).length).map Segment.size).sum
        rw [herase]
        omega)

/-- `rd_buf_write_seek` at or past the end of the buffer does nothing and returns `-1`. -/
theorem bufWriteSeek_of_le {b : Buf} {absof : ℕ} (h : b.len ≤ absof) :
    bufWriteSeek b absof = some (-1, b) := by
  unfold bufWriteSeek bufGetSegmentAtOffset
  rw [if_pos h]

/-- **`rd_buf_write_seek` cuts back.**  On a buffer in shape, seeking to an offset inside it
that no memory pushed read-only reaches past never fails: it returns `0`, the buffer holds
the bytes before the offset and is in shape again, with the segment the offset falls in as
its write segment. -/
theorem bufWriteSeek_spec {b : Buf} (hb : b.WF) {absof : ℕ} (habs : absof < b.len)
    (hro : ∀ seg ∈ b.segs, seg.rdonly = true → seg.absof + seg.of ≤ absof) :
    ∃ b', bufWriteSeek b absof = some (0, b') ∧ b'.WF ∧ b'.content = b.content.take absof ∧
      b.RdonlyKept b' := by
  obtain ⟨idx, seg, hfind, hseg, hlo, hhi⟩ :=
    bufGetSegmentAtOffset_spec hb.segsFrom hb.len_eq b.wpos habs
  have hlt : idx < b.segs.length := (List.getElem?_eq_some_iff.1 hseg).1
  have hmem : seg ∈ b.segs := List.mem_of_getElem? hseg
  have hwritable : seg.rdonly = false := by
    cases h : seg.rdonly
    · rfl
    · have := hro seg hmem h
      omega
  have hstart := hb.segsFrom.absof_eq hseg
  -- the segments are those before the cut one, the cut one, and those after it
  have hsplit : b.segs = b.segs.take idx ++ seg :: b.segs.drop (idx + 1) := by
    rw [← (List.getElem?_eq_some_iff.1 hseg).2, ← List.drop_eq_getElem_cons hlt,
      List.take_append_drop]
  have htake : b.segs.take (idx + 1) = b.segs.take idx ++ [seg] := by
    rw [List.take_add_one, hseg]
    rfl
  have hlen := hb.len_eq
  have hsize := hb.size_eq
  rw [Buf.content] at hlen
  obtain ⟨b1, hd, hs1, hl1, hz1, he1⟩ := destroyAfter_spec (S := b.segs.take (idx + 1))
    (by rw [List.length_take_of_le hlt]) b.segs.length (b.segs.drop (idx + 1))
    (List.take_append_drop _ _).symm (by simp) hb.erased_eq
    (fun s hs => hb.seg_erased s (List.mem_of_mem_drop hs)) hlen hsize
  set seg' : Segment := { seg with data := seg.data.take (absof - seg.absof) } with hseg'
  have hofs : seg'.of = absof - seg.absof := by
    rw [hseg', Segment.of, List.length_take]
    simp only [Segment.of] at hhi
    omega
  have hsegs' : b1.segs.set idx seg' = b.segs.take idx ++ [seg'] := by
    rw [hs1, htake, List.set_append_right _ _ (by simp [List.length_take_of_le hlt.le])]
    simp [List.length_take_of_le hlt.le]
  have hmem_take : ∀ s ∈ b.segs.take idx, s ∈ b.segs := fun s hs => List.mem_of_mem_take hs
  have hwf : ({ b1 with
      segs := b1.segs.set idx seg'
      wpos := some idx
      len := seg'.absof + seg'.of } : Buf).WF := by
    refine ⟨?_, ?_, ?_, he1, ?_, ?_, ?_, ?_, ?_⟩
    · rw [hsegs']
      have h := hb.segsFrom
      rw [hsplit, segsFrom_append] at h
      exact segsFrom_append_singleton.2 ⟨h.1, by rw [Nat.zero_add, ← hstart]⟩
    · show seg'.absof + seg'.of = (segsData (b1.segs.set idx seg')).length
      rw [hsegs', segsData_append, List.length_append, ← hstart]
      simp [Segment.of, hseg']
    · rw [hsegs', hz1, htake]
      simp [hseg']
    · rw [hsegs']
      refine List.forall_mem_append.2 ⟨fun s hs => hb.seg_erased s (hmem_take s hs), ?_⟩
      exact List.forall_mem_singleton.2 (hb.seg_erased seg hmem)
    · rw [hsegs']
      refine List.forall_mem_append.2 ⟨fun s hs => hb.fits s (hmem_take s hs), ?_⟩
      refine List.forall_mem_singleton.2 ?_
      have := hb.fits seg hmem
      rw [hofs]
      show absof - seg.absof ≤ seg.size
      omega
    · rw [hsegs']
      refine List.forall_mem_append.2 ⟨fun s hs => hb.rdonly_full s (hmem_take s hs), ?_⟩
      refine List.forall_mem_singleton.2 fun h => ?_
      rw [hseg', hwritable] at h
      cases h
    · -- the segments before the cut one were all used up
      intro s hs
      rw [hsegs', List.dropLast_concat] at hs
      apply hb.used_up
      rw [List.dropLast_eq_take]
      exact List.take_subset_take_left _ (by omega) hs
    · rw [hsegs']
      simp [List.length_take_of_le hlt.le]
  refine ⟨_, ?_, hwf, ?_, ?_⟩
  · rw [bufWriteSeek, hfind]
    dsimp only
    rw [hseg]
    dsimp only
    rw [if_neg (by simp only [Segment.of] at hhi ⊢; omega), hd]
    dsimp only
    rw [if_pos (by rw [hofs]; omega)]
  · have hcontent : segsData b.segs =
        segsData (b.segs.take idx) ++ (seg.data ++ segsData (b.segs.drop (idx + 1))) := by
      conv_lhs => rw [hsplit]
      rw [segsData_append, segsData_cons]
    have hrel : absof - seg.absof ≤ seg.data.length := by
      simp only [Segment.of] at hhi
      omega
    have hpre : (segsData (b.segs.take idx)).take absof = segsData (b.segs.take idx) :=
      List.take_of_length_le (by rw [← hstart]; exact hlo)
    show segsData (b1.segs.set idx seg') = (segsData b.segs).take absof
    rw [hsegs', segsData_append, hcontent, List.take_append, hpre, ← hstart,
      List.take_append_of_le_length hrel]
    simp [hseg']
  · intro s hs hsro
    rw [hsegs', List.mem_append, List.mem_singleton] at hs
    rcases hs with hs | rfl
    · exact hmem_take s hs
    · rw [hseg', hwritable] at hsro
      cases hsro

end Seek

end Rdkafka
