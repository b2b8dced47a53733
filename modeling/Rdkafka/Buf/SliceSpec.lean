import Rdkafka.Buf.BufOps

/-!
# Reading a buffer back

A response is parsed, and a request checksummed, through a slice `rd_slice_t` that walks the
segments of a buffer.  Over a buffer whose segments lie end to end, a slice reads the
buffer's bytes as one string, whatever the segments look like: `rd_slice_reader0` hands out
the bytes of one segment at a time, passing over segments already read and empty ones
(`sliceReader0_step`), and the loop of `rd_slice_read` strings them together
(`sliceReadLoop_spec`, `sliceRead_spec`).

A slice over the whole of such a buffer reads all of its bytes (`sliceInitFull_spec`,
`sliceRead_spec`).
-/

set_option autoImplicit false

namespace Rdkafka

/-- The read position of `s` is byte `s.rof` of segment `i`, which is `seg`, between the
slice's start and end. -/
structure Slice.At (b : Buf) (s : Slice) (i : ℕ) (seg : Segment) : Prop where
  seg_eq : s.seg = some i
  get : b.segs[i]? = some seg
  rof_le : s.rof ≤ seg.of
  start_le : s.start ≤ seg.absof + s.rof
  le_stop : seg.absof + s.rof ≤ s.stop

/-! ## The bytes of a segment in the buffer's bytes -/

/-- The bytes of segment `i` from `rof` on are the buffer's bytes from the segment's offset
plus `rof` on. -/
theorem segsData_drop_take {segs : List Segment} (hsegs : SegsFrom 0 segs) {i : ℕ}
    {seg : Segment} (hseg : segs[i]? = some seg) {rof r : ℕ} (hr : rof + r ≤ seg.of) :
    ((segsData segs).drop (seg.absof + rof)).take r = (seg.data.drop rof).take r := by
  have hstart := hsegs.absof_eq hseg
  obtain ⟨hlt, rfl⟩ := List.getElem?_eq_some_iff.1 hseg
  have hsplit : segsData segs =
      segsData (segs.take i) ++ (segs[i].data ++ segsData (segs.drop (i + 1))) := by
    conv_lhs => rw [← List.take_append_drop i segs, List.drop_eq_getElem_cons hlt]
    rw [segsData_append, segsData_cons]
  simp only [Segment.of] at hr
  rw [hsplit, hstart, List.drop_append, List.drop_of_length_le (Nat.le_add_right _ _),
    List.nil_append, Nat.add_sub_cancel_left, List.drop_append_of_le_length (by omega),
    List.take_append_of_le_length (by rw [List.length_drop]; omega)]

/-! ## One reader call -/

section Reader

variable {b : Buf} {s : Slice} {i : ℕ} {seg : Segment}

theorem Slice.At.absOffset (h : s.At b i seg) : sliceAbsOffset b s = seg.absof + s.rof := by
  rw [sliceAbsOffset, Slice.segment_of_seg h.seg_eq h.get]

theorem Slice.At.drop_eq (h : s.At b i seg) : ∃ rest, b.segs.drop i = seg :: rest := by
  obtain ⟨hlt, rfl⟩ := List.getElem?_eq_some_iff.1 h.get
  exact ⟨_, List.drop_eq_getElem_cons hlt⟩

/-- The search of `rd_slice_reader0` from a position before the end finds the next byte:
it stays in the current segment if that has bytes left, and otherwise passes over the
segments that have none, starting the next one at `0`. -/
theorem readerFind_spec {stop : ℕ} : ∀ (idx : ℕ) {segs : List Segment} {seg : Segment} {a rof : ℕ},
    SegsFrom a (seg :: segs) → rof ≤ seg.of → a + rof < stop →
    stop ≤ a + (segsData (seg :: segs)).length →
    ∃ j seg' rof', readerFind stop (seg :: segs) idx rof = some (idx + j, seg', rof') ∧
      (seg :: segs)[j]? = some seg' ∧ seg'.absof + rof' = a + rof ∧ rof' < seg'.of ∧
      (rof < seg.of → j = 0) ∧ (j = 0 → rof' = rof) ∧ (0 < j → rof' = 0)
  | idx, segs, seg, a, rof, ⟨habs, hrest⟩, hrof, hlt, hstop => by
    by_cases hleft : rof < seg.of
    · -- bytes are left in the current segment
      refine ⟨0, seg, rof, ?_, rfl, by rw [habs], hleft, fun _ => rfl, fun _ => rfl,
        fun h => absurd h (Nat.lt_irrefl 0)⟩
      rw [readerFind, if_neg (by omega), Nat.add_zero]
    · -- the current segment is read: the search goes on from the next one at `0`
      have hof : seg.of = rof := by omega
      rw [segsData_cons, List.length_append] at hstop
      rcases segs with _ | ⟨seg₂, segs⟩
      · rw [segsData_nil, List.length_nil] at hstop
        simp only [Segment.of] at hof
        omega
      have hnext : a + seg.of + 0 < stop := by omega
      have hnext' : stop ≤ a + seg.of + (segsData (seg₂ :: segs)).length := by
        simp only [Segment.of] at hof ⊢
        omega
      obtain ⟨j, seg', rof', hfind, hget, hpos, hof', -, h0, hj⟩ :=
        readerFind_spec (idx + 1) hrest (Nat.zero_le _) hnext hnext'
      refine ⟨j + 1, seg', rof', ?_, hget, by rw [hpos, hof]; omega, hof', fun h => absurd h hleft,
        fun h => absurd h (Nat.succ_ne_zero j), fun _ => ?_⟩
      · rw [readerFind, if_pos ⟨by omega, hof⟩, hfind, Nat.add_assoc, Nat.add_comm 1 j]
      · rcases Nat.eq_zero_or_pos j with rfl | hjpos
        · exact h0 rfl
        · exact hj hjpos

/-- `rd_slice_reader0` at the slice's end reads nothing. -/
theorem sliceReader0_end (h : s.At b i seg) (hend : seg.absof + s.rof = s.stop) :
    sliceReader0 b s true = some ([], s) := by
  obtain ⟨rest, hrest⟩ := h.drop_eq
  rw [sliceReader0, h.seg_eq]
  dsimp only
  rw [hrest, readerFind, if_neg (by omega)]
  dsimp only
  rw [if_pos (by omega)]

/-- **Step.**  `rd_slice_reader0` before the slice's end hands out the bytes of the segment
holding the next byte, up to the segment's end or the slice's end, and moves past them. -/
theorem sliceReader0_step (hsegs : SegsFrom 0 b.segs) (h : s.At b i seg)
    (hlt : seg.absof + s.rof < s.stop) (hstop : s.stop ≤ (segsData b.segs).length) :
    ∃ idx seg' rof', b.segs[idx]? = some seg' ∧ seg'.absof + rof' = seg.absof + s.rof ∧
      rof' < seg'.of ∧ i ≤ idx ∧ (s.rof < seg.of → idx = i) ∧
      sliceReader0 b s true =
        some ((seg'.data.drop rof').take (min (seg'.of - rof') (s.stop - (seg.absof + s.rof))),
          { s with
            seg := some idx
            rof := rof' + min (seg'.of - rof') (s.stop - (seg.absof + s.rof)) }) := by
  obtain ⟨rest, hrest⟩ := h.drop_eq
  have hfrom := (hsegs.drop_of_getElem? h.get).1
  rw [hrest] at hfrom
  have hlen : (segsData b.segs).length =
      seg.absof + (segsData (seg :: rest)).length := by
    rw [hsegs.absof_eq h.get, ← hrest, ← List.length_append, ← segsData_append,
      List.take_append_drop]
  obtain ⟨j, seg', rof', hfind, hget, hpos, hof', hstay, h0, hj⟩ :=
    readerFind_spec i hfrom h.rof_le hlt (by omega)
  have hget' : b.segs[i + j]? = some seg' := by
    rw [← hrest] at hget
    rwa [List.getElem?_drop] at hget
  refine ⟨i + j, seg', rof', hget', hpos, hof', Nat.le_add_right i j,
    fun hleft => by rw [hstay hleft, Nat.add_zero], ?_⟩
  rw [sliceReader0, h.seg_eq]
  dsimp only
  rw [hrest, hfind]
  dsimp only
  rw [if_neg (by omega), sliceRemains, h.absOffset, hpos]
  simp only [Bool.not_true, Bool.false_eq_true, if_false]
  rcases Nat.eq_zero_or_pos j with rfl | hjpos
  · -- the bytes are in the current segment
    rw [if_neg (by simp), h0 rfl]
    obtain ⟨seg₀, rof₀, start, stop⟩ := s
    cases h.seg_eq
    rfl
  · -- the bytes are in a later segment, read from its start
    rw [if_pos (by simp; omega), if_pos ⟨by have := h.start_le; omega, by omega⟩,
      hj hjpos, Nat.zero_add]

end Reader

/-! ## Reading -/

/-- **Run.**  The loop of `rd_slice_read` reads the buffer's bytes from the read position
to the slice's end, and leaves the read position at the end.  Each reader call either
reaches the end or uses up a segment, so one call per segment from the current one, and one
more if the current one still has bytes, is enough. -/
theorem sliceReadLoop_spec {b : Buf} (hsegs : SegsFrom 0 b.segs) :
    ∀ (fuel : ℕ) {s : Slice} {i : ℕ} {seg : Segment}, s.At b i seg →
    s.stop ≤ (segsData b.segs).length → b.segs.length - i ≤ fuel →
    (s.rof < seg.of → b.segs.length - i < fuel) →
    ∃ s' i' seg', sliceReadLoop b fuel s =
        some (((segsData b.segs).drop (seg.absof + s.rof)).take (s.stop - (seg.absof + s.rof)),
          s') ∧
      s'.At b i' seg' ∧ seg'.absof + s'.rof = s.stop ∧ s'.start = s.start ∧ s'.stop = s.stop
  | 0, s, i, seg, h, _, hfuel, _ => by
    have := (List.getElem?_eq_some_iff.1 h.get).1
    omega
  | fuel + 1, s, i, seg, h, hstop, hfuel, hfuel' => by
    by_cases hend : seg.absof + s.rof = s.stop
    · -- at the end: nothing is read
      refine ⟨s, i, seg, ?_, h, hend, rfl, rfl⟩
      rw [sliceReadLoop, sliceReader0_end h hend, hend, Nat.sub_self, List.take_zero]
    have hlt : seg.absof + s.rof < s.stop := lt_of_le_of_ne h.le_stop hend
    obtain ⟨idx, seg', rof', hget, hpos, hof', hle, hstay, hstep⟩ :=
      sliceReader0_step hsegs h hlt hstop
    set rlen := min (seg'.of - rof') (s.stop - (seg.absof + s.rof)) with hrlen
    have hrlen0 : 0 < rlen := by omega
    -- the bytes this call hands out are the buffer's next `rlen` bytes
    have hbytes : (seg'.data.drop rof').take rlen =
        ((segsData b.segs).drop (seg.absof + s.rof)).take rlen := by
      rw [← hpos, segsData_drop_take hsegs hget (by omega)]
    obtain ⟨x, xs, hx⟩ : ∃ x xs, (seg'.data.drop rof').take rlen = x :: xs := by
      refine List.exists_cons_of_ne_nil fun hnil => ?_
      have := congrArg List.length hnil
      rw [List.length_take, List.length_drop] at this
      simp only [Segment.of] at hof'
      simp only [List.length_nil] at this
      omega
    have hmoved : ({ s with seg := some idx, rof := rof' + rlen } : Slice).At b idx seg' :=
      ⟨rfl, hget, by show rof' + rlen ≤ seg'.of; omega,
        by have := h.start_le; show s.start ≤ seg'.absof + (rof' + rlen); omega,
        by show seg'.absof + (rof' + rlen) ≤ s.stop; omega⟩
    -- the calls left: one per segment from `idx` on
    have hidx : b.segs.length - idx ≤ fuel := by
      rcases Nat.lt_or_ge s.rof seg.of with hleft | hleft
      · have := hstay hleft
        omega
      · -- the current segment was used up, so the bytes came from a later one
        have hne : idx ≠ i := by
          rintro rfl
          rw [h.get] at hget
          cases hget
          omega
        omega
    have hidx1 : idx < b.segs.length := (List.getElem?_eq_some_iff.1 hget).1
    -- the rest of the bytes, from where this call stopped
    have hrest : ∃ s' i' seg', sliceReadLoop b fuel { s with seg := some idx, rof := rof' + rlen } =
        some (((segsData b.segs).drop (seg.absof + s.rof + rlen)).take
          (s.stop - (seg.absof + s.rof + rlen)), s') ∧
        s'.At b i' seg' ∧ seg'.absof + s'.rof = s.stop ∧ s'.start = s.start ∧ s'.stop = s.stop := by
      by_cases hfin : seg.absof + s.rof + rlen = s.stop
      · -- this call reached the end: the next one reads nothing
        obtain ⟨fuel, rfl⟩ : ∃ f, fuel = f + 1 := ⟨fuel - 1, by omega⟩
        refine ⟨_, idx, seg', ?_, hmoved, by show seg'.absof + (rof' + rlen) = s.stop; omega, rfl,
          rfl⟩
        rw [sliceReadLoop, sliceReader0_end hmoved (by show seg'.absof + (rof' + rlen) = s.stop; omega),
          hfin, Nat.sub_self, List.take_zero]
      · -- this call used up the segment: the loop goes on from there
        have hused : rof' + rlen = seg'.of := by omega
        obtain ⟨s', i', seg'', hrun, hat, hend', hst, hsp⟩ := sliceReadLoop_spec hsegs fuel hmoved
          hstop hidx (fun h' => absurd h' (by show ¬rof' + rlen < seg'.of; omega))
        refine ⟨s', i', seg'', ?_, hat, hend', hst, hsp⟩
        have hpos' : seg'.absof + (rof' + rlen) = seg.absof + s.rof + rlen := by omega
        dsimp only at hrun
        rw [hpos'] at hrun
        exact hrun
    obtain ⟨s', i', seg'', hrun, hat, hend', hst, hsp⟩ := hrest
    refine ⟨s', i', seg'', ?_, hat, hend', hst, hsp⟩
    -- the bytes of this call followed by the rest are the bytes up to the end
    have hsplit : ((segsData b.segs).drop (seg.absof + s.rof)).take (s.stop - (seg.absof + s.rof)) =
        ((segsData b.segs).drop (seg.absof + s.rof)).take rlen ++
          ((segsData b.segs).drop (seg.absof + s.rof + rlen)).take
            (s.stop - (seg.absof + s.rof + rlen)) := by
      rw [show s.stop - (seg.absof + s.rof) = rlen + (s.stop - (seg.absof + s.rof + rlen)) by omega,
        List.take_add, List.drop_drop]
    rw [sliceReadLoop, hstep, hx]
    dsimp only
    rw [hrun, ← hx, hbytes, Option.map_some, hsplit]

/-- **`rd_slice_read` reads the buffer's bytes.**  Over segments lying end to end, reading
`n` bytes that the slice still has returns `n` and the buffer's next `n` bytes, and moves the
read position past them. -/
theorem sliceRead_spec {b : Buf} (hsegs : SegsFrom 0 b.segs) {s : Slice} {i : ℕ}
    {seg : Segment} (h : s.At b i seg) (hstop : s.stop ≤ (segsData b.segs).length) {n : ℕ}
    (hn : seg.absof + s.rof + n ≤ s.stop) :
    ∃ s' i' seg', sliceRead b s n =
        some (n, ((segsData b.segs).drop (seg.absof + s.rof)).take n, s') ∧
      s'.At b i' seg' ∧ seg'.absof + s'.rof = seg.absof + s.rof + n ∧ s'.start = s.start ∧
      s'.stop = s.stop := by
  have hi := (List.getElem?_eq_some_iff.1 h.get).1
  -- the loop runs on the slice cut to the `n` bytes
  have hcut : ({ s with stop := seg.absof + s.rof + n } : Slice).At b i seg :=
    ⟨h.seg_eq, h.get, h.rof_le, h.start_le, Nat.le_add_right _ _⟩
  obtain ⟨s', i', seg', hrun, hat, hend, hst, -⟩ := sliceReadLoop_spec hsegs (b.segs.length + 1)
    hcut (by show seg.absof + s.rof + n ≤ _; omega) (by omega) (fun _ => by omega)
  dsimp only at hrun hend
  rw [Nat.add_sub_cancel_left] at hrun
  refine ⟨{ s' with stop := s.stop }, i', seg', ?_, ⟨hat.seg_eq, hat.get, hat.rof_le,
    hat.start_le, by show seg'.absof + s'.rof ≤ s.stop; omega⟩, hend, hst, rfl⟩
  rw [sliceRead, sliceRemains, h.absOffset, if_neg (by omega), hrun]

/-- `rd_slice_init_full` on a buffer with bytes: a slice over all of them, reading from the
first segment that has any. -/
theorem sliceInitFull_spec {b : Buf} (hsegs : SegsFrom 0 b.segs)
    (hlen : b.len = (segsData b.segs).length) (hpos : 0 < b.len) :
    ∃ i seg, sliceInitFull b = some ⟨some i, 0, 0, b.len⟩ ∧
      (⟨some i, 0, 0, b.len⟩ : Slice).At b i seg ∧ seg.absof = 0 := by
  obtain ⟨i, seg, hfind, hseg, hlo, -⟩ := bufGetSegmentAtOffset_spec hsegs hlen none hpos
  have habs : seg.absof = 0 := Nat.le_zero.1 hlo
  refine ⟨i, seg, ?_, ⟨rfl, hseg, Nat.zero_le _, Nat.zero_le _, by
    show seg.absof + 0 ≤ b.len; omega⟩, habs⟩
  rw [sliceInitFull, sliceInit, hfind]
  dsimp only
  rw [hseg]
  dsimp only
  rw [sliceInitSeg, hseg]
  dsimp only
  rw [if_neg (by omega), habs, Nat.sub_self, Nat.zero_add, Nat.zero_add]

end Rdkafka
