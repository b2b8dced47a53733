import Rdkafka.Buf.Slice
import Rdkafka.Lib.ListModify

/-!
# The segmented buffer is a byte string

A request is built in an `rd_buf_t` by appending (`rd_buf_write`), by pushing memory of its
own (`rd_buf_push0`), by patching bytes already written (`rd_buf_write_update`) and by
cutting back to an earlier offset (`rd_buf_write_seek`).  Whatever the segments look like,
a reader of the buffer sees one string of bytes, `Buf.content`.

The invariant `Buf.WF` is what the four operations keep: the segments lie end to end, the
counters are the sums over the segments, nothing is erased, and every segment but the last
is used up, so that the last one is the write position and the only one with room.  That
last point is what makes the room that `rd_buf_write_ensure` counts,
`rbuf_size - (rbuf_len + rbuf_erased)`, room that `rd_buf_write` can really write to
(`bufWriteRemains_eq`).

This file proves that `rd_buf_write` appends its payload to the bytes and never fails
(`bufWrite_spec`).  It grows the buffer by at most one segment and then copies the payload
into the write segment and the new one.  Its loop keeps `WriteInv`, which allows the new
segment after the write position to carry the stale offset it was appended with; the offset
is put right by `rd_buf_get_writable0` when the write reaches it.  No step adds a read-only
segment (`Buf.RdonlyKept`).

The other three operations are in `Buf.BufOps`, and the sequences of all four in
`Buf.BufRun`.
-/

set_option autoImplicit false

namespace Rdkafka

/-! ## The bytes of a buffer -/

/-- The bytes a reader of the whole buffer sees, in order. -/
def Buf.content (b : Buf) : List UInt8 := segsData b.segs

theorem length_segsData (segs : List Segment) :
    (segsData segs).length = (segs.map Segment.of).sum := by
  induction segs with
  | nil => rfl
  | cons seg segs ih =>
    rw [segsData_cons, List.length_append, ih, List.map_cons, List.sum_cons]
    rfl

@[simp] theorem segsData_append (segs segs' : List Segment) :
    segsData (segs ++ segs') = segsData segs ++ segsData segs' := by
  simp [segsData]

/-- A segment laid after segments that lie end to end from `a` keeps them so when it starts
where their written bytes end. -/
theorem segsFrom_append_singleton {a : ℕ} {segs : List Segment} {seg : Segment} :
    SegsFrom a (segs ++ [seg]) ↔ SegsFrom a segs ∧ seg.absof = a + (segsData segs).length := by
  induction segs generalizing a with
  | nil => simp [SegsFrom]
  | cons s segs ih =>
    simp only [List.cons_append, SegsFrom, ih, segsData_cons, List.length_append, Segment.of]
    constructor
    · rintro ⟨h1, h2, h3⟩
      exact ⟨⟨h1, h2⟩, by omega⟩
    · rintro ⟨⟨h1, h2⟩, h3⟩
      exact ⟨h1, h2, by omega⟩

/-- Segments without written bytes do not add to the content. -/
theorem segsData_of_forall_nil {segs : List Segment} (h : ∀ seg ∈ segs, seg.data = []) :
    segsData segs = [] := by
  induction segs with
  | nil => rfl
  | cons seg segs ih =>
    rw [segsData_cons, h seg List.mem_cons_self, ih fun s hs => h s (List.mem_cons_of_mem _ hs)]
    rfl

/-! ## The invariant -/

/-- A buffer as appending, pushing, patching and cutting back leave it. -/
structure Buf.WF (b : Buf) : Prop where
  segsFrom : SegsFrom 0 b.segs
  len_eq : b.len = b.content.length
  size_eq : b.size = (b.segs.map Segment.size).sum
  erased_eq : b.erased = 0
  seg_erased : ∀ seg ∈ b.segs, seg.erased = 0
  fits : ∀ seg ∈ b.segs, seg.of ≤ seg.size
  rdonly_full : ∀ seg ∈ b.segs, seg.rdonly = true → seg.size = seg.of
  used_up : ∀ seg ∈ b.segs.dropLast, seg.size = seg.of
  wpos_eq : b.wpos = if b.segs = [] then none else some (b.segs.length - 1)

theorem bufInit_wf : bufInit.WF :=
  ⟨trivial, rfl, rfl, rfl, by simp [bufInit], by simp [bufInit], by simp [bufInit],
    by simp [bufInit], rfl⟩

/-- A segment's room is its memory after its written bytes, none when it is read-only. -/
theorem segmentWriteRemains_add {seg : Segment} (hfit : seg.of ≤ seg.size)
    (hro : seg.rdonly = true → seg.size = seg.of) :
    seg.of + segmentWriteRemains seg = seg.size := by
  unfold segmentWriteRemains
  split
  · next h => rw [hro h]; rfl
  · omega

/-- The segments' memory is their written bytes plus their room. -/
theorem sum_size_eq {segs : List Segment} (hfit : ∀ seg ∈ segs, seg.of ≤ seg.size)
    (hro : ∀ seg ∈ segs, seg.rdonly = true → seg.size = seg.of) :
    (segs.map Segment.size).sum =
      (segsData segs).length + (segs.map segmentWriteRemains).sum := by
  induction segs with
  | nil => rfl
  | cons seg segs ih =>
    have hs := segmentWriteRemains_add (hfit seg List.mem_cons_self) (hro seg List.mem_cons_self)
    have ih' := ih (fun s hs => hfit s (List.mem_cons_of_mem _ hs))
      (fun s hs => hro s (List.mem_cons_of_mem _ hs))
    simp only [List.map_cons, List.sum_cons, segsData_cons, List.length_append, ih']
    simp only [Segment.of] at hs
    omega

/-- Used-up segments have no room. -/
theorem sum_writeRemains_eq_zero {segs : List Segment}
    (h : ∀ seg ∈ segs, seg.size = seg.of) : (segs.map segmentWriteRemains).sum = 0 := by
  induction segs with
  | nil => rfl
  | cons seg segs ih =>
    have hs : segmentWriteRemains seg = 0 := by
      unfold segmentWriteRemains
      rw [h seg List.mem_cons_self]
      split <;> omega
    rw [List.map_cons, List.sum_cons, hs, ih fun s hs => h s (List.mem_cons_of_mem _ hs)]

/-- **The counted room is the write segment's room.**  What `rd_buf_write_remains`
computes from the buffer's counters is the room of the last segment: the only one with
room, and the write position. -/
theorem Buf.WF.bufWriteRemains_eq {b : Buf} (hb : b.WF) {pre : List Segment} {last : Segment}
    (hsegs : b.segs = pre ++ [last]) : bufWriteRemains b = segmentWriteRemains last := by
  have hsum := sum_size_eq hb.fits hb.rdonly_full
  have hpre : (pre.map segmentWriteRemains).sum = 0 := sum_writeRemains_eq_zero (by
    intro seg hseg
    apply hb.used_up
    rw [hsegs, List.dropLast_concat]
    exact hseg)
  rw [hsegs] at hsum
  simp only [List.map_append, List.sum_append, hpre, segsData_append, List.length_append,
    List.map_cons, List.map_nil, List.sum_cons, List.sum_nil] at hsum
  unfold bufWriteRemains
  rw [hb.size_eq, hb.len_eq, hb.erased_eq, Buf.content, hsegs]
  simp only [List.map_append, List.sum_append, segsData_append, List.length_append,
    List.map_cons, List.map_nil, List.sum_cons, List.sum_nil]
  omega

theorem Buf.WF.bufWriteRemains_nil {b : Buf} (hb : b.WF) (hsegs : b.segs = []) :
    bufWriteRemains b = 0 := by
  unfold bufWriteRemains
  rw [hb.size_eq, hsegs]
  simp

/-- Every read-only segment of `b'` is one of `b`: going from `b` to `b'` neither touched
memory pushed read-only nor added any. -/
def Buf.RdonlyKept (b b' : Buf) : Prop := ∀ seg ∈ b'.segs, seg.rdonly = true → seg ∈ b.segs

theorem Buf.RdonlyKept.refl (b : Buf) : b.RdonlyKept b := fun _ hseg _ => hseg

theorem Buf.RdonlyKept.trans {b b' b'' : Buf} (h : b.RdonlyKept b') (h' : b'.RdonlyKept b'') :
    b.RdonlyKept b'' := fun seg hseg hro => h seg (h' seg hseg hro) hro

/-! ## The write position -/

section Writable

variable {b : Buf} {w fuel : ℕ} {seg : Segment}

/-- `rd_buf_get_writable0` stops at a segment with room; the segment's offset is already
right when it has written bytes or starts at the buffer's end. -/
theorem getWritable0Scan_room (hseg : b.segs[w]? = some seg) (hroom : segmentWriteRemains seg ≠ 0)
    (habs : ¬(seg.of = 0 ∧ seg.absof < b.len)) :
    getWritable0Scan w (fuel + 1) b =
      ({ b with wpos := some w, segs := b.segs.set w seg }, segmentWriteRemains seg) := by
  rw [getWritable0Scan, hseg]
  dsimp only
  rw [if_neg hroom, if_neg habs]

/-- ... and moves the offset of a segment appended before the write reached it up to the
buffer's end. -/
theorem getWritable0Scan_room_fresh (hseg : b.segs[w]? = some seg)
    (hroom : segmentWriteRemains seg ≠ 0) (hof : seg.of = 0) (habs : seg.absof ≤ b.len) :
    getWritable0Scan w (fuel + 1) b =
      ({ b with wpos := some w, segs := b.segs.set w { seg with absof := b.len } },
        segmentWriteRemains seg) := by
  rw [getWritable0Scan, hseg]
  dsimp only
  rw [if_neg hroom]
  split
  · rfl
  · next h =>
    have : seg.absof = b.len := by omega
    rw [← this]

/-- A segment without room is passed over, and becomes the write position on the way. -/
theorem getWritable0Scan_skip (hseg : b.segs[w]? = some seg) (hroom : segmentWriteRemains seg = 0) :
    getWritable0Scan w (fuel + 1) b = getWritable0Scan (w + 1) fuel { b with wpos := some w } := by
  rw [getWritable0Scan, hseg]
  dsimp only
  rw [if_pos hroom]

end Writable

/-! ## Appending -/

/-- The state of the loop of `rd_buf_write` with `n` bytes left to write: the write
position is at `cur`, after the used-up segments `pre`, and there is at most one fresh
segment `post` after it, which the write reaches only if `cur` has too little room.  The
fresh segment may still carry the offset it was appended with, which can be behind the
buffer's end by now. -/
structure WriteInv (b : Buf) (pre : List Segment) (cur : Segment) (post : List Segment)
    (n : ℕ) : Prop where
  segs_eq : b.segs = pre ++ cur :: post
  wpos_eq : b.wpos = some pre.length
  segsFrom : SegsFrom 0 (pre ++ [cur])
  len_eq : b.len = (segsData (pre ++ [cur])).length
  size_eq : b.size = (b.segs.map Segment.size).sum
  erased_eq : b.erased = 0
  seg_erased : ∀ seg ∈ b.segs, seg.erased = 0
  fits : ∀ seg ∈ pre ++ [cur], seg.of ≤ seg.size
  rdonly_full : ∀ seg ∈ pre ++ [cur], seg.rdonly = true → seg.size = seg.of
  used_up : ∀ seg ∈ pre, seg.size = seg.of
  post_fresh : ∀ seg ∈ post, seg.data = [] ∧ seg.rdonly = false ∧ seg.absof ≤ b.len
  post_short : post.length ≤ 1
  room : n ≤ segmentWriteRemains cur + (post.map Segment.size).sum
  progress : post ≠ [] → segmentWriteRemains cur < n

section WriteInv

variable {b : Buf} {pre : List Segment} {cur : Segment} {post : List Segment} {n : ℕ}

theorem WriteInv.content_eq (h : WriteInv b pre cur post n) :
    b.content = segsData (pre ++ [cur]) := by
  rw [Buf.content, h.segs_eq, ← List.singleton_append, ← List.append_assoc, segsData_append,
    segsData_of_forall_nil fun seg hseg => (h.post_fresh seg hseg).1, List.append_nil]

/-- The room `rd_buf_write_ensure` counts is the write segment's and the fresh one's. -/
theorem WriteInv.bufWriteRemains_eq (h : WriteInv b pre cur post n) :
    bufWriteRemains b = segmentWriteRemains cur + (post.map Segment.size).sum := by
  have hsum := sum_size_eq h.fits h.rdonly_full
  have hpre := sum_writeRemains_eq_zero h.used_up
  simp only [List.map_append, List.sum_append, hpre, segsData_append, List.length_append,
    List.map_cons, List.map_nil, List.sum_cons, List.sum_nil] at hsum
  unfold bufWriteRemains
  rw [h.size_eq, h.len_eq, h.erased_eq, h.segs_eq]
  simp only [List.map_append, List.sum_append, segsData_append, List.length_append,
    List.map_cons, List.sum_cons]
  omega

/-- With nothing left to write the fresh segment has been reached, and the buffer is back
in shape. -/
theorem WriteInv.wf (h : WriteInv b pre cur post 0) : b.WF := by
  have hpost : post = [] := by
    by_contra hne
    exact Nat.not_lt_zero _ (h.progress hne)
  subst hpost
  have hsegs : b.segs = pre ++ [cur] := h.segs_eq
  refine ⟨hsegs ▸ h.segsFrom, by rw [h.content_eq]; exact h.len_eq, h.size_eq, h.erased_eq,
    h.seg_erased, hsegs ▸ h.fits, hsegs ▸ h.rdonly_full, ?_, ?_⟩
  · rw [hsegs, List.dropLast_concat]
    exact h.used_up
  · rw [h.wpos_eq, if_neg (by simp [hsegs])]
    simp [hsegs]

end WriteInv

/-- A buffer in shape is the loop's state before any segment is added, with as much to
write as the write segment has room for. -/
theorem Buf.WF.writeInv {b : Buf} (hb : b.WF) {pre : List Segment} {last : Segment}
    (hsegs : b.segs = pre ++ [last]) {n : ℕ} (hn : n ≤ segmentWriteRemains last) :
    WriteInv b pre last [] n := by
  have hne : b.segs ≠ [] := by simp [hsegs]
  refine ⟨hsegs, ?_, hsegs ▸ hb.segsFrom, ?_, hb.size_eq, hb.erased_eq, hb.seg_erased,
    hsegs ▸ hb.fits, hsegs ▸ hb.rdonly_full, ?_, by simp, Nat.zero_le 1, by simpa using hn,
    fun h => absurd rfl h⟩
  · rw [hb.wpos_eq, if_neg hne, hsegs]
    simp
  · rw [hb.len_eq, Buf.content, hsegs]
  · intro seg hseg
    apply hb.used_up
    rw [hsegs, List.dropLast_concat]
    exact hseg

section WriteStep

variable {b : Buf} {pre : List Segment} {cur : Segment} {post : List Segment} {n : ℕ}

theorem WriteInv.mem_segs (h : WriteInv b pre cur post n) {seg : Segment}
    (hseg : seg ∈ pre ∨ seg = cur ∨ seg ∈ post) : seg ∈ b.segs := by
  rw [h.segs_eq]
  simpa using hseg

/-- The room of a segment that has any is its memory after its written bytes. -/
theorem segmentWriteRemains_of_pos {seg : Segment} (h : 0 < segmentWriteRemains seg) :
    seg.rdonly = false ∧ segmentWriteRemains seg = seg.size - seg.of := by
  unfold segmentWriteRemains at h ⊢
  split at h
  · omega
  · next hro => simp [hro]

/-- **Step.**  Copying into the write segment as much of what is left as it holds. -/
theorem WriteInv.write (h : WriteInv b pre cur post n) (hroom : 0 < segmentWriteRemains cur)
    {bytes : List UInt8} {k : ℕ} (hk : k = min n (segmentWriteRemains cur))
    (hlen : bytes.length = k) :
    WriteInv { b with
        segs := b.segs.modify pre.length fun seg => { seg with data := seg.data ++ bytes }
        len := b.len + k }
      pre { cur with data := cur.data ++ bytes } post (n - k) := by
  obtain ⟨hro, hcroom⟩ := segmentWriteRemains_of_pos hroom
  have hfit := h.fits cur (by simp)
  have hsegs : b.segs.modify pre.length (fun seg => { seg with data := seg.data ++ bytes }) =
      pre ++ { cur with data := cur.data ++ bytes } :: post := by
    rw [h.segs_eq, List.modify_append_length]
  have hroom' : segmentWriteRemains { cur with data := cur.data ++ bytes } =
      segmentWriteRemains cur - k := by
    simp only [segmentWriteRemains, hro, Bool.false_eq_true, if_false, Segment.of,
      List.length_append, hlen]
    simp only [Segment.of] at hcroom
    omega
  refine { segs_eq := hsegs, wpos_eq := h.wpos_eq, segsFrom := ?_, len_eq := ?_
           size_eq := ?_, erased_eq := h.erased_eq, seg_erased := ?_, fits := ?_
           rdonly_full := ?_, used_up := h.used_up, post_fresh := ?_
           post_short := h.post_short, room := ?_, progress := ?_ }
  · -- the written segment still starts where the ones before it end
    obtain ⟨hpre, hcur⟩ := segsFrom_append_singleton.1 h.segsFrom
    exact segsFrom_append_singleton.2 ⟨hpre, hcur⟩
  · have hl := h.len_eq
    simp only [segsData_append, List.length_append, segsData_cons, segsData_nil,
      List.append_nil] at hl ⊢
    omega
  · rw [hsegs, h.size_eq, h.segs_eq]
    simp
  · intro seg hseg
    rw [hsegs] at hseg
    simp only [List.mem_append, List.mem_cons] at hseg
    rcases hseg with hseg | rfl | hseg
    · exact h.seg_erased seg (h.mem_segs (Or.inl hseg))
    · exact h.seg_erased cur (h.mem_segs (Or.inr (Or.inl rfl)))
    · exact h.seg_erased seg (h.mem_segs (Or.inr (Or.inr hseg)))
  · intro seg hseg
    simp only [List.mem_append, List.mem_singleton] at hseg
    rcases hseg with hseg | rfl
    · exact h.fits seg (by simp [hseg])
    · simp only [Segment.of, List.length_append, hlen] at hfit hcroom ⊢
      omega
  · intro seg hseg
    simp only [List.mem_append, List.mem_singleton] at hseg
    rcases hseg with hseg | rfl
    · exact h.rdonly_full seg (by simp [hseg])
    · simp [hro]
  · intro seg hseg
    obtain ⟨hd, hr, ha⟩ := h.post_fresh seg hseg
    exact ⟨hd, hr, show seg.absof ≤ b.len + k by omega⟩
  · have := h.room
    rw [hroom']
    omega
  · intro hne
    have := h.progress hne
    rw [hroom']
    omega

/-- The step writes into the write segment only, which has room and so is not read-only. -/
theorem WriteInv.rdonlyKept_write (h : WriteInv b pre cur post n)
    (hroom : 0 < segmentWriteRemains cur) (bytes : List UInt8) (k : ℕ) :
    b.RdonlyKept { b with
      segs := b.segs.modify pre.length fun seg => { seg with data := seg.data ++ bytes }
      len := b.len + k } := by
  obtain ⟨hro, -⟩ := segmentWriteRemains_of_pos hroom
  intro seg hseg hseg_ro
  rw [h.segs_eq, List.modify_append_length] at hseg
  simp only [List.mem_append, List.mem_cons] at hseg
  rcases hseg with hseg | rfl | hseg
  · exact h.mem_segs (Or.inl hseg)
  · rw [hro] at hseg_ro
    cases hseg_ro
  · exact h.mem_segs (Or.inr (Or.inr hseg))

/-- A write segment without room hands over to the fresh segment, whose offset becomes the
buffer's end. -/
theorem WriteInv.move {p : Segment} (h : WriteInv b pre cur [p] n)
    (hroom : segmentWriteRemains cur = 0) :
    WriteInv { b with
        wpos := some (pre.length + 1)
        segs := b.segs.set (pre.length + 1) { p with absof := b.len } }
      (pre ++ [cur]) { p with absof := b.len } [] n := by
  obtain ⟨hpd, hpro, -⟩ := h.post_fresh p List.mem_cons_self
  have hproom : segmentWriteRemains { p with absof := b.len } = p.size := by
    simp [segmentWriteRemains, hpro, Segment.of, hpd]
  have hcfull : cur.size = cur.of := by
    have := segmentWriteRemains_add (h.fits cur (by simp)) (h.rdonly_full cur (by simp))
    omega
  have hsegs : b.segs.set (pre.length + 1) { p with absof := b.len } =
      pre ++ [cur] ++ [{ p with absof := b.len }] := by
    rw [h.segs_eq]
    simp
  have hl := h.len_eq
  simp only [segsData_append, List.length_append, segsData_cons, segsData_nil,
    List.append_nil] at hl
  refine { segs_eq := hsegs, wpos_eq := by simp, segsFrom := ?_, len_eq := ?_
           size_eq := ?_, erased_eq := h.erased_eq, seg_erased := ?_, fits := ?_
           rdonly_full := ?_, used_up := ?_, post_fresh := by simp, post_short := by simp
           room := ?_, progress := fun h => absurd rfl h }
  · refine segsFrom_append_singleton.2 ⟨h.segsFrom, ?_⟩
    simp only [segsData_append, List.length_append, segsData_cons, segsData_nil,
      List.append_nil]
    omega
  · simp only [segsData_append, List.length_append, segsData_cons, segsData_nil,
      List.append_nil, hpd]
    omega
  · simp [h.size_eq, h.segs_eq]
  · intro seg hseg
    rcases List.mem_or_eq_of_mem_set hseg with hseg | rfl
    · exact h.seg_erased seg hseg
    · exact h.seg_erased p (h.mem_segs (Or.inr (Or.inr List.mem_cons_self)))
  · intro seg hseg
    rw [List.mem_append, List.mem_singleton] at hseg
    rcases hseg with hseg | rfl
    · exact h.fits seg hseg
    · simp [Segment.of, hpd]
  · intro seg hseg
    rw [List.mem_append, List.mem_singleton] at hseg
    rcases hseg with hseg | rfl
    · exact h.rdonly_full seg hseg
    · simp [hpro]
  · intro seg hseg
    simp only [List.mem_append, List.mem_singleton] at hseg
    rcases hseg with hseg | rfl
    · exact h.used_up seg hseg
    · exact hcfull
  · have hr := h.room
    simp only [hroom, List.map_cons, List.map_nil, List.sum_cons, List.sum_nil] at hr
    simp only [hproom, List.map_nil, List.sum_nil]
    omega

/-- The loop asks `rd_buf_get_writable0` for room while bytes are left: it gets the write
segment's room if there is any, and otherwise moves to the fresh segment, putting its offset
right. -/
theorem WriteInv.getWritable0 (h : WriteInv b pre cur post n) (hn : 0 < n) :
    ∃ pre' cur' post', WriteInv (bufGetWritable0 b).1 pre' cur' post' n ∧
      (bufGetWritable0 b).2 = segmentWriteRemains cur' ∧ 0 < segmentWriteRemains cur' ∧
      (bufGetWritable0 b).1.content = b.content ∧ (bufGetWritable0 b).1.len = b.len ∧
      b.RdonlyKept (bufGetWritable0 b).1 := by
  have hcur : b.segs[pre.length]? = some cur := by
    rw [h.segs_eq]
    simp
  have hlen : b.segs.length = pre.length + post.length + 1 := by
    rw [h.segs_eq]
    simp only [List.length_append, List.length_cons]
    omega
  unfold bufGetWritable0
  rw [h.wpos_eq, hlen]
  dsimp only
  by_cases hroom : segmentWriteRemains cur = 0
  · -- the write segment is used up, so the fresh segment is there and has the room
    obtain ⟨p, rfl⟩ : ∃ p, post = [p] := by
      have hr := h.room
      have hs := h.post_short
      rcases post with _ | ⟨p, _ | ⟨q, rest⟩⟩
      · simp at hr
        omega
      · exact ⟨p, rfl⟩
      · simp at hs
    obtain ⟨hpd, hpro, hpabs⟩ := h.post_fresh p List.mem_cons_self
    have hpof : p.of = 0 := by simp [Segment.of, hpd]
    have hp : ({ b with wpos := some pre.length } : Buf).segs[pre.length + 1]? = some p := by
      show b.segs[pre.length + 1]? = some p
      rw [h.segs_eq]
      simp
    have h' := h.move hroom
    have hpos : 0 < segmentWriteRemains { p with absof := b.len } := by
      have hr := h'.room
      simp only [List.map_nil, List.sum_nil] at hr
      omega
    rw [show pre.length + [p].length + 1 = (pre.length + 1) + 1 from rfl,
      getWritable0Scan_skip hcur hroom,
      getWritable0Scan_room_fresh hp (Nat.pos_iff_ne_zero.1 hpos) hpof hpabs]
    refine ⟨pre ++ [cur], { p with absof := b.len }, [], h', rfl, hpos, ?_, rfl, ?_⟩
    · rw [h'.content_eq, h.content_eq, segsData_append, segsData_cons, hpd]
      simp
    · -- only the fresh segment, which is writable, has changed
      intro seg hseg hro
      rcases List.mem_or_eq_of_mem_set hseg with hseg | rfl
      · exact hseg
      · rw [hpro] at hro
        cases hro
  · -- the write segment's offset is right: it ends where the buffer ends
    have hl := h.len_eq
    simp only [segsData_append, List.length_append, segsData_cons, segsData_nil,
      List.append_nil] at hl
    have habs := (segsFrom_append_singleton.1 h.segsFrom).2
    have hnot : ¬(cur.of = 0 ∧ cur.absof < b.len) := by
      simp only [Segment.of]
      omega
    rw [getWritable0Scan_room hcur hroom hnot]
    have hset : b.segs.set pre.length cur = b.segs := by
      rw [h.segs_eq]
      simp
    have hb : { b with wpos := some pre.length, segs := b.segs.set pre.length cur } = b := by
      rw [hset, ← h.wpos_eq]
    rw [hb]
    exact ⟨pre, cur, post, h, rfl, Nat.pos_of_ne_zero hroom, rfl, rfl, Buf.RdonlyKept.refl b⟩

end WriteStep

/-- **Run.**  From a state of the loop with the whole payload left to write, the loop of
`rd_buf_write` writes it all, and leaves the buffer in shape. -/
theorem writeLoop_spec : ∀ (fuel : ℕ) (payload : List UInt8) {b : Buf} {pre : List Segment}
    {cur : Segment} {post : List Segment}, WriteInv b pre cur post payload.length →
    payload.length ≤ fuel →
    ∃ b', writeLoop fuel payload b = some b' ∧ b'.WF ∧ b'.content = b.content ++ payload ∧
      b'.len = b.len + payload.length ∧ b.RdonlyKept b'
  | 0, payload, b, _, _, _, h, hfuel => by
    obtain rfl : payload = [] := List.eq_nil_of_length_eq_zero (by omega)
    exact ⟨b, rfl, h.wf, by simp, rfl, Buf.RdonlyKept.refl b⟩
  | fuel + 1, payload, b, _, _, _, h, hfuel => by
    by_cases hnil : payload = []
    · subst hnil
      exact ⟨b, by simp [writeLoop], h.wf, by simp, rfl, Buf.RdonlyKept.refl b⟩
    have hn : 0 < payload.length := List.length_pos_iff.2 hnil
    obtain ⟨pre', cur', post', h1, hr, hpos, hc, hl, hk1⟩ := h.getWritable0 hn
    -- the bytes that go into the write segment in this pass
    set k := min payload.length (segmentWriteRemains cur') with hk
    have hk0 : 0 < k := lt_min hn hpos
    have h2 := h1.write hpos hk (List.length_take_of_le (min_le_left _ _))
    obtain ⟨b', hrun, hwf, hcontent, hlen, hk2⟩ := writeLoop_spec fuel (payload.drop k)
      (by rw [List.length_drop]; exact h2) (by rw [List.length_drop]; omega)
    refine ⟨b', ?_, hwf, ?_, ?_, hk1.trans ((h1.rdonlyKept_write hpos _ k).trans hk2)⟩
    · rw [writeLoop, if_neg hnil]
      dsimp only
      rw [h1.wpos_eq]
      dsimp only
      rw [hr, if_neg (Nat.pos_iff_ne_zero.1 hk0)]
      rw [h1.wpos_eq] at hrun
      exact hrun
    · rw [hcontent, h2.content_eq, ← hc, h1.content_eq]
      simp only [segsData_append, segsData_cons, segsData_nil, List.append_nil,
        List.append_assoc, List.take_append_drop]
    · rw [hlen, List.length_drop]
      show (bufGetWritable0 b).1.len + k + (payload.length - k) = b.len + payload.length
      rw [hl]
      omega

/-- A loop of `rd_buf_write_ensure` that finds the room it is asked for does nothing. -/
theorem writeEnsureLoop_stop {b : Buf} {minSize maxSize : ℕ} (h : minSize ≤ bufWriteRemains b) :
    ∀ fuel, writeEnsureLoop minSize maxSize fuel b = b
  | 0 => rfl
  | _ + 1 => by rw [writeEnsureLoop, if_neg (Nat.not_lt.2 h)]

/-- The segment that `rd_buf_write_ensure` adds for a write of `n` bytes holds at least the
missing room, and the write starts from the loop's state. -/
theorem Buf.WF.allocSegment {b : Buf} (hb : b.WF) {n : ℕ} (hR : bufWriteRemains b < n) :
    ∃ pre cur post, WriteInv (bufAllocSegment b (n - bufWriteRemains b) 0) pre cur post n ∧
      (bufAllocSegment b (n - bufWriteRemains b) 0).content = b.content ∧
      (bufAllocSegment b (n - bufWriteRemains b) 0).len = b.len ∧
      b.RdonlyKept (bufAllocSegment b (n - bufWriteRemains b) 0) := by
  unfold bufAllocSegment bufAppendSegment
  rw [if_pos (Or.inr rfl)]
  dsimp only
  set S := max (segmentStructSize * 4) (max ((n - bufWriteRemains b) * 2) (b.size / 2)) with hS
  have hSn : n - bufWriteRemains b ≤ S := by omega
  have hseg : ({ segmentNew S with absof := b.len } : Segment).of = 0 := rfl
  rcases List.eq_nil_or_concat' b.segs with hnil | ⟨pre, last, hsegs⟩
  · -- the first segment of the buffer becomes the write position
    have hwpos : b.wpos = none := by rw [hb.wpos_eq, if_pos hnil]
    have hR0 := hb.bufWriteRemains_nil hnil
    have hlen : b.len = 0 := by rw [hb.len_eq, Buf.content, hnil]; rfl
    have hsize : b.size = 0 := by rw [hb.size_eq, hnil]; rfl
    rw [hwpos]
    dsimp only
    refine ⟨[], { segmentNew S with absof := b.len }, [], ?_, ?_, ?_, ?_⟩
    · refine { segs_eq := by simp [hnil], wpos_eq := by simp [hnil], segsFrom := ?_
               len_eq := by rw [hlen]; rfl
               size_eq := by simp [hnil, hsize], erased_eq := hb.erased_eq, seg_erased := ?_
               fits := by simp [segmentNew, Segment.of], rdonly_full := by simp [segmentNew]
               used_up := by simp, post_fresh := by simp
               post_short := by simp, room := ?_, progress := fun h => absurd rfl h }
      · exact ⟨hlen, trivial⟩
      · intro seg hseg
        rw [hnil, List.nil_append, List.mem_singleton] at hseg
        subst hseg
        rfl
      · simp only [segmentWriteRemains, segmentNew, Bool.false_eq_true, if_false, Segment.of,
          List.length_nil, Nat.sub_zero, List.map_nil, List.sum_nil, Nat.add_zero]
        omega
    · rw [Buf.content, Buf.content, hnil]
      rfl
    · show b.len + 0 = b.len
      rfl
    · intro seg hseg hro
      rw [hnil, List.nil_append, List.mem_singleton] at hseg
      subst hseg
      cases hro
  · -- the new segment goes after the write segment, which keeps the write position if it
    -- has room
    have hwpos : b.wpos = some pre.length := by
      rw [hb.wpos_eq, if_neg (by simp [hsegs]), hsegs]
      simp
    have hRl := hb.bufWriteRemains_eq hsegs
    split
    · next hw =>
      rw [hwpos] at hw
      cases hw
    have h : WriteInv { b with
        segs := b.segs ++ [{ segmentNew S with absof := b.len }]
        len := b.len + ({ segmentNew S with absof := b.len } : Segment).of
        size := b.size + ({ segmentNew S with absof := b.len } : Segment).size }
        pre last [{ segmentNew S with absof := b.len }] n := by
      refine { segs_eq := by simp [hsegs], wpos_eq := hwpos, segsFrom := hsegs ▸ hb.segsFrom
               len_eq := ?_, size_eq := by simp [hb.size_eq], erased_eq := hb.erased_eq
               seg_erased := ?_, fits := hsegs ▸ hb.fits, rdonly_full := hsegs ▸ hb.rdonly_full
               used_up := ?_, post_fresh := ?_, post_short := by simp, room := ?_
               progress := fun _ => by omega }
      · rw [hseg, Nat.add_zero, hb.len_eq, Buf.content, hsegs]
      · intro seg hs
        rw [List.mem_append, List.mem_singleton] at hs
        rcases hs with hs | rfl
        · exact hb.seg_erased seg hs
        · rfl
      · intro seg hs
        apply hb.used_up
        rw [hsegs, List.dropLast_concat]
        exact hs
      · intro seg hs
        rw [List.mem_singleton] at hs
        subst hs
        exact ⟨rfl, rfl, show b.len ≤ b.len + 0 by omega⟩
      · simp only [List.map_cons, List.map_nil, List.sum_cons, List.sum_nil, Nat.add_zero]
        show n ≤ segmentWriteRemains last + S
        omega
    obtain ⟨pre', cur', post', h', -, -, hc, hl, hk⟩ := h.getWritable0 (by omega)
    refine ⟨pre', cur', post', h', hc.trans ?_, hl, Buf.RdonlyKept.trans ?_ hk⟩
    · rw [h.content_eq, Buf.content, hsegs]
    · -- the new segment is writable
      intro seg hseg hro
      rw [List.mem_append, List.mem_singleton] at hseg
      rcases hseg with hseg | rfl
      · exact hseg
      · cases hro

/-- `rd_buf_write_ensure` before a write of `n > 0` bytes leaves the buffer in the state
the write loop starts from, adding a segment only when the write segment has too little
room. -/
theorem Buf.WF.writeEnsure {b : Buf} (hb : b.WF) {n : ℕ} (hn : 0 < n) :
    ∃ pre cur post, WriteInv (bufWriteEnsure b n 0) pre cur post n ∧
      (bufWriteEnsure b n 0).content = b.content ∧ (bufWriteEnsure b n 0).len = b.len ∧
      b.RdonlyKept (bufWriteEnsure b n 0) := by
  obtain ⟨m, rfl⟩ : ∃ m, n = m + 1 := ⟨n - 1, by omega⟩
  unfold bufWriteEnsure
  rw [writeEnsureLoop]
  by_cases hR : bufWriteRemains b < m + 1
  · rw [if_pos hR, if_neg (by simp)]
    obtain ⟨pre, cur, post, h, hc, hl, hk⟩ := hb.allocSegment hR
    rw [writeEnsureLoop_stop (by rw [h.bufWriteRemains_eq]; exact h.room)]
    exact ⟨pre, cur, post, h, hc, hl, hk⟩
  · rw [if_neg hR]
    rcases List.eq_nil_or_concat' b.segs with hnil | ⟨pre, last, hsegs⟩
    · rw [hb.bufWriteRemains_nil hnil] at hR
      omega
    · rw [hb.bufWriteRemains_eq hsegs] at hR
      exact ⟨pre, last, [], hb.writeInv hsegs (by omega), rfl, rfl, Buf.RdonlyKept.refl b⟩

/-- **`rd_buf_write` appends.**  On a buffer in shape, `rd_buf_write` never fails: it
returns the offset the payload starts at, the buffer's old length, and the buffer holds its
old bytes followed by the payload, in shape again.  Memory pushed read-only is left as it
was. -/
theorem bufWrite_spec {b : Buf} (hb : b.WF) (payload : List UInt8) :
    ∃ b', bufWrite b payload = some (b.len, b') ∧ b'.WF ∧
      b'.content = b.content ++ payload ∧ b.RdonlyKept b' := by
  by_cases hnil : payload = []
  · subst hnil
    refine ⟨b, ?_, hb, by simp, Buf.RdonlyKept.refl b⟩
    simp [bufWrite, bufWriteEnsure, writeEnsureLoop, writeLoop]
  · obtain ⟨pre, cur, post, h, hc, -, hk⟩ := hb.writeEnsure (List.length_pos_iff.2 hnil)
    obtain ⟨b', hrun, hwf, hcontent, -, hk'⟩ := writeLoop_spec payload.length payload h le_rfl
    refine ⟨b', ?_, hwf, by rw [hcontent, hc], hk.trans hk'⟩
    rw [bufWrite, hrun]
    rfl

end Rdkafka
