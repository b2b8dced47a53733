import Rdkafka.Buf.SliceSpec
import Rdkafka.Lib.Simulation

/-!
# Building a request: any sequence of buffer calls

A request is built by a sequence of calls on one `rd_buf_t`: appends (`rd_buf_write`),
pushes of the caller's memory (`rd_buf_push0`), overwrites of bytes already written, such as
a length or a checksum filled in once what follows is known (`rd_buf_write_update`), and
cuts back to an earlier offset, such as the messages of a batch replaced by their
compressed form (`rd_buf_write_seek`).

`ByteBuf` says what such a sequence is for: a string of bytes that each call appends to,
overwrites or cuts, and the end of the bytes pushed read-only, which the buffer may not be
cut back into.  `bufCall_simulates` says that the segmented buffer is a forward simulation
of it, so that, by the run rule of `Lib.Simulation`, from an empty buffer every sequence of
calls that `ByteBuf` allows succeeds on the segmented buffer, returns the same values and
leaves the same bytes (`bufRun_refines`).  A slice over the buffer then reads those bytes
back (`bufRun_readBack`), as the request is read when it is sent.
-/

set_option autoImplicit false

namespace Rdkafka

open Simulation

/-! ## The calls -/

/-- A call on a buffer. -/
inductive BufOp where
  /-- `rd_buf_write(rbuf, payload, size)`. -/
  | write (payload : List UInt8)
  /-- `rd_buf_push0(rbuf, payload, size, free_cb, writable)`. -/
  | push (payload : List UInt8) (writable : Bool)
  /-- `rd_buf_write_update(rbuf, absof, payload, size)`. -/
  | update (absof : ℕ) (payload : List UInt8)
  /-- `rd_buf_write_seek(rbuf, absof)`. -/
  | seek (absof : ℕ)
  deriving DecidableEq, Repr

/-- A call on the buffer model: the value it returns, as an integer (`rd_buf_push0` returns
nothing, written `0`), and the buffer after it. -/
def bufCall (b : Buf) : BufOp → Option (ℤ × Buf)
  | .write payload => (bufWrite b payload).map fun r => ((r.1 : ℤ), r.2)
  | .push payload writable => (bufPush0 b payload writable).map fun b' => (0, b')
  | .update absof payload => (bufWriteUpdate b absof payload).map fun r => ((r.1 : ℤ), r.2)
  | .seek absof => bufWriteSeek b absof

/-- The calls made one after the other on the buffer model. -/
def bufRun (b : Buf) (ops : List BufOp) : Option (List ℤ × Buf) := runCalls bufCall b ops

/-! ## What the calls are for -/

/-- A buffer as its users see it: the bytes written so far, and the end of the last bytes
pushed read-only, before which it may not be cut back. -/
structure ByteBuf where
  /-- The bytes, in order. -/
  bytes : List UInt8
  /-- The end of the last bytes pushed read-only. -/
  pinned : ℕ
  pinned_le : pinned ≤ bytes.length

/-- An empty buffer. -/
def ByteBuf.empty : ByteBuf := ⟨[], 0, le_rfl⟩

/-- What each call is for, and the value it returns; `none` where it may not be made: an
overwrite outside the bytes written, or a cut back into bytes pushed read-only.  A cut at or
past the end does nothing and returns `-1`. -/
def ByteBuf.call (s : ByteBuf) : BufOp → Option (ℤ × ByteBuf)
  | .write payload =>
    some (s.bytes.length, ⟨s.bytes ++ payload, s.pinned, by
      rw [List.length_append]
      exact Nat.le_add_right_of_le s.pinned_le⟩)
  | .push payload writable =>
    some (0, ⟨s.bytes ++ payload, if writable then s.pinned else s.bytes.length + payload.length,
      by
        rw [List.length_append]
        split
        · exact Nat.le_add_right_of_le s.pinned_le
        · exact le_rfl⟩)
  | .update absof payload =>
    if h : absof < s.bytes.length ∧ absof + payload.length ≤ s.bytes.length then
      some (payload.length, ⟨s.bytes.overwrite absof payload, s.pinned, by
        rw [List.length_overwrite h.2]
        exact s.pinned_le⟩)
    else none
  | .seek absof =>
    if s.bytes.length ≤ absof then some (-1, s)
    else if h : s.pinned ≤ absof then
      some (0, ⟨s.bytes.take absof, s.pinned, by
        rw [List.length_take]
        exact le_min h s.pinned_le⟩)
    else none

/-- The calls made one after the other on the byte string. -/
def ByteBuf.run (s : ByteBuf) (ops : List BufOp) : Option (List ℤ × ByteBuf) :=
  runCalls ByteBuf.call s ops

/-! ## The segmented buffer does what the calls are for -/

/-- The segmented buffer `b` stands for the byte string `s`: it is in shape, holds its bytes,
and its read-only segments end before `s`'s pinned end. -/
structure BufRefines (b : Buf) (s : ByteBuf) : Prop where
  wf : b.WF
  content_eq : b.content = s.bytes
  rdonly_le : ∀ seg ∈ b.segs, seg.rdonly = true → seg.absof + seg.of ≤ s.pinned

theorem bufRefines_init : BufRefines bufInit ByteBuf.empty :=
  ⟨bufInit_wf, rfl, fun _ hseg => absurd hseg List.not_mem_nil⟩

section Step

variable {b : Buf} {s : ByteBuf}

theorem BufRefines.len_eq (h : BufRefines b s) : b.len = s.bytes.length := by
  rw [h.wf.len_eq, h.content_eq]

/-- A step that adds no read-only segment keeps the read-only ends below the pinned end. -/
theorem BufRefines.rdonly_le_of_kept (h : BufRefines b s) {b' : Buf} (hk : b.RdonlyKept b') :
    ∀ seg ∈ b'.segs, seg.rdonly = true → seg.absof + seg.of ≤ s.pinned :=
  fun seg hseg hro => h.rdonly_le seg (hk seg hseg hro) hro

variable {r : ℤ} {s' : ByteBuf}

theorem BufRefines.write (h : BufRefines b s) {payload : List UInt8}
    (hcall : s.call (.write payload) = some (r, s')) :
    ∃ b', bufCall b (.write payload) = some (r, b') ∧ BufRefines b' s' := by
  cases hcall
  obtain ⟨b', hrun, hwf, hc, hk⟩ := bufWrite_spec h.wf payload
  refine ⟨b', ?_, ⟨hwf, by rw [hc, h.content_eq], h.rdonly_le_of_kept hk⟩⟩
  simp only [bufCall, hrun, h.len_eq, Option.map_some]

theorem BufRefines.push (h : BufRefines b s) {payload : List UInt8} {writable : Bool}
    (hcall : s.call (.push payload writable) = some (r, s')) :
    ∃ b', bufCall b (.push payload writable) = some (r, b') ∧ BufRefines b' s' := by
  cases hcall
  obtain ⟨b', hrun, hwf, hc, hro⟩ := bufPush0_spec h.wf payload writable
  refine ⟨b', by simp only [bufCall, hrun, Option.map_some], ⟨hwf, by rw [hc, h.content_eq], ?_⟩⟩
  intro seg hseg hsro
  show seg.absof + seg.of ≤ if writable then s.pinned else s.bytes.length + payload.length
  have hpin := s.pinned_le
  rcases hro seg hseg hsro with hold | ⟨rfl, hend⟩
  · -- an old read-only segment ends below the old pinned end, which only grows
    have := h.rdonly_le seg hold hsro
    split <;> omega
  · -- the pushed read-only segment ends at the new end
    rw [if_neg Bool.false_ne_true, hend, h.len_eq]

theorem BufRefines.update (h : BufRefines b s) {absof : ℕ} {payload : List UInt8}
    (hcall : s.call (.update absof payload) = some (r, s')) :
    ∃ b', bufCall b (.update absof payload) = some (r, b') ∧ BufRefines b' s' := by
  rw [ByteBuf.call] at hcall
  split at hcall
  · next hin =>
    cases hcall
    rw [← h.len_eq] at hin
    obtain ⟨b', hrun, hwf, hc, hmap⟩ := bufWriteUpdate_spec h.wf payload hin.1 hin.2
    refine ⟨b', by simp only [bufCall, hrun, Option.map_some],
      ⟨hwf, by rw [hc, h.content_eq], ?_⟩⟩
    -- overwriting moves no segment and changes no flag
    exact forall_mem_of_map_layout hmap (fun seg => by rw [Segment.of_layout]; rfl) h.rdonly_le
  · cases hcall

theorem BufRefines.seek (h : BufRefines b s) {absof : ℕ}
    (hcall : s.call (.seek absof) = some (r, s')) :
    ∃ b', bufCall b (.seek absof) = some (r, b') ∧ BufRefines b' s' := by
  rw [ByteBuf.call] at hcall
  split at hcall
  · -- at or past the end nothing happens
    next hend =>
    cases hcall
    exact ⟨b, bufWriteSeek_of_le (by rw [h.len_eq]; exact hend), h⟩
  · next hend =>
    split at hcall
    · next hpin =>
      cases hcall
      have hin : absof < b.len := by
        rw [h.len_eq]
        exact Nat.lt_of_not_le hend
      obtain ⟨b', hrun, hwf, hc, hk⟩ := bufWriteSeek_spec h.wf hin
        (fun seg hseg hro => (h.rdonly_le seg hseg hro).trans hpin)
      exact ⟨b', hrun, ⟨hwf, by rw [hc, h.content_eq], h.rdonly_le_of_kept hk⟩⟩
    · cases hcall

end Step

/-- **Step.**  The segmented buffer makes every call the byte string allows, returns the
same value, and still stands for the byte string after it. -/
theorem bufCall_simulates : IsSimulation bufCall ByteBuf.call BufRefines := by
  intro b s op r s' h hcall
  cases op with
  | write payload => exact h.write hcall
  | push payload writable => exact h.push hcall
  | update absof payload => exact h.update hcall
  | seek absof => exact h.seek hcall

/-- **The segmented buffer is a byte string.**  From an empty buffer, every sequence of
`rd_buf_write`, `rd_buf_push0`, `rd_buf_write_update` and `rd_buf_write_seek` calls that
overwrites only bytes already written and cuts back into no memory pushed read-only
succeeds, returns what the calls on a byte string return, and leaves the bytes those calls
leave, in a buffer in shape. -/
theorem bufRun_refines (ops : List BufOp) {rs : List ℤ} {s : ByteBuf}
    (h : ByteBuf.empty.run ops = some (rs, s)) :
    ∃ b, bufRun bufInit ops = some (rs, b) ∧ b.content = s.bytes ∧ b.WF := by
  obtain ⟨b, hrun, hb⟩ := bufCall_simulates.run ops bufRefines_init h
  exact ⟨b, hrun, hb.content_eq, hb.wf⟩

/-- A request built as the message set writer builds one: a header, a message pushed
read-only, a trailer, the header's length field filled in, and a cut back to after the
pushed message. -/
theorem bufRun_refines_request :
    ∃ b, bufRun bufInit [.write [1, 2, 3], .push [4, 5] false, .write [6, 7], .update 1 [9],
        .seek 6] = some ([0, 0, 5, 1, 0], b) ∧ b.content = [1, 9, 3, 4, 5, 6] ∧ b.WF :=
  bufRun_refines _ (s := ⟨[1, 9, 3, 4, 5, 6], 5, by decide⟩) rfl

/-- **Round trip.**  After a sequence of calls that the byte string allows and that leaves
bytes, a slice over the whole buffer (`rd_slice_init_full`) reads back (`rd_slice_read`)
exactly those bytes. -/
theorem bufRun_readBack (ops : List BufOp) {rs : List ℤ} {s : ByteBuf}
    (h : ByteBuf.empty.run ops = some (rs, s)) (hne : s.bytes ≠ []) :
    ∃ b sl sl', bufRun bufInit ops = some (rs, b) ∧ sliceInitFull b = some sl ∧
      sliceRead b sl s.bytes.length = some (s.bytes.length, s.bytes, sl') := by
  obtain ⟨b, hrun, hb⟩ := bufCall_simulates.run ops bufRefines_init h
  have hlen : b.len = (segsData b.segs).length := hb.wf.len_eq
  have hpos : 0 < b.len := by
    rw [hb.len_eq]
    exact List.length_pos_iff.2 hne
  obtain ⟨i, seg, hinit, hat, habs⟩ := sliceInitFull_spec hb.wf.segsFrom hlen hpos
  obtain ⟨sl', -, -, hread, -⟩ := sliceRead_spec hb.wf.segsFrom hat (by rw [← hlen])
    (n := s.bytes.length) (by show seg.absof + 0 + _ ≤ b.len; rw [habs, hb.len_eq]; omega)
  refine ⟨b, _, sl', hrun, hinit, ?_⟩
  rw [hread, habs, Nat.zero_add, List.drop_zero, ← Buf.content, hb.content_eq, List.take_length]

/-- The request above reads back as written. -/
theorem bufRun_readBack_request :
    ∃ b sl sl', bufRun bufInit [.write [1, 2, 3], .push [4, 5] false, .write [6, 7],
        .update 1 [9], .seek 6] = some ([0, 0, 5, 1, 0], b) ∧ sliceInitFull b = some sl ∧
      sliceRead b sl 6 = some (6, [1, 9, 3, 4, 5, 6], sl') :=
  bufRun_readBack _ (s := ⟨[1, 9, 3, 4, 5, 6], 5, by decide⟩) rfl (by decide)

end Rdkafka
