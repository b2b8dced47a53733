import Rdkafka.Msg.MsgsetReader

/-!
# Progress of the MessageSet v2 record loop

`rd_kafka_msgset_reader_msgs_v2` reads records while bytes remain in the reader, which
`rd_kafka_msgset_reader_v2` has narrowed to the batch's payload.  Nothing bounds what a
record's varints say: its length may be negative or run past the payload, so `message_end`
may lie before the reader, and the skips to it are `size_t` differences that wrap.  This file
shows that on a window `[p, e]` of the shadow buffer, whatever its bytes, every record read
returns an error or moves the reader forward, and never past `e` (`msgsetReaderMsgV2_window`);
so the loop ends within `e - p` records, and its fuel is never what stops it
(`msgsV2Loop_window`).

The one way out is undefined behaviour: the absolute offset `BaseOffset + OffsetDelta` and
the timestamp `BaseTimestamp + TimestampDelta` are `int64_t` sums of a field of the batch and
a field of the record, and may overflow (`DeltasOverflow`).

A batch whose CRC does not match is skipped with `rd_kafka_buf_skip_to(rkbuf, crc_len)`, which
takes the length of the checked bytes for a slice offset: the reader moves to offset `crc_len`
itself, or fails with an underflow when it is already past it (`readerV2Crc_mismatch`), and
never reaches the next batch unless the batch starts the slice.
-/

set_option autoImplicit false

namespace Rdkafka

/-- The timestamp and offset deltas of the record at `s`: the third and fourth fields that
`rd_kafka_msgset_reader_msg_v2` reads, when they are there. -/
def msgV2Deltas (b : Buf) (s : Slice) : Option (BitVec 64 × BitVec 64) :=
  match bufReadVarint b s with
  | .error _ => none
  | .ok (_, s) =>
    match bufReadI8 b s with
    | some (.ok (_, s)) =>
      match bufReadVarint b s with
      | .error _ => none
      | .ok (timestampDelta, s) =>
        match bufReadVarint b s with
        | .error _ => none
        | .ok (offsetDelta, _) => some (timestampDelta, offsetDelta)
    | _ => none

/-- The record at `s` has deltas whose sums with the batch's base offset or base timestamp
overflow `int64_t`. -/
def DeltasOverflow (hdr : MsgsetV2Hdr) (b : Buf) (s : Slice) : Prop :=
  ∃ timestampDelta offsetDelta, msgV2Deltas b s = some (timestampDelta, offsetDelta) ∧
    (i64Add hdr.baseOffset offsetDelta = none ∨ i64Add hdr.baseTimestamp timestampDelta = none)

/-- The reader of `x` stands in the window `[q, e]` of the shadow buffer. -/
def StaysIn (q e : ℕ) (x : MsgsetReader × RespErr) : Prop :=
  ∃ p', x.1.reader = windowSlice p' e ∧ q ≤ p' ∧ p' ≤ e

/-- A call from the window `[q, e]` leaves the reader in it, or is undefined, which only `ub`
allows. -/
def StepWithin (ub : Prop) (q e : ℕ) : Option (MsgsetReader × RespErr) → Prop
  | none => ub
  | some x => StaysIn q e x

/-- What one record read from the window `[p, e]` does: it returns an error with the reader
still in the window, or moves the reader on inside the window, or is undefined because the
record's deltas overflow. -/
def RecordStep (hdr : MsgsetV2Hdr) (b : Buf) (p e : ℕ) : Option (MsgsetReader × RespErr) → Prop
  | none => DeltasOverflow hdr b (windowSlice p e)
  | some x => ∃ p', x.1.reader = windowSlice p' e ∧ p ≤ p' ∧ p' ≤ e ∧ (x.2 = .noError → p < p')

/-- What the record loop from the window `[p, e]` does: it ends with the reader in the window,
at its end unless with an error, or is undefined at a record of the window whose deltas
overflow. -/
def LoopStep (hdr : MsgsetV2Hdr) (b : Buf) (p e : ℕ) : Option (MsgsetReader × RespErr) → Prop
  | none => ∃ p', p ≤ p' ∧ p' < e ∧ DeltasOverflow hdr b (windowSlice p' e)
  | some x => ∃ p', x.1.reader = windowSlice p' e ∧ p ≤ p' ∧ p' ≤ e ∧ (x.2 = .noError → p' = e)

section Window

variable {data : List UInt8} {e : ℕ}

theorem staysIn_of_reader {q q' : ℕ} {r : MsgsetReader} (hr : r.reader = windowSlice q' e)
    (hq : q ≤ q') (hq' : q' ≤ e) (err : RespErr) : StaysIn q e (r, err) :=
  ⟨q', hr, hq, hq'⟩

/-- A call made past the record's first byte moves the reader on from it, and is undefined
only where the record's deltas overflow. -/
theorem StepWithin.recordStep {ub : Prop} {hdr : MsgsetV2Hdr} {p q : ℕ}
    {res : Option (MsgsetReader × RespErr)} (h : StepWithin ub q e res) (hpq : p < q)
    (hub : ub → DeltasOverflow hdr (shadowBuf data) (windowSlice p e)) :
    RecordStep hdr (shadowBuf data) p e res := by
  cases res with
  | none => exact hub h
  | some x =>
    obtain ⟨p', hx, hqp, hpe⟩ := h
    exact ⟨p', hx, by omega, hpe, fun _ => by omega⟩

theorem LoopStep.mono {hdr : MsgsetV2Hdr} {b : Buf} {p q : ℕ}
    {res : Option (MsgsetReader × RespErr)} (h : LoopStep hdr b q e res) (hpq : p ≤ q) :
    LoopStep hdr b p e res := by
  cases res with
  | none =>
    obtain ⟨p', hqp, hpe, hov⟩ := h
    exact ⟨p', le_trans hpq hqp, hpe, hov⟩
  | some x =>
    obtain ⟨p', hx, hqp, hpe, hend⟩ := h
    exact ⟨p', hx, le_trans hpq hqp, hpe, hend⟩

/-- Both branches of a test end as `LoopStep` says, so the test does. -/
theorem LoopStep.ite {hdr : MsgsetV2Hdr} {b : Buf} {p : ℕ} {c : Prop} [Decidable c]
    {res res' : Option (MsgsetReader × RespErr)} (h : LoopStep hdr b p e res)
    (h' : LoopStep hdr b p e res') : LoopStep hdr b p e (if c then res else res') := by
  split_ifs
  · exact h
  · exact h'

end Window

/-! ## One record -/

section Record

variable {data : List UInt8} {e : ℕ} (he : e ≤ data.length)
include he

/-- The control record branch never reads past the window.  Its one undefined case, a read
through an uninitialised slice, cannot happen on a window. -/
theorem msgV2Ctrl_stays {q : ℕ} (hqe : q ≤ e) (conf : ReaderConf) (hdr : MsgsetV2Hdr)
    {r : MsgsetReader} (hr : r.reader = windowSlice q e) (messageEnd : ℕ) (offset : BitVec 64) :
    StepWithin False q e (msgV2Ctrl conf (shadowBuf data) hdr r messageEnd offset) := by
  rw [msgV2Ctrl, hr]
  rcases bufReadVarint_window_cases he hqe with h | ⟨keySize, q₁, hq₁, hq₁e, h⟩
  · rw [h]
    exact staysIn_of_reader hr le_rfl hqe _
  rw [h]
  dsimp only
  by_cases hks : keySize.slt 2
  · rw [if_pos hks]
    exact staysIn_of_reader rfl hq₁.le hq₁e _
  rw [if_neg hks]
  rcases bufReadInt_window_cases he hq₁e 2 with h | ⟨version, hq₂e, h⟩
  · rw [bufReadI16, h]
    exact staysIn_of_reader rfl hq₁.le hq₁e _
  rw [bufReadI16, h]
  dsimp only
  by_cases hv : version ≠ 0
  · -- a marker of an unknown version is skipped to the record's end
    rw [if_pos hv]
    rcases bufSkipTo_window_cases he hq₂e messageEnd with h | ⟨q₃, hq₃, hq₃e, h⟩
    · rw [h]
      exact staysIn_of_reader rfl (by omega) hq₂e _
    · rw [h]
      exact staysIn_of_reader rfl (by omega) hq₃e _
  rw [if_neg hv]
  by_cases hk4 : keySize ≠ 4
  · rw [if_pos hk4]
    exact staysIn_of_reader rfl (by omega) hq₂e _
  rw [if_neg hk4]
  rcases bufReadInt_window_cases he hq₂e 2 with h | ⟨type, hq₄e, h⟩
  · rw [bufReadI16, h]
    exact staysIn_of_reader rfl (by omega) hq₂e _
  rw [bufReadI16, h]
  dsimp only
  rcases bufSkip_window_cases he hq₄e
      (i32ToSize (sizeToI32 (sizeSub messageEnd (sliceOffset (shadowBuf data)
        (windowSlice (q₁ + 2 + 2) e))))) with h | ⟨hq₅e, h⟩
  · rw [h]
    exact staysIn_of_reader rfl (by omega) hq₄e _
  · rw [h]
    exact staysIn_of_reader rfl (by omega) hq₅e _

/-- The regular record branch never reads past the window; it is undefined only where the
creation time overflows. -/
theorem msgV2Regular_stays {q : ℕ} (hqe : q ≤ e) (hdr : MsgsetV2Hdr) {r : MsgsetReader}
    (hr : r.reader = windowSlice q e) (messageEnd : ℕ) (msgAttributes : BitVec 8)
    (timestampDelta offset : BitVec 64) :
    StepWithin (i64Add hdr.baseTimestamp timestampDelta = none) q e
      (msgV2Regular (shadowBuf data) hdr r messageEnd msgAttributes timestampDelta offset) := by
  rw [msgV2Regular, hr]
  rcases bufReadKbytesVarint_window_cases he hqe with h | ⟨key, q₁, hq₁, hq₁e, h⟩
  · rw [h]
    exact staysIn_of_reader hr le_rfl hqe _
  rw [h]
  dsimp only
  rcases bufReadKbytesVarint_window_cases he hq₁e with h | ⟨value, q₂, hq₂, hq₂e, h⟩
  · rw [h]
    exact staysIn_of_reader rfl hq₁.le hq₁e _
  rw [h]
  dsimp only
  rcases bufReadPtr_window_cases he hq₂e (i32ToSize (sizeToI32 (sizeSub messageEnd
      (sliceOffset (shadowBuf data) (windowSlice q₂ e))))) with h | ⟨hq₃e, h⟩
  · rw [h]
    exact staysIn_of_reader rfl (by omega) hq₂e _
  rw [h]
  dsimp only
  -- a log append time is the batch's; only a creation time is a sum that may overflow
  by_cases hlog : hdr.attributes &&& msgAttrLogAppendTime ≠ 0 ∨
      msgAttributes.setWidth 16 &&& msgAttrLogAppendTime ≠ 0
  · rw [if_pos hlog]
    exact staysIn_of_reader rfl (by omega) hq₃e _
  · rw [if_neg hlog]
    cases i64Add hdr.baseTimestamp timestampDelta with
    | none => exact rfl
    | some t => exact staysIn_of_reader rfl (by omega) hq₃e _

/-- One record read from a window, whatever its bytes: an error with the reader still in the
window, the reader moved on inside the window, or undefined behaviour from deltas that
overflow. -/
theorem msgsetReaderMsgV2_window {p : ℕ} (hpe : p ≤ e) (conf : ReaderConf) (hdr : MsgsetV2Hdr)
    {r : MsgsetReader} (hr : r.reader = windowSlice p e) :
    RecordStep hdr (shadowBuf data) p e (msgsetReaderMsgV2 conf (shadowBuf data) hdr r) := by
  rw [msgsetReaderMsgV2, hr]
  rcases bufReadVarint_window_cases he hpe with h₁ | ⟨length, q₁, hq₁, hq₁e, h₁⟩
  · rw [h₁]
    exact ⟨p, hr, le_rfl, hpe, nofun⟩
  rw [h₁]
  dsimp only
  rcases bufReadInt_window_cases he hq₁e 1 with h₂ | ⟨msgAttributes, hq₂e, h₂⟩
  · rw [bufReadI8, h₂]
    exact ⟨q₁, rfl, hq₁.le, hq₁e, nofun⟩
  rw [bufReadI8, h₂]
  dsimp only
  rcases bufReadVarint_window_cases he hq₂e with h₃ | ⟨timestampDelta, q₃, hq₃, hq₃e, h₃⟩
  · rw [h₃]
    exact ⟨q₁ + 1, rfl, by omega, hq₂e, nofun⟩
  rw [h₃]
  dsimp only
  rcases bufReadVarint_window_cases he hq₃e with h₄ | ⟨offsetDelta, q₄, hq₄, hq₄e, h₄⟩
  · rw [h₄]
    exact ⟨q₃, rfl, by omega, hq₃e, nofun⟩
  rw [h₄]
  dsimp only
  have hdeltas : msgV2Deltas (shadowBuf data) (windowSlice p e) =
      some (timestampDelta, offsetDelta) := by
    rw [msgV2Deltas, h₁]
    dsimp only
    rw [bufReadI8, h₂]
    dsimp only
    rw [h₃]
    dsimp only
    rw [h₄]
  cases hoff : i64Add hdr.baseOffset offsetDelta with
  | none => exact ⟨timestampDelta, offsetDelta, hdeltas, .inl hoff⟩
  | some offset =>
    dsimp only
    split_ifs with hold hctrl
    · -- an outdated record is skipped to its end, which the skip never puts before the reader
      rcases bufSkipTo_window_cases he hq₄e (sizeAdd (sliceOffset (shadowBuf data)
          (windowSlice q₁ e)) length.toNat) with h | ⟨q₅, hq₅, hq₅e, h⟩
      · rw [h]
        exact ⟨q₄, rfl, by omega, hq₄e, nofun⟩
      · rw [h]
        exact ⟨q₅, rfl, by omega, hq₅e, fun _ => by omega⟩
    · exact (msgV2Ctrl_stays he hq₄e conf hdr rfl _ offset).recordStep (by omega) False.elim
    · exact (msgV2Regular_stays he hq₄e hdr rfl _ msgAttributes timestampDelta offset).recordStep
        (by omega) fun hts => ⟨timestampDelta, offsetDelta, hdeltas, .inr hts⟩

end Record

/-! ## The record loop -/

section Loop

variable {data : List UInt8} {e : ℕ} (he : e ≤ data.length) (conf : ReaderConf)
  (hdr : MsgsetV2Hdr)
include he

/-- The record loop from a window, with more fuel than bytes left: it ends as `LoopStep`
says, and more fuel changes nothing.  The induction is on the fuel; what carries it is that a
record read without error takes at least one byte. -/
theorem msgsV2Loop_window : ∀ (fuel : ℕ) {p : ℕ} {r : MsgsetReader},
    r.reader = windowSlice p e → p ≤ e → e - p < fuel →
    LoopStep hdr (shadowBuf data) p e (msgsV2Loop conf (shadowBuf data) hdr fuel r) ∧
      ∀ k, msgsV2Loop conf (shadowBuf data) hdr (fuel + k) r =
        msgsV2Loop conf (shadowBuf data) hdr fuel r
  | 0, _, _, _, _, hfuel => absurd hfuel (Nat.not_lt_zero _)
  | fuel + 1, p, r, hr, hpe, hfuel => by
    by_cases h0 : e - p = 0
    · -- nothing remains: the loop stops at the window's end
      have hrem : sliceRemains (shadowBuf data) r.reader = 0 := by
        rw [hr, sliceRemains_window, h0]
      refine ⟨?_, fun k => ?_⟩
      · rw [msgsV2Loop, if_pos hrem]
        exact ⟨p, hr, le_rfl, hpe, fun _ => by omega⟩
      · rw [Nat.add_right_comm, msgsV2Loop, msgsV2Loop, if_pos hrem, if_pos hrem]
    have hrem : sliceRemains (shadowBuf data) r.reader ≠ 0 := by
      rw [hr, sliceRemains_window]
      exact h0
    have hstep := msgsetReaderMsgV2_window he hpe conf hdr hr
    rcases hrec : msgsetReaderMsgV2 conf (shadowBuf data) hdr r with _ | ⟨r', err⟩
    · rw [hrec] at hstep
      refine ⟨?_, fun k => ?_⟩
      · rw [msgsV2Loop, if_neg hrem, hrec]
        exact ⟨p, le_rfl, by omega, hstep⟩
      · rw [Nat.add_right_comm, msgsV2Loop, msgsV2Loop, if_neg hrem, if_neg hrem, hrec]
    rw [hrec] at hstep
    obtain ⟨p', hr', hpp', hp'e, hadv⟩ := hstep
    cases err with
    | noError =>
      -- the record took a byte, so the fuel left still exceeds the bytes left
      have ih := msgsV2Loop_window fuel hr' hp'e (by have := hadv rfl; omega)
      refine ⟨?_, fun k => ?_⟩
      · rw [msgsV2Loop, if_neg hrem, hrec]
        exact ih.1.mono hpp'
      · rw [Nat.add_right_comm, msgsV2Loop, msgsV2Loop, if_neg hrem, if_neg hrem, hrec]
        exact ih.2 k
    | badMsg | noent | underflow =>
      refine ⟨?_, fun k => ?_⟩
      · rw [msgsV2Loop, if_neg hrem, hrec]
        exact ⟨p', hr', hpp', hp'e, nofun⟩
      · rw [Nat.add_right_comm, msgsV2Loop, msgsV2Loop, if_neg hrem, if_neg hrem, hrec]

end Loop

/-! ## The payload -/

/-- `rd_kafka_msgset_reader_msgs_v2` on a payload that is a window of the shadow buffer,
whatever its bytes and whatever the fetch position: each record read returns an error or
moves the reader on inside the window, or is undefined because the record's deltas overflow;
the loop needs no more passes than bytes in the window, plus the last test; and it ends with
the reader in the window, at its end unless with an error. -/
theorem msgsetReaderMsgsV2_progress {data : List UInt8} {p e : ℕ} (he : e ≤ data.length)
    (hpe : p ≤ e) (conf : ReaderConf) (hdr : MsgsetV2Hdr) (r : MsgsetReader)
    (hr : r.reader = windowSlice p e) :
    (∀ (q : ℕ) (r₁ : MsgsetReader), q ≤ e → r₁.reader = windowSlice q e →
      RecordStep hdr (shadowBuf data) q e (msgsetReaderMsgV2 conf (shadowBuf data) hdr r₁)) ∧
    (∀ fuel, e - p < fuel → msgsV2Loop conf (shadowBuf data) hdr fuel r =
      msgsV2Loop conf (shadowBuf data) hdr (e - p + 1) r) ∧
    LoopStep hdr (shadowBuf data) p e (msgsetReaderMsgsV2 conf (shadowBuf data) hdr r) := by
  refine ⟨fun q r₁ hqe hr₁ => msgsetReaderMsgV2_window he hqe conf hdr hr₁,
    fun fuel hfuel => ?_, ?_⟩
  · obtain ⟨k, rfl⟩ : ∃ k, fuel = e - p + 1 + k := ⟨fuel - (e - p + 1), by omega⟩
    exact (msgsV2Loop_window he conf hdr (e - p + 1) hr hpe (by omega)).2 k
  rw [msgsetReaderMsgsV2]
  refine LoopStep.ite ?_ ?_
  · -- a batch of an aborted transaction is skipped whole
    rw [hr, sliceRemains_window]
    rcases bufSkip_window_cases he hpe (e - p) with h | ⟨hend, h⟩
    · rw [h]
      exact ⟨p, hr, le_rfl, hpe, nofun⟩
    · rw [h]
      exact ⟨p + (e - p), rfl, by omega, hend, fun _ => by omega⟩
  · rw [hr, sliceRemains_window]
    exact (msgsV2Loop_window he conf hdr (e - p + 1) hr hpe (by omega)).1

theorem msgsetReaderMsgsV2_progress_oneRecord :
    8 ≤ [14, 0, 0, 0, 1, 2, 97, 0].length ∧
    LoopStep ⟨0, 0, 0, 2, 0, 0, 0, 0, 0, 0, 0, 0, 1⟩ (shadowBuf [14, 0, 0, 0, 1, 2, 97, 0]) 0 8
      (msgsetReaderMsgsV2 ⟨false, 0, false⟩ (shadowBuf [14, 0, 0, 0, 1, 2, 97, 0])
        ⟨0, 0, 0, 2, 0, 0, 0, 0, 0, 0, 0, 0, 1⟩ (msgsetReaderInit (windowSlice 0 8) none)) :=
  ⟨by decide, (msgsetReaderMsgsV2_progress (by decide) (by decide) _ _ _ rfl).2.2⟩

/-- A record with an offset delta of `INT64_MAX` in a batch at base offset `1`: the absolute
offset overflows, which is undefined, so the first record read neither fails nor moves on. -/
theorem msgsetReaderMsgV2_offset_overflow :
    msgsetReaderMsgV2 ⟨false, 0, false⟩
        (shadowBuf [30, 0, 0, 0xfe, 0xff, 0xff, 0xff, 0xff, 0xff, 0xff, 0xff, 0xff, 0x01, 1, 1, 0])
        ⟨1, 0, 0, 2, 0, 0, 0, 0, 0, 0, 0, 0, 1⟩ (msgsetReaderInit (windowSlice 0 16) none) =
      none := by
  decide +kernel

/-! ## A batch with a bad CRC -/

/-- **Where a batch with a bad CRC leaves the reader.**  With `check.crcs`, the reader at `p`
just after the CRC field, and a CRC that does not match the `crc_len` bytes after it,
`rd_kafka_msgset_reader_v2` reports the bad message and skips to the slice offset `crc_len`:
it lands there when `p ≤ crc_len`, and fails with an underflow otherwise.  The batch ends at
`p + crc_len`, which is `crc_len` only for `p = 0`. -/
theorem readerV2Crc_mismatch {data : List UInt8} {p e : ℕ} (he : e ≤ data.length)
    (hpe : p ≤ e) (he63 : e < 2 ^ 63) (conf : ReaderConf) (hcrcs : conf.checkCrcs = true)
    (decompress : MsgsetReader → MsgsetV2Hdr → List UInt8 → ℕ → MsgsetReader × RespErr)
    (hdr : MsgsetV2Hdr) (lenStart : ℕ) (r : MsgsetReader) (hr : r.reader = windowSlice p e)
    (hlen : p + i32ToSize (hdr.length - 4 - 1 - 4) ≤ e)
    (hbad : hdr.crc ≠ crc32c 0 ((data.drop p).take (i32ToSize (hdr.length - 4 - 1 - 4)))) :
    readerV2Crc conf (shadowBuf data) decompress hdr lenStart r =
      let crcLen := i32ToSize (hdr.length - 4 - 1 - 4)
      let r' := { r with rkq := r.rkq ++ [.consumerErr .badMsg hdr.baseOffset] }
      if p ≤ crcLen then some ({ r' with reader := windowSlice crcLen e }, .noError)
      else some (r', .underflow) := by
  generalize hcl : i32ToSize (hdr.length - 4 - 1 - 4) = crcLen at hlen hbad
  -- the CRC is taken over the `crc_len` bytes from `p`, and does not match
  have hnarrow := sliceNarrowCopyRelative_window data hlen
  have hcrc := @sliceCrc32c_window data p (p + crcLen) (Nat.le_add_right p crcLen)
    (Nat.le_trans hlen he)
  rw [Nat.add_sub_cancel_left] at hcrc
  unfold readerV2Crc
  rw [hcrcs, hcl, hr]
  simp only [Bool.not_true]
  rw [if_neg Bool.false_ne_true, hnarrow]
  dsimp only
  rw [hcrc]
  dsimp only
  rw [if_pos hbad, bufSkipTo, sliceOffset_window]
  -- `crc_len - offset` in `size_t`: the distance to the offset `crc_len`, or a wrapped one
  by_cases hle : p ≤ crcLen
  · rw [sizeSub_of_le hle (by omega), bufSkip_window (by omega) he, Nat.add_sub_cancel' hle,
      if_pos hle]
    rfl
  · have hwrap : e < p + sizeSub crcLen p := by
      unfold sizeSub
      omega
    rw [bufSkip_window_short hpe hwrap, if_neg hle]
    rfl

/-- Eight zero bytes read as a batch whose `Length` of 13 leaves a `crc_len` of 4, and whose
CRC, 1, is not the CRC of the four zero bytes after it: the reader reports the bad batch and
goes on at slice offset 4. -/
theorem readerV2Crc_mismatch_zero_bytes :
    readerV2Crc ⟨true, 0, false⟩ (shadowBuf (List.replicate 8 0)) (fun r _ _ _ => (r, .noError))
        ⟨0, 13, 0, 2, 1, 0, 0, 0, 0, 0, 0, 0, 0⟩ 0 (msgsetReaderInit (windowSlice 0 8) none) =
      some ({ msgsetReaderInit (windowSlice 4 8) none with
        rkq := [.consumerErr .badMsg 0] }, .noError) := by
  rw [readerV2Crc_mismatch (show 8 ≤ (List.replicate 8 (0 : UInt8)).length by decide)
    (show 0 ≤ 8 by decide) (by decide) ⟨true, 0, false⟩ rfl (fun r _ _ _ => (r, .noError))
    ⟨0, 13, 0, 2, 1, 0, 0, 0, 0, 0, 0, 0, 0⟩ 0 (msgsetReaderInit (windowSlice 0 8) none) rfl
    (by decide) (by decide +kernel)]
  rfl

/-- A fetched partition of two batches at slice offset `40`: one with a bad CRC, then an
intact one with one record.  The reader reports the bad batch and stops with an underflow at
offset `61`, after the bad batch's CRC field, instead of going on at offset `101`, where the
intact batch starts. -/
theorem msgsetReaderV2_bad_crc_underflow :
    (msgsetReaderV2 ⟨true, 0, false⟩
        (shadowBuf (List.replicate 40 0 ++
          ([0, 0, 0, 0, 0, 0, 0, 0, 0, 0, 0, 49, 0, 0, 0, 0, 2] ++ List.replicate 44 0) ++
          ([0, 0, 0, 0, 0, 0, 0, 1, 0, 0, 0, 57, 0, 0, 0, 0, 2, 44, 248, 213, 204] ++
            List.replicate 36 0 ++ [0, 0, 0, 1, 14, 0, 0, 0, 1, 2, 97, 0])))
        (fun r _ _ _ => (r, .noError)) (msgsetReaderInit (windowSlice 40 170) none)).map
      (fun x => (x.1.reader, x.1.rkq, x.2)) =
      some (windowSlice 61 170, [.consumerErr .badMsg 0], .underflow) := by
  decide +kernel

end Rdkafka
