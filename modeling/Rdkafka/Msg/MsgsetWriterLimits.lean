import Rdkafka.Msg.MsgsetWriterSpec
import Rdkafka.Msg.MsgsetWriterVersion

/-!
# The limits of a produce batch

`rd_kafka_msgset_writer_write_msgq` moves messages from the head of the queue into the batch
until `batch.num.messages` of them are in it, or the next would take the request past
`message.max.bytes` or `batch.size`.  The first message is let in whatever its size, as
`rd_kafka_msg_new0` has already held it to `message.max.bytes` with the overhead of
`MsgVersion` 2, the widest of the three (`msgWireSizeAt_le_msgWireSize`).  Each message then
takes no more bytes than `rd_kafka_msg_wire_size` of its version (`msgsetWriterWriteMsgAt_ok`),
so the loop keeps the size of the messages written within `message.max.bytes`
(`WriteMsgqInv`, `writeMsgqLoopAt_limits`), and the assertions of
`rd_kafka_msgset_writer_finalize` hold (`msgsetCreateProduceRequestAt_limits`).  At
`MsgVersion` 2 a message's `TimestampDelta` is a signed subtraction, which must not overflow.
-/

set_option autoImplicit false

namespace Rdkafka

/-! ## One message -/

/-- The overhead of `MsgVersion` 2 bounds those of the older versions, which leave the headers
out: a message that `rd_kafka_msg_new0` accepts fits every version. -/
theorem msgWireSizeAt_le_msgWireSize (m : ProduceMsg) (msgVersion : MsgVersion) :
    msgWireSizeAt m msgVersion ≤ msgWireSize m := by
  cases msgVersion <;>
    simp [msgWireSizeAt, msgOverhead, msgWireSize, messageV2MaxOverhead, uvarintEncSizeof,
      messagesetV0HdrSize, messageV0HdrSize, messageV1HdrSize] <;> omega

theorem ProduceMsg.Writable.wireSizeAt_le {maxSize : ℕ} {m : ProduceMsg} (hm : m.Writable maxSize)
    (msgVersion : MsgVersion) : msgWireSizeAt m msgVersion ≤ maxSize :=
  Nat.le_trans (msgWireSizeAt_le_msgWireSize m msgVersion) hm.bounds.2.2

@[simp] theorem length_bufWriteBytes (payload : Option (List UInt8)) :
    (bufWriteBytes payload).length = 4 + (payload.map List.length).getD 0 := by
  cases payload <;> simp [bufWriteBytes, Nat.add_comm]

/-- `rd_kafka_msgset_writer_write_msg_v0_1` writes as many bytes as it returns, and that is
`rd_kafka_msg_wire_size` of its version. -/
theorem msgsetWriterWriteMsgV01_length {msgVersion : MsgVersion} (hv : msgVersion ≠ .v2)
    (m : ProduceMsg) (offset : BitVec 64) (msgAttributes : BitVec 8) :
    (msgsetWriterWriteMsgV01 msgVersion m offset msgAttributes).1.length =
        (msgsetWriterWriteMsgV01 msgVersion m offset msgAttributes).2 ∧
      (msgsetWriterWriteMsgV01 msgVersion m offset msgAttributes).2 = msgWireSizeAt m msgVersion := by
  cases msgVersion with
  | v2 => exact absurd rfl hv
  | v0 | v1 =>
    simp [msgsetWriterWriteMsgV01, msgWireSizeAt, msgOverhead, messagesetV0HdrSize,
      messageV0HdrSize, messageV1HdrSize, ProduceMsg.keyLen, ProduceMsg.len]
    omega

/-- The `MessageSize` of `rd_kafka_msgset_writer_write_msg_v2` counts at least its
`Attributes`. -/
theorem msgsetWriterWriteMsgV2_pos {w : MsgsetWriter} {m : ProduceMsg} {offset : BitVec 64}
    {bytes : List UInt8} {outlen : ℕ}
    (h : msgsetWriterWriteMsgV2 w m offset = some (bytes, outlen)) : 0 < outlen := by
  unfold msgsetWriterWriteMsgV2 at h
  split at h
  · cases h
  · obtain ⟨-, rfl⟩ := Prod.mk.inj (Option.some.inj h)
    omega

/-- **One message, every version.**  `rd_kafka_msgset_writer_write_msg` appends a message that
`rd_kafka_msg_new0` accepted, of some bytes and no more than `rd_kafka_msg_wire_size` of the
version, and both its assertions hold: at `MsgVersion` 2 for an offset delta below `2^34` and a
timestamp delta that does not overflow. -/
theorem msgsetWriterWriteMsgAt_ok (msgVersion : MsgVersion) (w : MsgsetWriter) {m : ProduceMsg}
    {maxSize : ℕ} (hm : m.Writable maxSize) {offset : BitVec 64} (hoff : offset.toNat < 2 ^ 34)
    (hts : msgVersion = .v2 → ¬m.timestamp.ssubOverflow w.firstmsgTimestamp) :
    ∃ bytes outlen, msgsetWriterWriteMsgAt msgVersion w m offset =
        some ({ w with buf := w.buf ++ bytes }, outlen) ∧
      outlen = bytes.length ∧ 0 < outlen ∧ outlen ≤ msgWireSizeAt m msgVersion := by
  by_cases hv : msgVersion = .v2
  · subst hv
    obtain ⟨bytes, outlen, hwrite, hlen, hwire⟩ :=
      msgsetWriterWriteMsgV2_fits w m hm.headers hoff (hts rfl)
    refine ⟨bytes, outlen, ?_, hlen, msgsetWriterWriteMsgV2_pos hwrite, hwire⟩
    rw [msgsetWriterWriteMsgAt_v2, msgsetWriterWriteMsg, hwrite]
    dsimp only
    rw [if_pos ⟨hwire, hlen⟩]
  · -- `MsgVersion` 0 or 1: the size is exactly the wire size
    have hsize := msgsetWriterWriteMsgV01_length hv m offset
      (if m.timestamp ≠ 0 then 0 ||| msgAttrCreateTime8 else 0)
    refine ⟨_, _, ?_, hsize.1.symm, ?_, Nat.le_of_eq hsize.2⟩
    · cases msgVersion with
      | v2 => exact absurd rfl hv
      | v0 | v1 =>
        simp only [msgsetWriterWriteMsgAt]
        rw [if_pos ⟨Nat.le_of_eq hsize.2, hsize.1.symm⟩]
    · rw [hsize.2]
      cases msgVersion <;> simp [msgWireSizeAt, msgOverhead, messagesetV0HdrSize] at hv ⊢

/-! ## The loop -/

/-- What the loop of `rd_kafka_msgset_writer_write_msgq` keeps: `len` is the length of the
buffer, the messages start at `msetw_firstmsg.of`, and once one is written they take some
bytes and no more than `maxSize`. -/
structure WriteMsgqInv (maxSize : ℕ) (w : MsgsetWriter) (msgcnt len : ℕ) : Prop where
  len_eq : len = w.buf.length
  firstmsgOf_le : w.firstmsgOf ≤ w.buf.length
  none_written : msgcnt = 0 → w.buf.length = w.firstmsgOf
  size : 0 < msgcnt → 0 < w.buf.length - w.firstmsgOf ∧ w.buf.length - w.firstmsgOf ≤ maxSize

theorem writeMsgqInv_init (maxSize : ℕ) {w : MsgsetWriter} (h : w.firstmsgOf = w.buf.length) :
    WriteMsgqInv maxSize w 0 w.buf.length :=
  ⟨rfl, Nat.le_of_eq h, fun _ => h.symm, fun h0 => absurd h0 (Nat.lt_irrefl 0)⟩

/-- **Step.**  A message of `outlen` bytes, at most `wire ≤ maxSize`, written when it is the
first or when `len + wire` is within `maxSize`, keeps the invariant. -/
theorem WriteMsgqInv.write {maxSize : ℕ} {w : MsgsetWriter} {msgcnt len wire outlen : ℕ}
    {bytes : List UInt8} (hI : WriteMsgqInv maxSize w msgcnt len)
    (hroom : msgcnt = 0 ∨ len + wire ≤ maxSize) (hwire : wire ≤ maxSize)
    (hout : outlen ≤ wire) (hpos : 0 < outlen) (hlen : outlen = bytes.length)
    (w' : MsgsetWriter) (hbuf : w'.buf = w.buf ++ bytes) (hof : w'.firstmsgOf = w.firstmsgOf) :
    WriteMsgqInv maxSize w' (msgcnt + 1) (len + outlen) := by
  have hgrow : w'.buf.length = w.buf.length + outlen := by
    rw [hbuf, List.length_append, hlen]
  have hlenI := hI.len_eq
  have hofI := hI.firstmsgOf_le
  refine ⟨by omega, by omega, fun h => absurd h (Nat.succ_ne_zero msgcnt), fun _ => ?_⟩
  rcases hroom with h0 | hroom
  · -- the first message: the messages are that one message
    have := hI.none_written h0
    omega
  · omega

section Loop

variable (msgVersion : MsgVersion) (conf : WriterConf) {maxSize maxMsgSize : ℕ}

/-- The loop stopped before the first message of the queue. -/
theorem writeMsgqLoopAt_limits_stop {w : MsgsetWriter} {q : List ProduceMsg} {msgcnt len : ℕ}
    (hcnt : msgcnt ≤ w.msgcntmax) (hI : WriteMsgqInv maxSize w msgcnt len) :
    (∃ taken, q = taken ++ q ∧ msgcnt = msgcnt + taken.length ∧
      ∃ buf maxTs, w = { w with buf := buf, batch := w.batch ++ taken, maxTimestamp := maxTs }) ∧
    msgcnt ≤ w.msgcntmax ∧ ∃ len', WriteMsgqInv maxSize w msgcnt len' :=
  ⟨⟨[], rfl, rfl, w.buf, w.maxTimestamp, by simp⟩, hcnt, len, hI⟩

/-- **Run.**  The loop of `rd_kafka_msgset_writer_write_msgq`, with a size limit `maxMsgSize`
within `maxSize`, on messages that `rd_kafka_msg_new0` accepted under `maxSize`: it returns,
having moved a prefix of the queue into the batch, no more than `msetw_msgcntmax` messages,
and keeping the invariant. -/
theorem writeMsgqLoopAt_limits (hmsg : maxMsgSize ≤ maxSize) :
    ∀ (fuel : ℕ) (w : MsgsetWriter) (q : List ProduceMsg) (msgcnt len : ℕ),
      (∀ m ∈ q, m.Writable maxSize) →
      (msgVersion = .v2 → ∀ m ∈ q, ¬m.timestamp.ssubOverflow w.firstmsgTimestamp) →
      w.msgcntmax ≤ 2 ^ 34 → msgcnt ≤ w.msgcntmax → WriteMsgqInv maxSize w msgcnt len →
      ∃ w' q' msgcnt',
        writeMsgqLoopAt msgVersion conf maxMsgSize fuel w q msgcnt len = some (w', q', msgcnt') ∧
        (∃ taken, q = taken ++ q' ∧ msgcnt' = msgcnt + taken.length ∧
          ∃ buf maxTs, w' = { w with buf := buf, batch := w.batch ++ taken, maxTimestamp := maxTs }) ∧
        msgcnt' ≤ w.msgcntmax ∧ ∃ len', WriteMsgqInv maxSize w' msgcnt' len'
  | 0, w, q, msgcnt, len, _, _, _, hcnt, hI =>
    ⟨w, q, msgcnt, rfl, writeMsgqLoopAt_limits_stop hcnt hI⟩
  | _ + 1, w, [], msgcnt, len, _, _, _, hcnt, hI =>
    ⟨w, [], msgcnt, rfl, writeMsgqLoopAt_limits_stop hcnt hI⟩
  | fuel + 1, w, m :: q, msgcnt, len, hq, hts, hmax34, hcnt, hI => by
    rw [writeMsgqLoopAt]
    -- the three ways the loop stops at `m`: the retried batch ends, the batch is full, or
    -- `m` waits for its backoff
    by_cases hlast : w.lastMsgid ≠ 0 ∧ w.lastMsgid < m.msgid
    · rw [if_pos hlast]
      exact ⟨w, m :: q, msgcnt, rfl, writeMsgqLoopAt_limits_stop hcnt hI⟩
    rw [if_neg hlast]
    by_cases hfull : msgcnt = w.msgcntmax ∨
        (0 < msgcnt ∧ len + msgWireSizeAt m msgVersion > maxMsgSize)
    · rw [if_pos hfull]
      exact ⟨w, m :: q, msgcnt, rfl, writeMsgqLoopAt_limits_stop hcnt hI⟩
    rw [if_neg hfull]
    by_cases hwait : conf.now.slt m.tsBackoff = true
    · rw [if_pos hwait]
      exact ⟨w, m :: q, msgcnt, rfl, writeMsgqLoopAt_limits_stop hcnt hI⟩
    rw [if_neg hwait]
    -- `m` is written at the offset `msgcnt`, below `msetw_msgcntmax`
    have hm := hq m List.mem_cons_self
    have hoff : (BitVec.ofNat 64 msgcnt).toNat < 2 ^ 34 := by
      rw [BitVec.toNat_ofNat]
      omega
    dsimp only
    set w1 : MsgsetWriter := { w with
      batch := w.batch ++ [m]
      maxTimestamp := if w.maxTimestamp.slt m.timestamp then m.timestamp else w.maxTimestamp }
    obtain ⟨bytes, outlen, hwrite, hlen, hpos, hout⟩ :=
      msgsetWriterWriteMsgAt_ok msgVersion w1 hm hoff (fun hv => hts hv m List.mem_cons_self)
    rw [hwrite]
    dsimp only
    have hI' := hI.write (by omega) (hm.wireSizeAt_le msgVersion) hout hpos hlen
      { w1 with buf := w1.buf ++ bytes } rfl rfl
    obtain ⟨w', q', msgcnt', hloop, ⟨taken, rfl, rfl, buf, maxTs, rfl⟩, hcnt', hI''⟩ :=
      writeMsgqLoopAt_limits hmsg fuel { w1 with buf := w1.buf ++ bytes } q (msgcnt + 1)
        (len + outlen)
        (fun m' hm' => hq m' (List.mem_cons_of_mem m hm'))
        (fun hv m' hm' => hts hv m' (List.mem_cons_of_mem m hm')) hmax34
        (show msgcnt + 1 ≤ w.msgcntmax by omega) hI'
    refine ⟨_, _, _, hloop, ⟨m :: taken, rfl, ?_, buf, maxTs, ?_⟩, hcnt', hI''⟩
    · rw [List.length_cons]
      omega
    · simp [w1]

end Loop

/-! ## The batch and the request -/

/-- `rd_kafka_msgbatch_set_first_msg` on a batch without a first message sets it. -/
theorem msgbatchSetFirstMsg_isSome {w : MsgsetWriter} (m : ProduceMsg) (h : w.firstMsgid = 0) :
    ∃ w', msgbatchSetFirstMsg w m = some w' := by
  unfold msgbatchSetFirstMsg
  rw [if_neg (by simpa using h)]
  by_cases hpid : !w.pid.valid
  · exact ⟨w, if_pos hpid⟩
  · exact ⟨_, if_neg hpid⟩

/-- **The batch.**  `rd_kafka_msgset_writer_write_msgq` on a queue of messages that
`rd_kafka_msg_new0` accepted, into a writer with an empty batch whose messages start at the end
of its buffer, returns.  It has moved a prefix of the queue, no more than `msetw_msgcntmax`
messages; the batch of a retry that it keeps ends at `last_msgid`; and the messages written
take some bytes and no more than `message.max.bytes`. -/
theorem msgsetWriterWriteMsgqAt_limits (msgVersion : MsgVersion) (conf : WriterConf)
    {w : MsgsetWriter} {rkmq : List ProduceMsg} (hne : rkmq ≠ [])
    (hq : ∀ m ∈ rkmq, m.Writable conf.maxMsgSize)
    (hts : msgVersion = .v2 → ∀ m₀ ∈ rkmq.head?, ∀ m ∈ rkmq,
      ¬m.timestamp.ssubOverflow m₀.timestamp)
    (hbatch : w.batch = []) (hfirst : w.firstMsgid = 0) (hof : w.firstmsgOf = w.buf.length)
    (hmax34 : w.msgcntmax ≤ 2 ^ 34) :
    ∃ w' q ok, msgsetWriterWriteMsgqAt msgVersion conf w rkmq = some (w', q, ok) ∧
      rkmq = w'.batch ++ q ∧ w'.batch.length ≤ w.msgcntmax ∧
      (ok = true → w'.lastMsgid ≠ 0 → w'.batch ≠ [] →
        w'.batch.getLast?.map ProduceMsg.msgid = some w'.lastMsgid) ∧
      (w'.batch ≠ [] →
        0 < w'.buf.length - w'.firstmsgOf ∧ w'.buf.length - w'.firstmsgOf ≤ conf.maxMsgSize) := by
  obtain ⟨m, rest, rfl⟩ := List.exists_cons_of_ne_nil hne
  obtain ⟨w1, hset⟩ := msgbatchSetFirstMsg_isSome (w := { w with firstmsgTimestamp := m.timestamp })
    m hfirst
  obtain ⟨a, b, c, rfl⟩ := msgbatchSetFirstMsg_frame hset
  rw [msgsetWriterWriteMsgqAt]
  dsimp only
  rw [hset]
  dsimp only
  obtain ⟨w', q, msgcnt, hloop, ⟨taken, hsplit, rfl, buf, maxTs, rfl⟩, hcnt, len', hI⟩ :=
    writeMsgqLoopAt_limits msgVersion conf (Nat.min_le_left _ _) (m :: rest).length
      { w with
        firstmsgTimestamp := m.timestamp
        firstMsgid := a
        firstSeq := b
        lastMsgid := c
        maxTimestamp := 0 } (m :: rest) 0 w.buf.length hq
      (fun hv => hts hv m rfl) hmax34 (Nat.zero_le _) (writeMsgqInv_init _ hof)
  rw [hloop]
  dsimp only
  simp only [hbatch, List.nil_append, Nat.zero_add] at hsplit hcnt hI ⊢
  -- a batch with messages holds `taken.length` of them
  have hsize : taken ≠ [] →
      0 < buf.length - w.firstmsgOf ∧ buf.length - w.firstmsgOf ≤ conf.maxMsgSize :=
    fun hne => hI.size (List.length_pos_of_ne_nil hne)
  by_cases hcheck : 0 < taken.length ∧ c ≠ 0
  · -- the idempotence check compares the last message with `last_msgid`
    rw [if_pos hcheck]
    cases hl : taken.getLast? with
    | none =>
      rw [List.getLast?_eq_none_iff] at hl
      simp [hl] at hcheck
    | some lastmsg =>
      refine ⟨_, q, _, rfl, hsplit, hcnt, fun hok _ _ => ?_, hsize⟩
      rw [hl]
      simpa using hok
  · rw [if_neg hcheck]
    refine ⟨_, q, true, rfl, hsplit, hcnt, fun _ hc hne => ?_, hsize⟩
    exact absurd ⟨List.length_pos_of_ne_nil hne, hc⟩ hcheck

/-- The header of `rd_kafka_msgset_writer_init` leaves the batch as it is and puts the first
message at the end of the buffer. -/
theorem msgsetWriterWriteMessageSetHeaderAt_frame (msgVersion : MsgVersion) (w : MsgsetWriter) :
    (msgsetWriterWriteMessageSetHeaderAt msgVersion w).batch = w.batch ∧
    (msgsetWriterWriteMessageSetHeaderAt msgVersion w).firstMsgid = w.firstMsgid ∧
    (msgsetWriterWriteMessageSetHeaderAt msgVersion w).msgcntmax = w.msgcntmax ∧
    (msgsetWriterWriteMessageSetHeaderAt msgVersion w).firstmsgOf =
      (msgsetWriterWriteMessageSetHeaderAt msgVersion w).buf.length := by
  cases msgVersion with
  | v2 =>
    -- unfolded first, so that `rfl` does not evaluate the header's length
    dsimp only [msgsetWriterWriteMessageSetHeaderAt, msgsetWriterWriteMessageSetV2Header]
    exact ⟨rfl, rfl, rfl, rfl⟩
  | v0 | v1 => exact ⟨rfl, rfl, rfl, rfl⟩

/-- **Produce batches respect their limits.**  For every `MsgVersion`, every configuration
with `batch.num.messages` in its range and every queue of messages that `rd_kafka_msg_new0`
accepted under the same `message.max.bytes`, `rd_kafka_msgset_create_ProduceRequest` fails no
assertion and has no undefined behaviour, provided that at `MsgVersion` 2 no message's
timestamp minus the first message's overflows `int64_t`.  A request it returns holds a prefix
of the queue, of at most `min(queue length, batch.num.messages)` messages, which for a retried
batch ends at `last_msgid`, and those messages take no more than `message.max.bytes`. -/
theorem msgsetCreateProduceRequestAt_limits (msgVersion : MsgVersion) (conf : WriterConf)
    (hnum : conf.batchNumMessages ≤ 1000000) (pre : List UInt8) (pid : Pid)
    (epochBaseMsgid : ℕ) (rkmq : List ProduceMsg) (hq : ∀ m ∈ rkmq, m.Writable conf.maxMsgSize)
    (hts : msgVersion = .v2 → ∀ m₀ ∈ rkmq.head?, ∀ m ∈ rkmq,
      ¬m.timestamp.ssubOverflow m₀.timestamp) :
    ∃ r, msgsetCreateProduceRequestAt msgVersion conf pre pid epochBaseMsgid rkmq = some r ∧
      ∀ w q len, r = some (w, q, len) →
        rkmq = w.batch ++ q ∧ w.batch.length ≤ min rkmq.length conf.batchNumMessages ∧
        (w.lastMsgid ≠ 0 → w.batch.getLast?.map ProduceMsg.msgid = some w.lastMsgid) ∧
        len = w.buf.length - w.firstmsgOf ∧ len ≤ conf.maxMsgSize := by
  unfold msgsetCreateProduceRequestAt
  by_cases hempty : rkmq.length = 0
  · exact ⟨none, if_pos hempty, fun _ _ _ h => nomatch h⟩
  rw [if_neg hempty]
  dsimp only
  set w0 : MsgsetWriter := ⟨pre, min rkmq.length conf.batchNumMessages, pid, 0, 0, 0, 0, 0, 0, [],
    epochBaseMsgid, 0, 0, -1⟩
  obtain ⟨hbatch, hfirst, hcntmax, hof⟩ := msgsetWriterWriteMessageSetHeaderAt_frame msgVersion w0
  have hmax34 : (msgsetWriterWriteMessageSetHeaderAt msgVersion w0).msgcntmax ≤ 2 ^ 34 := by
    rw [hcntmax]
    exact Nat.le_trans (Nat.min_le_right _ _) (Nat.le_trans hnum (by decide))
  obtain ⟨w', q, ok, hwrite, hsplit, hcnt, hlast, hsize⟩ :=
    msgsetWriterWriteMsgqAt_limits msgVersion conf (List.ne_nil_of_length_pos
      (Nat.pos_of_ne_zero hempty)) hq hts hbatch hfirst hof hmax34
  rw [hwrite]
  cases ok with
  | false =>
    -- the idempotence check failed: the batch goes back to the queue, no request
    exact ⟨none, rfl, fun _ _ _ h => nomatch h⟩
  | true =>
    dsimp only
    by_cases hnil : w'.batch.length = 0
    · rw [if_pos hnil]
      exact ⟨none, rfl, fun _ _ _ h => nomatch h⟩
    rw [if_neg hnil]
    -- the assertions of `rd_kafka_msgset_writer_finalize` hold
    have hbounds := hsize (fun h => hnil (by rw [h, List.length_nil]))
    rw [if_neg (not_not_intro hbounds)]
    refine ⟨_, rfl, fun w q' len h => ?_⟩
    simp only [Option.some.injEq, Prod.mk.injEq] at h
    obtain ⟨rfl, rfl, rfl⟩ := h
    rw [hcntmax] at hcnt
    exact ⟨hsplit, hcnt, fun hc => hlast rfl hc (fun h => hnil (by rw [h, List.length_nil])),
      rfl, hbounds.2⟩

theorem msgsetCreateProduceRequestAt_limits_v1 :
    ∃ r, msgsetCreateProduceRequestAt .v1 ⟨1000000, 1000000, 10000, false, 0⟩ [] ⟨-1, 0⟩ 0
        [⟨1, 0, none, some [118], none, 5, 0⟩, ⟨2, 0, some [107], some [119], none, 6, 0⟩] =
        some r ∧
      ∀ w q len, r = some (w, q, len) →
        [⟨1, 0, none, some [118], none, 5, 0⟩, ⟨2, 0, some [107], some [119], none, 6, 0⟩] =
          w.batch ++ q ∧ w.batch.length ≤ min 2 10000 ∧
        (w.lastMsgid ≠ 0 → w.batch.getLast?.map ProduceMsg.msgid = some w.lastMsgid) ∧
        len = w.buf.length - w.firstmsgOf ∧ len ≤ 1000000 :=
  msgsetCreateProduceRequestAt_limits .v1 ⟨1000000, 1000000, 10000, false, 0⟩ (by decide) [] ⟨-1, 0⟩
    0 _
    (fun m hm => by
      simp only [List.mem_cons, List.not_mem_nil, or_false] at hm
      rcases hm with rfl | rfl <;> exact ⟨by decide, fun _ h => nomatch h⟩)
    (fun h => nomatch h)

/-- Two messages that `rd_kafka_msg_new0` accepts, stamped `-1` and `INT64_MAX`: at
`MsgVersion` 2 the second one's `TimestampDelta` overflows `int64_t`, which is undefined. -/
theorem msgsetCreateProduceRequestAt_timestamp_overflow :
    (∀ m ∈ [(⟨1, 0, none, some [118], none, -1, 0⟩ : ProduceMsg),
        ⟨2, 0, none, some [118], none, 0x7fffffffffffffff, 0⟩],
      msgNew0SizeOk 1000000 m = true) ∧
    msgsetCreateProduceRequestAt .v2 ⟨1000000, 1000000, 10000, false, 0⟩ [] ⟨-1, 0⟩ 0
      [⟨1, 0, none, some [118], none, -1, 0⟩, ⟨2, 0, none, some [118], none, 0x7fffffffffffffff, 0⟩] =
      none := by
  decide +kernel

end Rdkafka
