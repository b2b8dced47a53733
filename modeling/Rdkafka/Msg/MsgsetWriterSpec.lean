import Rdkafka.Msg.MsgsetFormat

/-!
# What the MessageSet v2 writer writes

For messages that `rd_kafka_msg_new0` accepted, the writer's bytes are the RecordBatch
format of `Rdkafka.Msg.MsgsetFormat`.  Each message becomes its record (`msgsetWriterWriteMsg_eq`):
its length fields fit the `RD_UVARINT_ENC_SIZEOF(int32_t)`-byte buffers they are encoded
into, and the size the writer computes is the size of the record.  The loop of
`rd_kafka_msgset_writer_write_msgq` appends the records of the messages it takes in order
(`writeMsgqLoop_spec`), and `rd_kafka_msgset_writer_finalize` fills in the header fields,
each at its offset, and last the CRC32C of what follows the CRC field
(`msgsetWriterFinalize_eq`).  `msgsetCreateProduceRequest_spec` puts these together.
-/

set_option autoImplicit false

namespace Rdkafka

open Leb128

/-! ## Varints in fixed buffers -/

/-- A varint whose encoding fits the buffer is written whole. -/
theorem uvarintEncI64_of_fit {dstsize : ℕ} {v : BitVec 64}
    (h : (bufWriteVarint v).length ≤ dstsize) :
    uvarintEncI64 dstsize v = ((bufWriteVarint v).length, bufWriteVarint v) := by
  rw [bufWriteVarint_eq] at h ⊢
  rw [uvarintEncI64, zigzag_eq_zigzagEncode, uvarintEncU64_eq, if_pos h]

theorem varintBytes_uvarintEncI64_of_fit {dstsize : ℕ} {v : BitVec 64}
    (h : (bufWriteVarint v).length ≤ dstsize) :
    varintBytes (uvarintEncI64 dstsize v) = bufWriteVarint v := by
  rw [uvarintEncI64_of_fit h, varintBytes]
  exact List.take_length

theorem length_uvarintEncLoop_le : ∀ (room : ℕ) (num : BitVec 64),
    (uvarintEncLoop room num).1.length ≤ room
  | 0, _ => le_rfl
  | room + 1, num => by
    rw [uvarintEncLoop]
    dsimp only
    split_ifs
    · simpa using length_uvarintEncLoop_le room (num >>> 7)
    · simp

/-- The encoder never reports more bytes than its buffer holds. -/
theorem uvarintEncU64_fst_le (dstsize : ℕ) (num : BitVec 64) :
    (uvarintEncU64 dstsize num).1 ≤ dstsize := by
  rw [uvarintEncU64]
  split_ifs
  · exact length_uvarintEncLoop_le dstsize num
  · exact Nat.zero_le _

/-- `rd_kafka_buf_write` writes as many bytes of a varint as the encoder reported: all of
them, or none when the buffer was too small. -/
theorem length_varintBytes_uvarintEncU64 (dstsize : ℕ) (num : BitVec 64) :
    (varintBytes (uvarintEncU64 dstsize num)).length = (uvarintEncU64 dstsize num).1 := by
  rw [varintBytes, uvarintEncU64]
  split_ifs <;> simp

/-- Every 64-bit varint fits the `RD_UVARINT_ENC_SIZEOF(int64_t)` bytes of the delta
fields. -/
theorem length_bufWriteVarint_le (v : BitVec 64) :
    (bufWriteVarint v).length ≤ uvarintEncSizeof 8 := by
  rw [bufWriteVarint_eq]
  exact (length_encode_toNat_le _).2

theorem length_bufWriteVarint_ofNat_le {n : ℕ} (h : n < 2 ^ 34) :
    (bufWriteVarint (BitVec.ofNat 64 n)).length ≤ uvarintEncSizeof 4 := by
  rw [bufWriteVarint_eq, toNat_zigzagEncode_ofNat (by omega)]
  exact length_encode_two_mul_le h

/-- A count below `2^31` as an `int32_t` varint. -/
theorem uvarintEncI32_ofNat {n : ℕ} (h : n < 2 ^ 31) :
    uvarintEncI32 (uvarintEncSizeof 4) (BitVec.ofNat 32 n) =
      ((bufWriteVarint (BitVec.ofNat 64 n)).length, bufWriteVarint (BitVec.ofNat 64 n)) := by
  rw [uvarintEncI32, signExtend_ofNat_of_lt h]
  exact uvarintEncI64_of_fit (length_bufWriteVarint_ofNat_le (by omega))

/-- The length field of a key or a value: its length, or `-1` for `NULL`, as an `int32_t`
varint. -/
theorem uvarintEncI32_lenField {o : Option (List UInt8)}
    (h : (o.map List.length).getD 0 < 2 ^ 31) :
    uvarintEncI32 (uvarintEncSizeof 4)
        (if o.isSome then BitVec.ofNat 32 ((o.map List.length).getD 0) else -1) =
      ((bufWriteVarint (nullableLen o)).length, bufWriteVarint (nullableLen o)) := by
  cases o with
  | none =>
    have hfit : (bufWriteVarint (nullableLen none)).length ≤ uvarintEncSizeof 4 := by decide
    rw [← uvarintEncI64_of_fit hfit]
    rfl
  | some v =>
    simp only [Option.isSome_some, if_true, Option.map_some, Option.getD_some] at h ⊢
    exact uvarintEncI32_ofNat h

/-! ## The messages the writer takes -/

/-- A message `rd_kafka_msg_new0` accepted under `message.max.bytes` `maxMsgSize`, whose
headers object was built by header calls. -/
structure ProduceMsg.Writable (maxMsgSize : ℕ) (m : ProduceMsg) : Prop where
  sizeOk : msgNew0SizeOk maxMsgSize m = true
  headers : ∀ hdrs, m.headers = some hdrs → hdrs.Consistent

section Writable

variable {maxMsgSize : ℕ} {m : ProduceMsg}

theorem ProduceMsg.Writable.bounds (hm : m.Writable maxMsgSize) :
    m.len ≤ int32Max ∧ m.keyLen ≤ int32Max ∧ msgWireSize m ≤ maxMsgSize := by
  have h := hm.sizeOk
  simp only [msgNew0SizeOk, Bool.not_eq_true', Bool.or_eq_false_iff, decide_eq_false_iff_not,
    not_lt] at h
  obtain ⟨⟨hlen, hkey⟩, hwire⟩ := h
  refine ⟨hlen, hkey, ?_⟩
  simp only [msgMaxWireSize] at hwire
  simp only [msgWireSize]
  omega

theorem Header.Sized.two_le_serSize {hdr : Header} (h : hdr.Sized) : 2 ≤ hdr.serSize := by
  obtain ⟨hsize, hname, hvalue⟩ := h
  have h1 := one_le_length_encode (2 * hdr.name.length)
  have h2 := one_le_length_encode (2 * hdr.valueSize)
  rw [hsize, headerSerSize_eq hname hvalue]
  omega

/-- Every header of a consistent object counts two bytes at least. -/
theorem Headers.Consistent.two_mul_length_le {hdrs : Headers} (h : hdrs.Consistent) :
    2 * hdrs.list.length ≤ hdrs.serSize := by
  have hle := List.card_nsmul_le_sum (hdrs.list.map Header.serSize) 2 (by
    intro x hx
    obtain ⟨hdr, hmem, rfl⟩ := List.mem_map.1 hx
    exact (h.sized hdr hmem).two_le_serSize)
  have hsmul : (hdrs.list.map Header.serSize).length • 2 = hdrs.list.length * 2 := by
    rw [List.length_map]
    rfl
  rw [hsmul] at hle
  rw [h.total]
  omega

/-- The header bytes the writer writes for a message, after its header count. -/
def ProduceMsg.headerBytes (m : ProduceMsg) : List UInt8 :=
  (m.headers.map fun h => (msgsetWriterWriteMsgHeaders h).1).getD []

theorem ProduceMsg.binhdrs_eq (m : ProduceMsg) :
    m.binhdrs = bufWriteVarint (BitVec.ofNat 64 m.headerCount) ++ m.headerBytes := rfl

/-- A headers object built by header calls is written in as many bytes as it records. -/
theorem ProduceMsg.length_headerBytes {m : ProduceMsg}
    (hhdrs : ∀ hdrs, m.headers = some hdrs → hdrs.Consistent) :
    m.headerBytes.length = m.headerSize := by
  cases hh : m.headers with
  | none => simp [ProduceMsg.headerBytes, ProduceMsg.headerSize, hh]
  | some hdrs =>
    simp only [ProduceMsg.headerBytes, ProduceMsg.headerSize, hh, Option.map_some,
      Option.getD_some]
    exact msgsetWriterWriteMsgHeaders_length (hhdrs hdrs hh)

theorem ProduceMsg.Writable.length_headerBytes (hm : m.Writable maxMsgSize) :
    m.headerBytes.length = m.headerSize :=
  ProduceMsg.length_headerBytes hm.headers

theorem ProduceMsg.Writable.headerCount_lt (hm : m.Writable maxMsgSize)
    (hmax : maxMsgSize < 2 ^ 32) : m.headerCount < 2 ^ 31 := by
  have hwire := hm.bounds.2.2
  cases hh : m.headers with
  | none => simp [ProduceMsg.headerCount, hh]
  | some hdrs =>
    have h2 := (hm.headers hdrs hh).two_mul_length_le
    simp only [msgWireSize, ProduceMsg.headerSize, hh, Option.map_some, Option.getD_some] at hwire
    simp only [ProduceMsg.headerCount, hh, Option.map_some, Option.getD_some]
    omega

end Writable

theorem keyLen_eq_length_getD (o : Option (List UInt8)) :
    (o.map List.length).getD 0 = (o.getD []).length := by
  cases o <;> rfl

/-! ## One message -/

/-- `rd_kafka_msgset_writer_write_msg_v2` writes the record body of the message after its
`Length` varint, and counts the size of the body. -/
theorem msgsetWriterWriteMsgV2_eq {maxMsgSize : ℕ} {m : ProduceMsg} (hm : m.Writable maxMsgSize)
    (hmax : maxMsgSize < 2 ^ 32) (w : MsgsetWriter) (offset : BitVec 64) :
    msgsetWriterWriteMsgV2 w m offset = (i64Sub m.timestamp w.firstmsgTimestamp).map fun d =>
      let body := recordV2Body d offset m.key m.payload m.binhdrs
      let vLength := uvarintEncI64 (uvarintEncSizeof 4) (BitVec.ofNat 64 body.length)
      (varintBytes vLength ++ body, body.length + vLength.1) := by
  obtain ⟨hlen, hkey, -⟩ := hm.bounds
  have hk := uvarintEncI32_lenField (o := m.key) (by simp only [ProduceMsg.keyLen, int32Max] at hkey; omega)
  have hv := uvarintEncI32_lenField (o := m.payload) (by simp only [ProduceMsg.len, int32Max] at hlen; omega)
  have hc := uvarintEncI32_ofNat (hm.headerCount_lt hmax)
  have h10 : ∀ v, uvarintEncI64 (uvarintEncSizeof 8) v = ((bufWriteVarint v).length, bufWriteVarint v) :=
    fun v => uvarintEncI64_of_fit (length_bufWriteVarint_le v)
  have hhdr := hm.length_headerBytes
  rw [msgsetWriterWriteMsgV2]
  cases i64Sub m.timestamp w.firstmsgTimestamp with
  | none => rfl
  | some d =>
    simp only [ProduceMsg.keyLen, ProduceMsg.len] at hk hv ⊢
    rw [hk, hv, hc, h10, h10]
    have hsize : 1 + (bufWriteVarint d).length + (bufWriteVarint offset).length +
        (bufWriteVarint (nullableLen m.key)).length + (m.key.map List.length).getD 0 +
        (bufWriteVarint (nullableLen m.payload)).length + (m.payload.map List.length).getD 0 +
        (bufWriteVarint (BitVec.ofNat 64 m.headerCount)).length + m.headerSize =
        (recordV2Body d offset m.key m.payload m.binhdrs).length := by
      simp only [recordV2Body, ProduceMsg.binhdrs_eq, List.length_append, List.length_singleton,
        keyLen_eq_length_getD, hhdr]
      omega
    simp only [Option.map_some, varintBytes, List.take_length, hsize]
    simp [recordV2Body, ProduceMsg.binhdrs_eq, ProduceMsg.headerBytes, intBytes,
      BigEndian.toBytes_succ, List.append_assoc]

theorem i64Sub_eq_some {a b d : BitVec 64} (h : i64Sub a b = some d) :
    ¬a.ssubOverflow b ∧ d = a - b := by
  unfold i64Sub at h
  split at h
  · cases h
  · exact ⟨by assumption, (Option.some.inj h).symm⟩

/-- **Step.**  `rd_kafka_msgset_writer_write_msg` appends the message's record; its
assertions give that the `Length` varint fits its buffer. -/
theorem msgsetWriterWriteMsg_eq {maxMsgSize : ℕ} {m : ProduceMsg} (hm : m.Writable maxMsgSize)
    (hmax : maxMsgSize < 2 ^ 32) {w w' : MsgsetWriter} {offset : BitVec 64} {outlen : ℕ}
    (h : msgsetWriterWriteMsg w m offset = some (w', outlen)) :
    ¬m.timestamp.ssubOverflow w.firstmsgTimestamp ∧
      w' = { w with
        buf := w.buf ++
          recordV2 (m.timestamp - w.firstmsgTimestamp) offset m.key m.payload m.binhdrs } := by
  rw [msgsetWriterWriteMsg, msgsetWriterWriteMsgV2_eq hm hmax] at h
  cases hd : i64Sub m.timestamp w.firstmsgTimestamp with
  | none => simp [hd] at h
  | some d =>
    obtain ⟨hno, rfl⟩ := i64Sub_eq_some hd
    simp only [hd, Option.map_some] at h
    split_ifs at h with hassert
    obtain ⟨rfl, rfl⟩ := Prod.mk.inj (Option.some.inj h)
    -- the record fits `rd_kafka_msg_wire_size`, so its size is below `2^34`
    have hbody := hassert.1
    have hwire := hm.bounds.2.2
    have hfit := length_bufWriteVarint_ofNat_le (n :=
      (recordV2Body (m.timestamp - w.firstmsgTimestamp) offset m.key m.payload m.binhdrs).length)
      (by omega)
    rw [varintBytes_uvarintEncI64_of_fit hfit]
    exact ⟨hno, rfl⟩

/-! ## The assertions of `rd_kafka_msgset_writer_write_msg` -/

/-- `rd_kafka_msgset_writer_write_msg_v2` returns the number of bytes it writes, and no more
than `rd_kafka_msg_wire_size(rkm, 2)`, whatever the lengths of the key and the value: each
varint takes at most the buffer it is encoded into, the offset delta at most the five bytes
the overhead counts for it, and the headers as many bytes as they record. -/
theorem msgsetWriterWriteMsgV2_fits (w : MsgsetWriter) (m : ProduceMsg) {offset : BitVec 64}
    (hhdrs : ∀ hdrs, m.headers = some hdrs → hdrs.Consistent) (hoff : offset.toNat < 2 ^ 34)
    (hts : ¬m.timestamp.ssubOverflow w.firstmsgTimestamp) :
    ∃ bytes outlen, msgsetWriterWriteMsgV2 w m offset = some (bytes, outlen) ∧
      outlen = bytes.length ∧ outlen ≤ msgWireSize m := by
  have hsub : i64Sub m.timestamp w.firstmsgTimestamp =
      some (m.timestamp - w.firstmsgTimestamp) := if_neg hts
  have hoffw : (uvarintEncI64 (uvarintEncSizeof 8) offset).1 ≤ uvarintEncSizeof 4 := by
    rw [uvarintEncI64_of_fit (length_bufWriteVarint_le offset)]
    simpa using length_bufWriteVarint_ofNat_le hoff
  have hhdr := ProduceMsg.length_headerBytes hhdrs
  rw [msgsetWriterWriteMsgV2, hsub]
  refine ⟨_, _, rfl, ?_, ?_⟩
  · simp only [uvarintEncI32, uvarintEncI64, List.length_append, length_varintBytes_uvarintEncU64]
    simp only [ProduceMsg.headerBytes] at hhdr
    simp only [intBytes, BigEndian.length_toBytes, hhdr, keyLen_eq_length_getD, ProduceMsg.keyLen,
      ProduceMsg.len]
    omega
  · -- every other varint is bounded by its buffer
    simp only [uvarintEncI32, uvarintEncI64] at hoffw ⊢
    simp only [msgWireSize, messageV2MaxOverhead, ProduceMsg.keyLen, ProduceMsg.len]
    grind [uvarintEncU64_fst_le]

/-- `rd_kafka_msgset_writer_write_msg` passes both its assertions for a message whose
headers object was built by header calls, at an offset delta below `2^34`, when the
timestamp delta does not overflow `int64_t`: the message's bytes are appended. -/
theorem msgsetWriterWriteMsg_asserts (w : MsgsetWriter) (m : ProduceMsg) {offset : BitVec 64}
    (hhdrs : ∀ hdrs, m.headers = some hdrs → hdrs.Consistent) (hoff : offset.toNat < 2 ^ 34)
    (hts : ¬m.timestamp.ssubOverflow w.firstmsgTimestamp) :
    ∃ bytes outlen, msgsetWriterWriteMsgV2 w m offset = some (bytes, outlen) ∧
      outlen = bytes.length ∧ outlen ≤ msgWireSize m ∧
      msgsetWriterWriteMsg w m offset = some ({ w with buf := w.buf ++ bytes }, outlen) := by
  obtain ⟨bytes, outlen, hwrite, hlen, hwire⟩ := msgsetWriterWriteMsgV2_fits w m hhdrs hoff hts
  refine ⟨bytes, outlen, hwrite, hlen, hwire, ?_⟩
  rw [msgsetWriterWriteMsg, hwrite]
  dsimp only
  rw [if_pos ⟨hwire, hlen⟩]

theorem msgsetWriterWriteMsg_asserts_one_header :
    ∃ bytes outlen,
      msgsetWriterWriteMsgV2 ⟨[], 0, ⟨0, 0⟩, 0, 0, 0, 1000, 0, 0, [], 0, 0, 0, 0⟩
        ⟨1, 0, some [107], some [118], some (headerOpsRun [.add [104] (some [49])]), 1005, 0⟩ 3 =
        some (bytes, outlen) ∧ outlen = bytes.length ∧
      outlen ≤ msgWireSize
        ⟨1, 0, some [107], some [118], some (headerOpsRun [.add [104] (some [49])]), 1005, 0⟩ ∧
      msgsetWriterWriteMsg ⟨[], 0, ⟨0, 0⟩, 0, 0, 0, 1000, 0, 0, [], 0, 0, 0, 0⟩
        ⟨1, 0, some [107], some [118], some (headerOpsRun [.add [104] (some [49])]), 1005, 0⟩ 3 =
        some ({ (⟨[], 0, ⟨0, 0⟩, 0, 0, 0, 1000, 0, 0, [], 0, 0, 0, 0⟩ : MsgsetWriter) with
          buf := [] ++ bytes }, outlen) :=
  msgsetWriterWriteMsg_asserts _ _
    (fun hdrs h => Option.some.inj h ▸ headerOps_consistent _ (by simp [HeaderOp.Ok]))
    (by decide) (by decide)

/-- A message stamped `INT64_MAX` in a batch whose first message is stamped `-1`: the
timestamp delta overflows `int64_t`, which is undefined, whatever the lengths. -/
theorem msgsetWriterWriteMsgV2_timestamp_overflow :
    msgsetWriterWriteMsgV2 ⟨[], 0, ⟨0, 0⟩, 0, 0, 0, -1, 0, 0, [], 0, 0, 0, 0⟩
      ⟨1, 0, none, some [118], none, 0x7fffffffffffffff, 0⟩ 0 = none := by
  decide +kernel

/-! ## The queue -/

/-- `rd_kafka_msgbatch_set_first_msg` only sets the batch's first message id, first sequence
and last message id. -/
theorem msgbatchSetFirstMsg_frame {w w' : MsgsetWriter} {m : ProduceMsg}
    (h : msgbatchSetFirstMsg w m = some w') :
    ∃ a b c, w' = { w with firstMsgid := a, firstSeq := b, lastMsgid := c } := by
  unfold msgbatchSetFirstMsg at h
  split_ifs at h
  · exact ⟨w.firstMsgid, w.firstSeq, w.lastMsgid, (Option.some.inj h).symm⟩
  · exact ⟨_, _, _, (Option.some.inj h).symm⟩

/-- The loop stopped before the first message of the queue. -/
theorem writeMsgqLoop_spec_stop {w w' : MsgsetWriter} {q q' : List ProduceMsg}
    {msgcnt msgcnt' : ℕ} (h : some (w, q, msgcnt) = some (w', q', msgcnt')) :
    ∃ taken maxTs, q = taken ++ q' ∧ msgcnt' = msgcnt + taken.length ∧
      (∀ m ∈ taken, ¬m.timestamp.ssubOverflow w.firstmsgTimestamp) ∧
      w' = { w with
        buf := w.buf ++ batchRecords w.firstmsgTimestamp msgcnt taken
        batch := w.batch ++ taken
        maxTimestamp := maxTs } := by
  simp only [Option.some.injEq, Prod.mk.injEq] at h
  obtain ⟨rfl, rfl, rfl⟩ := h
  exact ⟨[], w.maxTimestamp, rfl, rfl, by simp, by simp⟩

/-- **Run.**  The loop of `rd_kafka_msgset_writer_write_msgq` moves a prefix of the queue
into the batch and appends the records of those messages, numbered on from `msgcnt`. -/
theorem writeMsgqLoop_spec (conf : WriterConf) (maxMsgSize : ℕ) {maxSize : ℕ}
    (hmax : maxSize < 2 ^ 32) :
    ∀ (fuel : ℕ) (w : MsgsetWriter) (q : List ProduceMsg) (msgcnt len : ℕ) {w' : MsgsetWriter}
      {q' : List ProduceMsg} {msgcnt' : ℕ}, (∀ m ∈ q, m.Writable maxSize) →
      writeMsgqLoop conf maxMsgSize fuel w q msgcnt len = some (w', q', msgcnt') →
      ∃ taken maxTs, q = taken ++ q' ∧ msgcnt' = msgcnt + taken.length ∧
        (∀ m ∈ taken, ¬m.timestamp.ssubOverflow w.firstmsgTimestamp) ∧
        w' = { w with
          buf := w.buf ++ batchRecords w.firstmsgTimestamp msgcnt taken
          batch := w.batch ++ taken
          maxTimestamp := maxTs }
  | 0, w, q, msgcnt, len, w', q', msgcnt', _, h => by
    rw [writeMsgqLoop] at h
    exact writeMsgqLoop_spec_stop h
  | fuel + 1, w, [], msgcnt, len, w', q', msgcnt', _, h => by
    simp only [writeMsgqLoop] at h
    exact writeMsgqLoop_spec_stop h
  | fuel + 1, w, m :: q, msgcnt, len, w', q', msgcnt', hq, h => by
    rw [writeMsgqLoop] at h
    -- the three ways the loop stops at `m`: the retried batch ends, the batch is full, or
    -- `m` waits for its backoff
    split at h
    · exact writeMsgqLoop_spec_stop h
    split at h
    · exact writeMsgqLoop_spec_stop h
    split at h
    · exact writeMsgqLoop_spec_stop h
    -- `m` is written, and the loop goes on with the rest of the queue
    · dsimp only at h
      split at h
      · cases h
      · next w2 outlen hwr =>
        obtain ⟨hno, rfl⟩ := msgsetWriterWriteMsg_eq (hq m (List.mem_cons_self ..)) hmax hwr
        obtain ⟨taken, maxTs, rfl, rfl, hts, rfl⟩ := writeMsgqLoop_spec conf maxMsgSize hmax fuel _
          q (msgcnt + 1) _ (fun m' hm' => hq m' (List.mem_cons_of_mem m hm')) h
        refine ⟨m :: taken, maxTs, rfl, by rw [List.length_cons]; omega, ?_, ?_⟩
        · intro m' hm'
          rcases List.mem_cons.1 hm' with rfl | hm'
          · exact hno
          · exact hts m' hm'
        · simp only [batchRecords_cons, recordOf, List.append_assoc, List.singleton_append]

/-- `rd_kafka_msgset_writer_write_msgq` takes a prefix of the queue, whose first message
gives the batch's first timestamp, and appends the records of those messages. -/
theorem msgsetWriterWriteMsgq_spec (conf : WriterConf) {maxSize : ℕ} (hmax : maxSize < 2 ^ 32)
    (w : MsgsetWriter) {rkmq : List ProduceMsg} (hq : ∀ m ∈ rkmq, m.Writable maxSize)
    {w' : MsgsetWriter} {q : List ProduceMsg} {ok : Bool}
    (h : msgsetWriterWriteMsgq conf w rkmq = some (w', q, ok)) :
    ∃ taken t0 maxTs a b c, rkmq = taken ++ q ∧
      (∀ m ∈ taken, ¬m.timestamp.ssubOverflow t0) ∧
      w' = { w with
        buf := w.buf ++ batchRecords t0 0 taken
        batch := w.batch ++ taken
        firstmsgTimestamp := t0
        maxTimestamp := maxTs
        firstMsgid := a
        firstSeq := b
        lastMsgid := c } := by
  cases rkmq with
  | nil => cases h
  | cons m rest =>
    rw [msgsetWriterWriteMsgq] at h
    dsimp only at h
    split at h
    · cases h
    · next w1 hfirst =>
      obtain ⟨a, b, c, rfl⟩ := msgbatchSetFirstMsg_frame hfirst
      split at h
      · cases h
      · next w2 q2 msgcnt hloop =>
        -- the idempotence check only decides the flag
        have hres : w' = w2 ∧ q = q2 := by
          split at h
          · split at h
            · cases h
            · simp only [Option.some.injEq, Prod.mk.injEq] at h
              exact ⟨h.1.symm, h.2.1.symm⟩
          · simp only [Option.some.injEq, Prod.mk.injEq] at h
            exact ⟨h.1.symm, h.2.1.symm⟩
        obtain ⟨rfl, rfl⟩ := hres
        obtain ⟨taken, maxTs, hsplit, -, hts, rfl⟩ :=
          writeMsgqLoop_spec conf _ hmax _ _ _ 0 _ hq hloop
        exact ⟨taken, m.timestamp, maxTs, a, b, c, hsplit, hts, rfl⟩

/-! ## The header -/

/-- The header `rd_kafka_msgset_writer_write_MessageSet_v2_header` writes: magic byte `2`,
the producer id and epoch, `BaseSequence` `-1`, and zeros to be filled in. -/
def msgsetV2InitHdr (pid : Pid) : MsgsetV2Hdr := ⟨0, 0, 0, 2, 0, 0, 0, 0, 0, pid.id, pid.epoch, -1, 0⟩

theorem msgsetWriterWriteMessageSetV2Header_eq (w : MsgsetWriter) :
    msgsetWriterWriteMessageSetV2Header w = { w with
      buf := w.buf ++ (msgsetV2InitHdr w.pid).bytes
      ofStart := w.buf.length
      ofCRC := w.buf.length + 17
      firstmsgOf := w.buf.length + msgsetV2Size } := by
  simp [msgsetWriterWriteMessageSetV2Header, MsgsetV2Hdr.bytes, MsgsetV2Hdr.fields,
    msgsetV2InitHdr, msgsetV2Size, List.append_assoc]

/-- `rd_kafka_buf_update` of a whole header field, at its offset `of`. -/
theorem bufUpdate_hdrField (pre recs : List UInt8) (h : MsgsetV2Hdr) {j : ℕ}
    (hj : j < h.fields.length) (bs : List UInt8) (hbs : bs.length = h.fields[j].length) {of : ℕ}
    (hof : ((h.fields.take j).map List.length).sum = of) :
    bufUpdate (pre ++ h.bytes ++ recs) (pre.length + of) bs =
      some (pre ++ (h.fields.set j bs).flatten ++ recs) := by
  subst hof
  have hle := List.sum_take_add_length_le h.fields hj
  have hfit : pre.length + ((h.fields.take j).map List.length).sum + bs.length ≤
      (pre ++ h.bytes ++ recs).length := by
    simp only [List.length_append, MsgsetV2Hdr.bytes]
    omega
  rw [bufUpdate, if_pos hfit, List.append_assoc, List.overwrite_append_left,
    List.overwrite_append_right _ _ _ (by rw [MsgsetV2Hdr.bytes]; omega), MsgsetV2Hdr.bytes,
    List.overwrite_flatten _ hj _ hbs, List.append_assoc]

/-! The fields `rd_kafka_msgset_writer_finalize_MessageSet_v2_header` fills in, each at its
`RD_KAFKAP_MSGSET_V2_OF_*` offset. -/

theorem bufUpdate_length (pre recs : List UInt8) (h : MsgsetV2Hdr) (x : BitVec 32) :
    bufUpdate (pre ++ h.bytes ++ recs) (pre.length + msgsetV2OfLength) (intBytes 4 x) =
      some (pre ++ { h with length := x }.bytes ++ recs) :=
  bufUpdate_hdrField pre recs h (j := 1) (by simp) _ (by simp [MsgsetV2Hdr.fields])
    (by simp [MsgsetV2Hdr.fields, msgsetV2OfLength])

theorem bufUpdate_crc (pre recs : List UInt8) (h : MsgsetV2Hdr) (x : BitVec 32) :
    bufUpdate (pre ++ h.bytes ++ recs) (pre.length + 17) (intBytes 4 x) =
      some (pre ++ { h with crc := x }.bytes ++ recs) :=
  bufUpdate_hdrField pre recs h (j := 4) (by simp) _ (by simp [MsgsetV2Hdr.fields])
    (by simp [MsgsetV2Hdr.fields])

theorem bufUpdate_attributes (pre recs : List UInt8) (h : MsgsetV2Hdr) (x : BitVec 16) :
    bufUpdate (pre ++ h.bytes ++ recs) (pre.length + msgsetV2OfAttributes) (intBytes 2 x) =
      some (pre ++ { h with attributes := x }.bytes ++ recs) :=
  bufUpdate_hdrField pre recs h (j := 5) (by simp) _ (by simp [MsgsetV2Hdr.fields])
    (by simp [MsgsetV2Hdr.fields, msgsetV2OfAttributes])

theorem bufUpdate_lastOffsetDelta (pre recs : List UInt8) (h : MsgsetV2Hdr) (x : BitVec 32) :
    bufUpdate (pre ++ h.bytes ++ recs) (pre.length + msgsetV2OfLastOffsetDelta) (intBytes 4 x) =
      some (pre ++ { h with lastOffsetDelta := x }.bytes ++ recs) :=
  bufUpdate_hdrField pre recs h (j := 6) (by simp) _ (by simp [MsgsetV2Hdr.fields])
    (by simp [MsgsetV2Hdr.fields, msgsetV2OfLastOffsetDelta])

theorem bufUpdate_baseTimestamp (pre recs : List UInt8) (h : MsgsetV2Hdr) (x : BitVec 64) :
    bufUpdate (pre ++ h.bytes ++ recs) (pre.length + msgsetV2OfBaseTimestamp) (intBytes 8 x) =
      some (pre ++ { h with baseTimestamp := x }.bytes ++ recs) :=
  bufUpdate_hdrField pre recs h (j := 7) (by simp) _ (by simp [MsgsetV2Hdr.fields])
    (by simp [MsgsetV2Hdr.fields, msgsetV2OfBaseTimestamp])

theorem bufUpdate_maxTimestamp (pre recs : List UInt8) (h : MsgsetV2Hdr) (x : BitVec 64) :
    bufUpdate (pre ++ h.bytes ++ recs) (pre.length + msgsetV2OfMaxTimestamp) (intBytes 8 x) =
      some (pre ++ { h with maxTimestamp := x }.bytes ++ recs) :=
  bufUpdate_hdrField pre recs h (j := 8) (by simp) _ (by simp [MsgsetV2Hdr.fields])
    (by simp [MsgsetV2Hdr.fields, msgsetV2OfMaxTimestamp])

theorem bufUpdate_baseSequence (pre recs : List UInt8) (h : MsgsetV2Hdr) (x : BitVec 32) :
    bufUpdate (pre ++ h.bytes ++ recs) (pre.length + msgsetV2OfBaseSequence) (intBytes 4 x) =
      some (pre ++ { h with baseSequence := x }.bytes ++ recs) :=
  bufUpdate_hdrField pre recs h (j := 11) (by simp) _ (by simp [MsgsetV2Hdr.fields])
    (by simp [MsgsetV2Hdr.fields, msgsetV2OfBaseSequence])

theorem bufUpdate_recordCount (pre recs : List UInt8) (h : MsgsetV2Hdr) (x : BitVec 32) :
    bufUpdate (pre ++ h.bytes ++ recs) (pre.length + msgsetV2OfRecordCount) (intBytes 4 x) =
      some (pre ++ { h with recordCount := x }.bytes ++ recs) :=
  bufUpdate_hdrField pre recs h (j := 12) (by simp) _ (by simp [MsgsetV2Hdr.fields])
    (by simp [MsgsetV2Hdr.fields, msgsetV2OfRecordCount])

/-- What the CRC32C covers starts right after the CRC field. -/
theorem drop_crcBytes (pre recs : List UInt8) (h : MsgsetV2Hdr) :
    (pre ++ h.bytes ++ recs).drop (pre.length + 17 + 4) = h.crcBytes ++ recs := by
  have hsplit : pre ++ h.bytes ++ recs = (pre ++ (intBytes 8 h.baseOffset ++ intBytes 4 h.length ++
      intBytes 4 h.partitionLeaderEpoch ++ intBytes 1 h.magicByte ++ intBytes 4 h.crc)) ++
      (h.crcBytes ++ recs) := by
    rw [MsgsetV2Hdr.bytes_eq]
    simp only [List.append_assoc]
  rw [hsplit, List.drop_left' (by simp)]

/-- `rd_kafka_msgset_writer_calc_crc_v2` writes the CRC32C of the header fields after the CRC
and the records. -/
theorem msgsetWriterCalcCrcV2_eq {w : MsgsetWriter} {pre recs : List UInt8} {h : MsgsetV2Hdr}
    (hbuf : w.buf = pre ++ h.bytes ++ recs) (hcrc : w.ofCRC = pre.length + 17) :
    msgsetWriterCalcCrcV2 w =
      some { w with buf := pre ++ { h with crc := crc32c 0 (h.crcBytes ++ recs) }.bytes ++ recs } := by
  rw [msgsetWriterCalcCrcV2, hcrc, hbuf, drop_crcBytes, bufUpdate_crc]
  rfl

/-- `rd_kafka_msgset_writer_finalize_MessageSet_v2_header` fills in the seven fields and then
the CRC. -/
theorem msgsetWriterFinalizeMessageSetV2Header_eq (conf : WriterConf) {w : MsgsetWriter}
    {pre recs : List UInt8} {h : MsgsetV2Hdr} (hbuf : w.buf = pre ++ h.bytes ++ recs)
    (hstart : w.ofStart = pre.length) (hcrc : w.ofCRC = pre.length + 17) (hn : w.batch ≠ [])
    (messagesLen : ℕ) :
    msgsetWriterFinalizeMessageSetV2Header conf w messagesLen =
      let attributes := if conf.transactional then
          w.attributes ||| msgAttrCreateTime ||| msgsetV2AttrTransactional
        else w.attributes ||| msgAttrCreateTime
      let h' : MsgsetV2Hdr := { h with
        length := BitVec.ofNat 32 (msgsetV2Size + messagesLen) - 12
        attributes := attributes
        lastOffsetDelta := BitVec.ofNat 32 (w.batch.length - 1)
        baseTimestamp := w.firstmsgTimestamp
        maxTimestamp := w.maxTimestamp
        baseSequence := w.firstSeq
        recordCount := BitVec.ofNat 32 w.batch.length }
      some { w with
        buf := pre ++ { h' with crc := crc32c 0 (h'.crcBytes ++ recs) }.bytes ++ recs
        attributes := attributes } := by
  have hlen : w.batch.length ≠ 0 := fun h0 => hn (List.length_eq_zero_iff.1 h0)
  simp only [msgsetWriterFinalizeMessageSetV2Header, hlen, hbuf, hstart, bufUpdate_length,
    bufUpdate_attributes, bufUpdate_lastOffsetDelta, bufUpdate_baseTimestamp,
    bufUpdate_maxTimestamp, bufUpdate_baseSequence, bufUpdate_recordCount, if_false,
    Option.bind_eq_bind, Option.bind_some]
  refine Eq.trans (msgsetWriterCalcCrcV2_eq (by rfl) (by exact hcrc)) ?_
  rfl

/-- `rd_kafka_msgset_writer_finalize` passes its assertions on the size of the records and
finalizes the header with it. -/
theorem msgsetWriterFinalize_eq (conf : WriterConf) {w w' : MsgsetWriter} {pre recs : List UInt8}
    {h : MsgsetV2Hdr} (hbuf : w.buf = pre ++ h.bytes ++ recs)
    (hfirst : w.firstmsgOf = pre.length + msgsetV2Size)
    (hfin : msgsetWriterFinalize conf w = some w') :
    w.batch ≠ [] ∧ recs.length ≤ conf.maxMsgSize ∧
      msgsetWriterFinalizeMessageSetV2Header conf w recs.length = some w' := by
  have hlen : w.buf.length - w.firstmsgOf = recs.length := by
    rw [hbuf, hfirst, List.length_append, List.length_append, MsgsetV2Hdr.length_bytes]
    omega
  rw [msgsetWriterFinalize, hlen] at hfin
  dsimp only at hfin
  split_ifs at hfin with hn hsize
  exact ⟨fun h0 => hn (by rw [h0, List.length_nil]), hsize.2, hfin⟩

/-! ## The request -/

theorem MsgsetWriter.recordBatch_eq {w : MsgsetWriter} {pre bs rest : List UInt8}
    (hbuf : w.buf = pre ++ bs ++ rest) (hstart : w.ofStart = pre.length) :
    w.recordBatch = bs ++ rest := by
  rw [MsgsetWriter.recordBatch, hbuf, hstart, List.append_assoc, List.drop_left]

/-- **Writer.**  A produce request built from messages `rd_kafka_msg_new0` accepted holds,
after its fields `pre`, a RecordBatch of the messages it took off the front of the queue: a
finalized header and their records. -/
theorem msgsetCreateProduceRequest_spec {conf : WriterConf} {pre : List UInt8} {pid : Pid}
    {epochBaseMsgid : ℕ} {rkmq : List ProduceMsg} {w : MsgsetWriter} {q : List ProduceMsg}
    (hmax : conf.maxMsgSize < 2 ^ 32) (hq : ∀ m ∈ rkmq, m.Writable conf.maxMsgSize)
    (h : msgsetCreateProduceRequest conf pre pid epochBaseMsgid rkmq = some (w, q)) :
    rkmq = w.batch ++ q ∧ w.batch ≠ [] ∧
      (batchRecords w.firstmsgTimestamp 0 w.batch).length ≤ conf.maxMsgSize ∧
      (∀ m ∈ w.batch, ¬m.timestamp.ssubOverflow w.firstmsgTimestamp) ∧
      ∃ hdr : MsgsetV2Hdr,
        w.recordBatch = hdr.bytes ++ batchRecords w.firstmsgTimestamp 0 w.batch ∧
        hdr.Finalized w.batch.length w.firstmsgTimestamp (batchRecords w.firstmsgTimestamp 0 w.batch) := by
  unfold msgsetCreateProduceRequest at h
  split_ifs at h with hempty
  dsimp only at h
  split at h
  · cases h
  · cases h
  · next w1 q1 hwq =>
    rw [msgsetWriterWriteMessageSetV2Header_eq] at hwq
    obtain ⟨taken, t0, maxTs, a, b, c, hsplit, hts, rfl⟩ := msgsetWriterWriteMsgq_spec conf hmax _ hq hwq
    obtain ⟨w2, hfin, hw⟩ := Option.map_eq_some_iff.1 h
    obtain ⟨rfl, rfl⟩ := Prod.mk.inj hw
    obtain ⟨hn, hsize, hhdr⟩ := msgsetWriterFinalize_eq conf rfl rfl hfin
    rw [msgsetWriterFinalizeMessageSetV2Header_eq conf rfl rfl rfl hn] at hhdr
    obtain rfl := Option.some.inj hhdr
    simp only [List.nil_append] at hn hsize ⊢
    refine ⟨hsplit, hn, hsize, hts, _, MsgsetWriter.recordBatch_eq rfl rfl, rfl, ?_, rfl, rfl, rfl⟩
    -- `Attributes`: CreateTime, and the transactional bit of a transactional producer
    cases conf.transactional
    · exact Or.inl (by dsimp only; decide)
    · exact Or.inr (by dsimp only; decide)

end Rdkafka
