import Rdkafka.Msg.Header
import Rdkafka.Msg.MsgsetReader

/-!
# The MessageSet v2 writer

This file models how `src/rdkafka_msgset_writer.c` builds a `MsgVersion` 2 RecordBatch for
a ProduceRequest without compression: `rd_kafka_msgset_writer_write_MessageSet_v2_header`
writes the batch header with placeholder fields, `rd_kafka_msgset_writer_write_msgq` moves
messages from the partition queue into the batch and writes each with
`rd_kafka_msgset_writer_write_msg_v2`, and `rd_kafka_msgset_writer_finalize` fills in
`Length`, `Attributes`, `LastOffsetDelta`, `BaseTimestamp`, `MaxTimestamp`,
`BaseSequence` and `RecordCount` at their offsets and then the CRC32C of everything after
the CRC field.

The request buffer is modelled by its contents, the bytes written to it in order.  Writing
appends (`rd_kafka_buf_write`, and `rd_kafka_buf_push`, which hands a payload over as a
segment of its own), and `rd_kafka_buf_update` overwrites bytes already written.  Whether a
payload is copied or pushed (`rd_kafka_msgset_writer_write_msg_payload`) only decides
the segments the contents are kept in, so both branches append the payload here.  The
ProduceRequest fields before the batch are any bytes `pre`, and what
`rd_kafka_msgset_writer_finalize` writes after it (the `MessageSetSize`, the tags) lies
outside the batch and is left out.

Signed 64-bit arithmetic that overflows is undefined behaviour, and so is a failed
`rd_assert`; both give `none`.
-/

set_option autoImplicit false

namespace Rdkafka

/-! ## Varints -/

/-- `rd_uvarint_enc_i32(dst, dstsize, num)`: `rd_uvarint_enc_i64` of the sign-extended value. -/
def uvarintEncI32 (dstsize : ℕ) (num : BitVec 32) : ℕ × List UInt8 :=
  uvarintEncI64 dstsize (num.signExtend 64)

/-- The bytes `rd_kafka_buf_write(rkbuf, varint, sz)` writes for a varint encoded into a
buffer: the first `sz` bytes, `sz` being what the encoder returned. -/
def varintBytes (r : ℕ × List UInt8) : List UInt8 := r.2.take r.1

/-! ## Producer messages -/

/-- A producer id `rd_kafka_pid_t`. -/
structure Pid where
  /-- `id`, `-1` when not valid. -/
  id : BitVec 64
  /-- `epoch`. -/
  epoch : BitVec 16
  deriving DecidableEq, Repr

/-- `rd_kafka_pid_valid(pid)`. -/
def Pid.valid (pid : Pid) : Bool := pid.id != -1

/-- The fields of a producer message `rd_kafka_msg_t` that the MessageSet writer reads. -/
structure ProduceMsg where
  /-- `rkm_u.producer.msgid`. -/
  msgid : ℕ
  /-- `rkm_u.producer.last_msgid`: for the first message of a batch being retried, the last
  message id of the original batch, else `0`. -/
  lastMsgid : ℕ
  /-- `rkm_key[0 .. rkm_key_len)`, `none` for a `NULL` key. -/
  key : Option (List UInt8)
  /-- `rkm_payload[0 .. rkm_len)`, `none` for a `NULL` payload. -/
  payload : Option (List UInt8)
  /-- `rkm_headers`, `none` for `NULL`. -/
  headers : Option Headers
  /-- `rkm_timestamp`. -/
  timestamp : BitVec 64
  /-- `rkm_u.producer.ts_backoff`. -/
  tsBackoff : BitVec 64
  deriving DecidableEq, Repr

/-- `rkm_key_len`, which `rd_kafka_msg_new0` sets to `0` for a `NULL` key. -/
def ProduceMsg.keyLen (m : ProduceMsg) : ℕ := (m.key.map List.length).getD 0

/-- `rkm_len`, which `rd_kafka_msg_new0` sets to `0` for a `NULL` payload. -/
def ProduceMsg.len (m : ProduceMsg) : ℕ := (m.payload.map List.length).getD 0

/-- `HeaderCount`, the number of headers (`0` without a headers object). -/
def ProduceMsg.headerCount (m : ProduceMsg) : ℕ := (m.headers.map fun h => h.list.length).getD 0

/-- `HeaderSize`, `rkhdrs_ser_size` of the headers object (`0` without one). -/
def ProduceMsg.headerSize (m : ProduceMsg) : ℕ := (m.headers.map Headers.serSize).getD 0

/-- `RD_KAFKAP_MESSAGE_V2_MAX_OVERHEAD`: the widest varints a record's fields can take. -/
def messageV2MaxOverhead : ℕ :=
  uvarintEncSizeof 4 + 1 + uvarintEncSizeof 8 + uvarintEncSizeof 4 + uvarintEncSizeof 4 +
    uvarintEncSizeof 4 + uvarintEncSizeof 4

/-- `rd_kafka_msg_max_wire_size(keylen, valuelen, hdrslen)`. -/
def msgMaxWireSize (keylen valuelen hdrslen : ℕ) : ℕ :=
  messageV2MaxOverhead + keylen + valuelen + hdrslen

/-- `rd_kafka_msg_wire_size(rkm, 2)`. -/
def msgWireSize (m : ProduceMsg) : ℕ := messageV2MaxOverhead + m.len + m.keyLen + m.headerSize

/-- The size check of `rd_kafka_msg_new0`, which refuses a message with
`RD_KAFKA_RESP_ERR_MSG_SIZE_TOO_LARGE` unless it passes. -/
def msgNew0SizeOk (maxMsgSize : ℕ) (m : ProduceMsg) : Bool :=
  !(decide (m.len > int32Max) || decide (m.keyLen > int32Max) ||
    decide (msgMaxWireSize m.keyLen m.len m.headerSize > maxMsgSize))

/-! ## The writer -/

/-- The configuration the writer reads. -/
structure WriterConf where
  /-- `rk_conf.max_msg_size` (`message.max.bytes`). -/
  maxMsgSize : ℕ
  /-- `rk_conf.batch_size`. -/
  batchSize : ℕ
  /-- `rk_conf.batch_num_messages`. -/
  batchNumMessages : ℕ
  /-- `rd_kafka_is_transactional(rk)`. -/
  transactional : Bool
  /-- `rd_clock()` when the batch is written. -/
  now : BitVec 64
  deriving DecidableEq, Repr

/-- The fields of the MessageSet writer `rd_kafka_msgset_writer_t`, and of its batch
`msetw_batch`, that the modelled functions use. -/
structure MsgsetWriter where
  /-- The contents of `msetw_rkbuf->rkbuf_buf`. -/
  buf : List UInt8
  /-- `msetw_msgcntmax`. -/
  msgcntmax : ℕ
  /-- `msetw_pid`, also the batch's `pid`. -/
  pid : Pid
  /-- `msetw_of_start`. -/
  ofStart : ℕ
  /-- `msetw_of_CRC`. -/
  ofCRC : ℕ
  /-- `msetw_firstmsg.of`. -/
  firstmsgOf : ℕ
  /-- `msetw_firstmsg.timestamp`. -/
  firstmsgTimestamp : BitVec 64
  /-- `msetw_MaxTimestamp`. -/
  maxTimestamp : BitVec 64
  /-- `msetw_Attributes`. -/
  attributes : BitVec 16
  /-- `msetw_batch->msgq`. -/
  batch : List ProduceMsg
  /-- `msetw_batch->epoch_base_msgid`. -/
  epochBaseMsgid : ℕ
  /-- `msetw_batch->first_msgid`. -/
  firstMsgid : ℕ
  /-- `msetw_batch->last_msgid`. -/
  lastMsgid : ℕ
  /-- `msetw_batch->first_seq`. -/
  firstSeq : BitVec 32
  deriving DecidableEq, Repr

/-- `rd_kafka_buf_update(rkbuf, of, data, len)` on the contents; `none` when the bytes are
not all written yet, where `rd_buf_write_update` runs off the segments. -/
def bufUpdate (buf : List UInt8) (of : ℕ) (data : List UInt8) : Option (List UInt8) :=
  if of + data.length ≤ buf.length then some (buf.overwrite of data) else none

/-- The bytes `rd_kafka_buf_write_i64` and its kin write: `htobe64(v)` and so on. -/
def intBytes {w : ℕ} (k : ℕ) (v : BitVec w) : List UInt8 := BigEndian.toBytes k v.toNat

/-- `rd_kafka_msgset_writer_write_MessageSet_v2_header(msetw)`, and the rest of
`rd_kafka_msgset_writer_init` after it: the header with its fields to be filled in later,
the offsets of the header and of its CRC field, and the offset of the first message. -/
def msgsetWriterWriteMessageSetV2Header (w : MsgsetWriter) : MsgsetWriter :=
  let ofStart := w.buf.length
  let buf := w.buf ++ intBytes 8 (0 : BitVec 64) ++ intBytes 4 (0 : BitVec 32) ++
    intBytes 4 (0 : BitVec 32) ++ intBytes 1 (2 : BitVec 8)
  let ofCRC := buf.length
  let buf := buf ++ intBytes 4 (0 : BitVec 32) ++ intBytes 2 (0 : BitVec 16) ++
    intBytes 4 (0 : BitVec 32) ++ intBytes 8 (0 : BitVec 64) ++ intBytes 8 (0 : BitVec 64) ++
    intBytes 8 w.pid.id ++ intBytes 2 w.pid.epoch ++ intBytes 4 (-1 : BitVec 32) ++
    intBytes 4 (0 : BitVec 32)
  { w with buf := buf, ofStart := ofStart, ofCRC := ofCRC, firstmsgOf := buf.length }

/-- `rd_kafka_msgset_writer_write_msg_v2(msetw, rkm, Offset, ...)`: the bytes written and
the `MessageSize` it returns.  The varints of the length fields are encoded into buffers
of `RD_UVARINT_ENC_SIZEOF(int32_t)` bytes, the delta fields into buffers of
`RD_UVARINT_ENC_SIZEOF(int64_t)` bytes. -/
def msgsetWriterWriteMsgV2 (w : MsgsetWriter) (m : ProduceMsg) (offset : BitVec 64) :
    Option (List UInt8 × ℕ) :=
  match i64Sub m.timestamp w.firstmsgTimestamp with
  | none => none
  | some timestampDelta =>
    let vTimestampDelta := uvarintEncI64 (uvarintEncSizeof 8) timestampDelta
    let vOffsetDelta := uvarintEncI64 (uvarintEncSizeof 8) offset
    let vKeyLen := uvarintEncI32 (uvarintEncSizeof 4)
      (if m.key.isSome then BitVec.ofNat 32 m.keyLen else -1)
    let vValueLen := uvarintEncI32 (uvarintEncSizeof 4)
      (if m.payload.isSome then BitVec.ofNat 32 m.len else -1)
    let vHeaderCount := uvarintEncI32 (uvarintEncSizeof 4) (BitVec.ofNat 32 m.headerCount)
    -- `MessageSize` without the width of `Length`, which goes into `Length`
    let messageSize := 1 + vTimestampDelta.1 + vOffsetDelta.1 + vKeyLen.1 + m.keyLen +
      vValueLen.1 + m.len + vHeaderCount.1 + m.headerSize
    let vLength := uvarintEncI64 (uvarintEncSizeof 4) (BitVec.ofNat 64 messageSize)
    let bytes := varintBytes vLength ++ intBytes 1 (0 : BitVec 8) ++ varintBytes vTimestampDelta ++
      varintBytes vOffsetDelta ++ varintBytes vKeyLen ++ m.key.getD [] ++ varintBytes vValueLen ++
      m.payload.getD [] ++ varintBytes vHeaderCount ++
      ((m.headers.map fun h => (msgsetWriterWriteMsgHeaders h).1).getD [])
    some (bytes, messageSize + vLength.1)

/-- `rd_kafka_msgset_writer_write_msg(msetw, rkm, Offset, ...)` for `MsgVersion` 2: the
message written at the end of the buffer and its size, with the two assertions on it. -/
def msgsetWriterWriteMsg (w : MsgsetWriter) (m : ProduceMsg) (offset : BitVec 64) :
    Option (MsgsetWriter × ℕ) :=
  match msgsetWriterWriteMsgV2 w m offset with
  | none => none
  | some (bytes, outlen) =>
    if outlen ≤ msgWireSize m ∧ outlen = bytes.length then some ({ w with buf := w.buf ++ bytes }, outlen)
    else none

/-- `rd_kafka_seq_wrap(seq)`: the low 31 bits. -/
def seqWrap (seq : ℕ) : BitVec 32 := BitVec.ofNat 32 (seq % 2 ^ 31)

/-- `rd_kafka_msgbatch_set_first_msg(rkmb, rkm)`; `none` is the failed `rd_assert`. -/
def msgbatchSetFirstMsg (w : MsgsetWriter) (m : ProduceMsg) : Option MsgsetWriter :=
  if w.firstMsgid ≠ 0 then none
  else if !w.pid.valid then some w
  else
    some { w with
      firstMsgid := m.msgid
      firstSeq := seqWrap (m.msgid - w.epochBaseMsgid)
      lastMsgid := m.lastMsgid }

/-- The `do ... while ((rkm = TAILQ_FIRST(&rkmq->rkmq_msgs)))` loop of
`rd_kafka_msgset_writer_write_msgq`, with `msgcnt` messages and `len` bytes written so far:
the writer and the queue left when it stops.  Each pass moves one message, so the fuel is
the queue's length. -/
def writeMsgqLoop (conf : WriterConf) (maxMsgSize : ℕ) :
    ℕ → MsgsetWriter → List ProduceMsg → ℕ → ℕ → Option (MsgsetWriter × List ProduceMsg × ℕ)
  | 0, w, q, msgcnt, _ => some (w, q, msgcnt)
  | _, w, [], msgcnt, _ => some (w, [], msgcnt)
  | fuel + 1, w, m :: q, msgcnt, len =>
    if w.lastMsgid ≠ 0 ∧ w.lastMsgid < m.msgid then some (w, m :: q, msgcnt)
    else if msgcnt = w.msgcntmax ∨ (0 < msgcnt ∧ len + msgWireSize m > maxMsgSize) then
      some (w, m :: q, msgcnt)
    else if conf.now.slt m.tsBackoff then some (w, m :: q, msgcnt)
    else
      let w := { w with
        batch := w.batch ++ [m]
        maxTimestamp := if w.maxTimestamp.slt m.timestamp then m.timestamp else w.maxTimestamp }
      match msgsetWriterWriteMsg w m (BitVec.ofNat 64 msgcnt) with
      | none => none
      | some (w, outlen) => writeMsgqLoop conf maxMsgSize fuel w q (msgcnt + 1) (len + outlen)

/-- `rd_kafka_msgset_writer_write_msgq(msetw, rkmq)`: the writer, the queue left, and `1`
(`true`) on success or `0` on the idempotence check's fatal error.  `none` is the failed
assertion on an empty queue. -/
def msgsetWriterWriteMsgq (conf : WriterConf) (w : MsgsetWriter) (rkmq : List ProduceMsg) :
    Option (MsgsetWriter × List ProduceMsg × Bool) :=
  match rkmq with
  | [] => none
  | m :: _ =>
    let w := { w with firstmsgTimestamp := m.timestamp }
    match msgbatchSetFirstMsg w m with
    | none => none
    | some w =>
      let maxMsgSize := min conf.maxMsgSize conf.batchSize
      match writeMsgqLoop conf maxMsgSize rkmq.length { w with maxTimestamp := 0 } rkmq 0 w.buf.length with
      | none => none
      | some (w, q, msgcnt) =>
        if 0 < msgcnt ∧ w.lastMsgid ≠ 0 then
          match w.batch.getLast? with
          | none => none
          | some lastmsg => some (w, q, lastmsg.msgid = w.lastMsgid)
        else some (w, q, true)

/-- `RD_KAFKAP_MSGSET_V2_OF_*`: the offsets of the header fields that are filled in later. -/
def msgsetV2OfLength : ℕ := 8
def msgsetV2OfAttributes : ℕ := 8 + 4 + 4 + 1 + 4
def msgsetV2OfLastOffsetDelta : ℕ := 8 + 4 + 4 + 1 + 4 + 2
def msgsetV2OfBaseTimestamp : ℕ := 8 + 4 + 4 + 1 + 4 + 2 + 4
def msgsetV2OfMaxTimestamp : ℕ := 8 + 4 + 4 + 1 + 4 + 2 + 4 + 8
def msgsetV2OfBaseSequence : ℕ := 8 + 4 + 4 + 1 + 4 + 2 + 4 + 8 + 8 + 8 + 2
def msgsetV2OfRecordCount : ℕ := 8 + 4 + 4 + 1 + 4 + 2 + 4 + 8 + 8 + 8 + 2 + 4

/-- `RD_KAFKA_MSG_ATTR_CREATE_TIME`. -/
def msgAttrCreateTime : BitVec 16 := 0

/-- `RD_KAFKA_MSGSET_V2_ATTR_TRANSACTIONAL`. -/
def msgsetV2AttrTransactional : BitVec 16 := 0x10

/-- `rd_kafka_msgset_writer_calc_crc_v2(msetw)`: the CRC32C of everything after the CRC
field, written into it. -/
def msgsetWriterCalcCrcV2 (w : MsgsetWriter) : Option MsgsetWriter :=
  let crc := crc32c 0 (w.buf.drop (w.ofCRC + 4))
  (bufUpdate w.buf w.ofCRC (intBytes 4 crc)).map fun buf => { w with buf := buf }

/-- `rd_kafka_msgset_writer_finalize_MessageSet_v2_header(msetw)` with `messagesLen`, the
size of the messages. -/
def msgsetWriterFinalizeMessageSetV2Header (conf : WriterConf) (w : MsgsetWriter)
    (messagesLen : ℕ) : Option MsgsetWriter := do
  let msgcnt := w.batch.length
  if msgcnt = 0 then none
  let messageSetSize := msgsetV2Size + messagesLen
  let buf ← bufUpdate w.buf (w.ofStart + msgsetV2OfLength)
    (intBytes 4 (BitVec.ofNat 32 messageSetSize - 12))
  let attributes := w.attributes ||| msgAttrCreateTime
  let attributes := if conf.transactional then attributes ||| msgsetV2AttrTransactional
    else attributes
  let buf ← bufUpdate buf (w.ofStart + msgsetV2OfAttributes) (intBytes 2 attributes)
  let buf ← bufUpdate buf (w.ofStart + msgsetV2OfLastOffsetDelta)
    (intBytes 4 (BitVec.ofNat 32 (msgcnt - 1)))
  let buf ← bufUpdate buf (w.ofStart + msgsetV2OfBaseTimestamp) (intBytes 8 w.firstmsgTimestamp)
  let buf ← bufUpdate buf (w.ofStart + msgsetV2OfMaxTimestamp) (intBytes 8 w.maxTimestamp)
  let buf ← bufUpdate buf (w.ofStart + msgsetV2OfBaseSequence) (intBytes 4 w.firstSeq)
  let buf ← bufUpdate buf (w.ofStart + msgsetV2OfRecordCount) (intBytes 4 (BitVec.ofNat 32 msgcnt))
  msgsetWriterCalcCrcV2 { w with buf := buf, attributes := attributes }

/-- `rd_kafka_msgset_writer_finalize(msetw, &MessageSetSize)` without compression, up to
the end of the RecordBatch: `none` for the `NULL` of an empty batch and for a failed
assertion. -/
def msgsetWriterFinalize (conf : WriterConf) (w : MsgsetWriter) : Option MsgsetWriter :=
  if w.batch.length = 0 then none
  else
    let len := w.buf.length - w.firstmsgOf
    if ¬(0 < len ∧ len ≤ conf.maxMsgSize) then none
    else msgsetWriterFinalizeMessageSetV2Header conf w len

/-- `rd_kafka_msgset_create_ProduceRequest(rkb, rktp, rkmq, pid, epoch_base_msgid, ...)`
after the ProduceRequest fields `pre`: the writer, whose buffer holds the request, and the
messages left in the queue.  `none` is the `NULL` request (an empty queue, or the
idempotence check failing, when the batch goes back to the queue) or a failed step. -/
def msgsetCreateProduceRequest (conf : WriterConf) (pre : List UInt8) (pid : Pid)
    (epochBaseMsgid : ℕ) (rkmq : List ProduceMsg) : Option (MsgsetWriter × List ProduceMsg) :=
  if rkmq.length = 0 then none
  else
    let w : MsgsetWriter := ⟨pre, min rkmq.length conf.batchNumMessages, pid, 0, 0, 0, 0, 0, 0,
      [], epochBaseMsgid, 0, 0, -1⟩
    match msgsetWriterWriteMsgq conf (msgsetWriterWriteMessageSetV2Header w) rkmq with
    | none => none
    | some (_, _, false) => none
    | some (w, q, true) => (msgsetWriterFinalize conf w).map fun w => (w, q)

/-- The RecordBatch of a request, from `BaseOffset` to the end of the last record. -/
def MsgsetWriter.recordBatch (w : MsgsetWriter) : List UInt8 := w.buf.drop w.ofStart

end Rdkafka
