import Rdkafka.Msg.MsgsetWriter

/-!
# The MessageSet writer for every `MsgVersion`

`rd_kafka_msgset_writer_select_MsgVersion` picks the message format of a ProduceRequest from
the broker's features: the MessageSet v2 RecordBatch of `Rdkafka.Msg.MsgsetWriter`, or the
older MessageSet of `MsgVersion` 0 or 1, which has no header of its own and frames each
message with its `Offset`, its `MessageSize` and a CRC-32 of the message.  This file models
what depends on the version: `rd_kafka_msg_wire_size`, which bounds a message's size by the
overhead of its version; `rd_kafka_msgset_writer_write_msg_v0_1`; the dispatch and the
assertions of `rd_kafka_msgset_writer_write_msg`; and the loop of
`rd_kafka_msgset_writer_write_msgq`, which reads both.  `rd_kafka_msgset_create_ProduceRequest`
is modelled up to the assertions of `rd_kafka_msgset_writer_finalize` on the size of the
messages: what it writes after them is the v2 header of `msgsetWriterFinalize`, or for the
older MessageSet only the `MessageSetSize` outside the messages.

At `MsgVersion` 2 the functions here are those of `Rdkafka.Msg.MsgsetWriter`
(`msgsetWriterWriteMsgqAt_v2`).
-/

set_option autoImplicit false

namespace Rdkafka

/-- `msetw_MsgVersion`. -/
inductive MsgVersion where
  | v0
  | v1
  | v2
  deriving DecidableEq, Repr

/-- The `MagicByte` of a version, `msetw_MsgVersion` as an `int8_t`. -/
def MsgVersion.magic : MsgVersion → BitVec 8
  | .v0 => 0
  | .v1 => 1
  | .v2 => 2

/-! ## Wire sizes -/

/-- `RD_KAFKAP_MESSAGESET_V0_HDR_SIZE`: `Offset` and `MessageSize`. -/
def messagesetV0HdrSize : ℕ := 8 + 4

/-- `RD_KAFKAP_MESSAGE_V0_HDR_SIZE`: `Crc`, `MagicByte`, `Attributes`, `KeyLength` and
`ValueLength`. -/
def messageV0HdrSize : ℕ := 4 + 1 + 1 + 4 + 4

/-- `RD_KAFKAP_MESSAGE_V1_HDR_SIZE`: as `MsgVersion` 0, with the `Timestamp`. -/
def messageV1HdrSize : ℕ := 4 + 1 + 1 + 8 + 4 + 4

/-- The `overheads[]` table of `rd_kafka_msg_wire_size`. -/
def msgOverhead : MsgVersion → ℕ
  | .v0 => messagesetV0HdrSize + messageV0HdrSize
  | .v1 => messagesetV0HdrSize + messageV1HdrSize
  | .v2 => messageV2MaxOverhead

/-- `rd_kafka_msg_wire_size(rkm, MsgVersion)`: the headers count only for `MsgVersion` 2. -/
def msgWireSizeAt (m : ProduceMsg) (msgVersion : MsgVersion) : ℕ :=
  msgOverhead msgVersion + m.len + m.keyLen +
    if msgVersion = .v2 then m.headerSize else 0

/-- The CRC-32 polynomial of `crc_table` in `src/rdcrc32.c`, bit-reflected. -/
def rdCrc32Poly : BitVec 32 := 0xedb88320#32

/-- One bit of the register: `crc & 1 ? (crc >> 1) ^ POLY : crc >> 1`. -/
def rdCrc32Shift (crc : BitVec 32) : BitVec 32 :=
  if crc &&& 1#32 = 1#32 then (crc >>> 1) ^^^ rdCrc32Poly else crc >>> 1

/-- `crc_table[n]`: eight bits from `n`, as the table in `src/rdcrc32.c` was generated. -/
def rdCrc32Table (n : BitVec 32) : BitVec 32 := Nat.iterate rdCrc32Shift 8 n

example : rdCrc32Table 1#32 = 0x77073096#32 := by decide

/-- `rd_crc32_update(crc, data, data_len)` without zlib, which computes the same CRC. -/
def rdCrc32Update (crc : BitVec 32) (data : List UInt8) : BitVec 32 :=
  data.foldl (fun crc b => rdCrc32Table ((crc ^^^ BitVec.ofNat 32 b.toNat) &&& 0xff#32) ^^^
    (crc >>> 8)) crc

/-- `rd_crc32_finalize(rd_crc32_update(rd_crc32_init(), data, data_len))`. -/
def rdCrc32 (data : List UInt8) : BitVec 32 :=
  rdCrc32Update 0xffffffff#32 data ^^^ 0xffffffff#32

/-! ## One message -/

/-- `rd_kafka_buf_write_bytes(rkbuf, payload, size)`: the `int32_t` length, `-1` for `NULL`,
then the bytes. -/
def bufWriteBytes (payload : Option (List UInt8)) : List UInt8 :=
  match payload with
  | none => intBytes 4 (-1 : BitVec 32)
  | some p => intBytes 4 (BitVec.ofNat 32 p.length) ++ p

/-- `rd_kafka_msgset_writer_write_msg_v0_1(msetw, rkm, Offset, MsgAttributes, ...)`: the bytes
written and the size it returns.  The `Crc` is the CRC-32 of what is written after it while
`RD_KAFKA_OP_F_CRC` is set, and `MessageSize` is cast to `int32_t`. -/
def msgsetWriterWriteMsgV01 (msgVersion : MsgVersion) (m : ProduceMsg) (offset : BitVec 64)
    (msgAttributes : BitVec 8) : List UInt8 × ℕ :=
  let messageSize := 4 + 1 + 1 + 4 + m.keyLen + 4 + m.len +
    if msgVersion = .v1 then 8 else 0
  -- the value is written as `rd_kafka_buf_write_bytes` writes the key
  let message := intBytes 1 msgVersion.magic ++ intBytes 1 msgAttributes ++
    (if msgVersion = .v1 then intBytes 8 m.timestamp else []) ++ bufWriteBytes m.key ++
    bufWriteBytes m.payload
  (intBytes 8 offset ++ intBytes 4 (BitVec.ofNat 32 messageSize) ++ intBytes 4 (rdCrc32 message) ++
    message, 8 + 4 + messageSize)

/-- `RD_KAFKA_MSG_ATTR_CREATE_TIME` as the `int8_t` `MsgAttributes`. -/
def msgAttrCreateTime8 : BitVec 8 := msgAttrCreateTime.setWidth 8

/-- `rd_kafka_msgset_writer_write_msg(msetw, rkm, Offset, 0, NULL)` for every `MsgVersion`: the
writer of the version, whose message is appended, and its two assertions. -/
def msgsetWriterWriteMsgAt (msgVersion : MsgVersion) (w : MsgsetWriter) (m : ProduceMsg)
    (offset : BitVec 64) : Option (MsgsetWriter × ℕ) :=
  let msgAttributes : BitVec 8 := if m.timestamp ≠ 0 then 0 ||| msgAttrCreateTime8 else 0
  let written := match msgVersion with
    | .v2 => msgsetWriterWriteMsgV2 w m offset
    | v => some (msgsetWriterWriteMsgV01 v m offset msgAttributes)
  match written with
  | none => none
  | some (bytes, outlen) =>
    if outlen ≤ msgWireSizeAt m msgVersion ∧ outlen = bytes.length then
      some ({ w with buf := w.buf ++ bytes }, outlen)
    else none

theorem msgsetWriterWriteMsgAt_v2 : msgsetWriterWriteMsgAt .v2 = msgsetWriterWriteMsg := rfl

/-! ## The queue -/

/-- The loop of `rd_kafka_msgset_writer_write_msgq` for every `MsgVersion`: as `writeMsgqLoop`,
with the wire size and the writer of the version. -/
def writeMsgqLoopAt (msgVersion : MsgVersion) (conf : WriterConf) (maxMsgSize : ℕ) :
    ℕ → MsgsetWriter → List ProduceMsg → ℕ → ℕ → Option (MsgsetWriter × List ProduceMsg × ℕ)
  | 0, w, q, msgcnt, _ => some (w, q, msgcnt)
  | _, w, [], msgcnt, _ => some (w, [], msgcnt)
  | fuel + 1, w, m :: q, msgcnt, len =>
    if w.lastMsgid ≠ 0 ∧ w.lastMsgid < m.msgid then some (w, m :: q, msgcnt)
    else if msgcnt = w.msgcntmax ∨
        (0 < msgcnt ∧ len + msgWireSizeAt m msgVersion > maxMsgSize) then
      some (w, m :: q, msgcnt)
    else if conf.now.slt m.tsBackoff then some (w, m :: q, msgcnt)
    else
      let w := { w with
        batch := w.batch ++ [m]
        maxTimestamp := if w.maxTimestamp.slt m.timestamp then m.timestamp else w.maxTimestamp }
      match msgsetWriterWriteMsgAt msgVersion w m (BitVec.ofNat 64 msgcnt) with
      | none => none
      | some (w, outlen) =>
        writeMsgqLoopAt msgVersion conf maxMsgSize fuel w q (msgcnt + 1) (len + outlen)

/-- `rd_kafka_msgset_writer_write_msgq(msetw, rkmq)` for every `MsgVersion`. -/
def msgsetWriterWriteMsgqAt (msgVersion : MsgVersion) (conf : WriterConf) (w : MsgsetWriter)
    (rkmq : List ProduceMsg) : Option (MsgsetWriter × List ProduceMsg × Bool) :=
  match rkmq with
  | [] => none
  | m :: _ =>
    let w := { w with firstmsgTimestamp := m.timestamp }
    match msgbatchSetFirstMsg w m with
    | none => none
    | some w =>
      let maxMsgSize := min conf.maxMsgSize conf.batchSize
      match writeMsgqLoopAt msgVersion conf maxMsgSize rkmq.length { w with maxTimestamp := 0 }
          rkmq 0 w.buf.length with
      | none => none
      | some (w, q, msgcnt) =>
        if 0 < msgcnt ∧ w.lastMsgid ≠ 0 then
          match w.batch.getLast? with
          | none => none
          | some lastmsg => some (w, q, lastmsg.msgid = w.lastMsgid)
        else some (w, q, true)

/-- The end of `rd_kafka_msgset_writer_write_Produce_header` and of
`rd_kafka_msgset_writer_init`: the MessageSet v2 header for `MsgVersion` 2, nothing for the
older MessageSet, and the offset of the first message. -/
def msgsetWriterWriteMessageSetHeaderAt (msgVersion : MsgVersion) (w : MsgsetWriter) :
    MsgsetWriter :=
  match msgVersion with
  | .v2 => msgsetWriterWriteMessageSetV2Header w
  | _ => { w with firstmsgOf := w.buf.length }

/-- `rd_kafka_msgset_create_ProduceRequest(rkb, rktp, rkmq, pid, epoch_base_msgid, ...)` for
every `MsgVersion`, after the ProduceRequest fields `pre` and up to the assertions of
`rd_kafka_msgset_writer_finalize` on the size of the messages: the writer, the messages left
in the queue and that size.  The inner `none` is the `NULL` request: an empty queue, or an
empty batch, also after the idempotence check has failed and moved the batch back to the
queue.  The outer `none` is a failed assertion or undefined behaviour. -/
def msgsetCreateProduceRequestAt (msgVersion : MsgVersion) (conf : WriterConf)
    (pre : List UInt8) (pid : Pid) (epochBaseMsgid : ℕ) (rkmq : List ProduceMsg) :
    Option (Option (MsgsetWriter × List ProduceMsg × ℕ)) :=
  if rkmq.length = 0 then some none
  else
    let w : MsgsetWriter := ⟨pre, min rkmq.length conf.batchNumMessages, pid, 0, 0, 0, 0, 0, 0,
      [], epochBaseMsgid, 0, 0, -1⟩
    match msgsetWriterWriteMsgqAt msgVersion conf (msgsetWriterWriteMessageSetHeaderAt msgVersion w)
        rkmq with
    | none => none
    | some (_, _, false) => some none
    | some (w, q, true) =>
      if w.batch.length = 0 then some none
      else
        let len := w.buf.length - w.firstmsgOf
        if ¬(0 < len ∧ len ≤ conf.maxMsgSize) then none
        else some (some (w, q, len))

end Rdkafka
