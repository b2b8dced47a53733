import Rdkafka.Buf.Crc32c

/-!
# The MessageSet v2 reader

This file models how `src/rdkafka_msgset_reader.c` parses a `MsgVersion` 2 RecordBatch of
a FetchResponse: `rd_kafka_msgset_reader_v2` reads the batch header, checks the CRC32C of
the rest when `check.crcs` is set, skips batches below the fetch position, and reads the
records of an uncompressed batch from a slice narrowed to its payload with
`rd_kafka_msgset_reader_msgs_v2`, which skips batches of aborted transactions and reads
each record with `rd_kafka_msgset_reader_msg_v2`.  A record becomes a fetched message, or
a control message, on the reader's queue `msetr_rkq`.

A reader function returns the reader state and its `rd_kafka_resp_err_t`: what it put on
the queue before an error stays there.  `none` is undefined behaviour (signed overflow, a
read through an uninitialised slice) or a failed assertion.  Decompression is not
modelled: `rd_kafka_msgset_reader_decompress` is a parameter.  Statistics (the `rkb_c`
counters, `msetr_msg_bytes`) and debug logs are left out.
-/

set_option autoImplicit false

namespace Rdkafka

/-- The MessageSet v2 header `struct msgset_v2_hdr`. -/
structure MsgsetV2Hdr where
  baseOffset : BitVec 64
  length : BitVec 32
  partitionLeaderEpoch : BitVec 32
  magicByte : BitVec 8
  crc : BitVec 32
  attributes : BitVec 16
  lastOffsetDelta : BitVec 32
  baseTimestamp : BitVec 64
  maxTimestamp : BitVec 64
  pid : BitVec 64
  producerEpoch : BitVec 16
  baseSequence : BitVec 32
  recordCount : BitVec 32
  deriving DecidableEq, Repr

/-- `RD_KAFKAP_MSGSET_V2_SIZE`, the size of the header. -/
def msgsetV2Size : ℕ := 8 + 4 + 4 + 1 + 4 + 2 + 4 + 8 + 8 + 8 + 2 + 4 + 4

/-- `rd_kafka_timestamp_type_t`. -/
inductive TimestampType where
  | notAvailable
  | createTime
  | logAppendTime
  deriving DecidableEq, Repr

/-- A consumed message `rd_kafka_msg_t` as the reader sets it up.  The key, the value and
the headers are pointers into the fetch buffer: the memory from there on. -/
structure FetchMsg where
  /-- `rkm_offset`. -/
  offset : BitVec 64
  /-- `rkm_u.consumer.leader_epoch`. -/
  leaderEpoch : BitVec 32
  /-- `rkm_key`. -/
  key : Option (List UInt8)
  /-- `rkm_key_len`. -/
  keyLen : ℕ
  /-- `rkm_payload`. -/
  payload : Option (List UInt8)
  /-- `rkm_len`. -/
  len : ℕ
  /-- `rkm_u.consumer.binhdrs`, the unparsed headers. -/
  binhdrs : KafkapBytes
  /-- `rkm_tstype`. -/
  tstype : TimestampType
  /-- `rkm_timestamp`. -/
  timestamp : BitVec 64
  /-- `rkm_flags & RD_KAFKA_MSG_F_CONTROL`. -/
  control : Bool
  deriving DecidableEq, Repr

/-- An op the reader puts on `msetr_rkq`. -/
inductive FetchOp where
  /-- `RD_KAFKA_OP_FETCH` with its message (`rd_kafka_op_new_fetch_msg`,
  `rd_kafka_op_new_ctrl_msg`). -/
  | fetch (m : FetchMsg)
  /-- The error op of `rd_kafka_consumer_err` for the batch at `offset`. -/
  | consumerErr (err : RespErr) (offset : BitVec 64)
  deriving DecidableEq, Repr

/-- The aborted transactions of one producer, `rd_kafka_aborted_txn_start_offsets_t`. -/
structure AbortedTxnStartOffsets where
  /-- `pid`. -/
  pid : BitVec 64
  /-- `offsets_idx`. -/
  offsetsIdx : ℕ
  /-- `offsets`, ascending. -/
  offsets : List (BitVec 64)
  deriving DecidableEq, Repr

/-- `INT64_MAX`. -/
def int64Max : BitVec 64 := BitVec.ofNat 64 (2 ^ 63 - 1)

/-- `rd_kafka_aborted_txns_next_offset(aborted_txns, pid, increment_idx, max_offset)`: the
next aborted transaction start offset of `pid`, or `-1`.  The tree of producers is a list
with one node per producer id. -/
def abortedTxnsNextOffset (txns : List AbortedTxnStartOffsets) (pid : BitVec 64)
    (incrementIdx : Bool) (maxOffset : BitVec 64) : List AbortedTxnStartOffsets × BitVec 64 :=
  match txns.find? (·.pid = pid) with
  | none => (txns, -1)
  | some node =>
    match node.offsets[node.offsetsIdx]? with
    | none => (txns, -1)
    | some start =>
      if maxOffset.slt start then (txns, -1)
      else if incrementIdx then
        (txns.map fun n => if n.pid = pid then { n with offsetsIdx := n.offsetsIdx + 1 } else n,
          start)
      else (txns, start)

/-- `rd_kafka_aborted_txns_pop_offset(aborted_txns, pid, max_offset)`. -/
def abortedTxnsPopOffset (txns : List AbortedTxnStartOffsets) (pid maxOffset : BitVec 64) :
    List AbortedTxnStartOffsets × BitVec 64 :=
  abortedTxnsNextOffset txns pid true maxOffset

/-- `rd_kafka_aborted_txns_get_offset(aborted_txns, pid)`. -/
def abortedTxnsGetOffset (txns : List AbortedTxnStartOffsets) (pid : BitVec 64) : BitVec 64 :=
  (abortedTxnsNextOffset txns pid false int64Max).2

/-- The configuration and partition state the reader reads. -/
structure ReaderConf where
  /-- `rk_conf.check_crcs`. -/
  checkCrcs : Bool
  /-- `rktp_offsets.fetch_pos.offset`. -/
  fetchOffset : BitVec 64
  /-- `rk_conf.isolation_level == RD_KAFKA_READ_COMMITTED`. -/
  readCommitted : Bool
  deriving DecidableEq, Repr

/-- The fields of the reader `rd_kafka_msgset_reader_t` the modelled functions use, and the
read slice `rkbuf_reader` of its buffer. -/
structure MsgsetReader where
  /-- `msetr_rkbuf->rkbuf_reader`. -/
  reader : Slice
  /-- `msetr_rkq`, oldest op first. -/
  rkq : List FetchOp
  /-- `msetr_msgcnt`. -/
  msgcnt : ℕ
  /-- `msetr_leader_epoch`. -/
  leaderEpoch : BitVec 32
  /-- `msetr_next_offset`. -/
  nextOffset : BitVec 64
  /-- `msetr_ctrl_cnt`. -/
  ctrlCnt : ℕ
  /-- `msetr_aborted_cnt`. -/
  abortedCnt : ℕ
  /-- `msetr_aborted_txns`, `none` for `NULL`. -/
  abortedTxns : Option (List AbortedTxnStartOffsets)
  deriving DecidableEq, Repr

/-- `rd_kafka_msgset_reader_init(msetr, rkbuf, rktp, tver, aborted_txns, par_rkq)`, with the
buffer's read slice `reader`: everything zero but the leader epoch, `-1`, and the aborted
transactions. -/
def msgsetReaderInit (reader : Slice) (abortedTxns : Option (List AbortedTxnStartOffsets)) :
    MsgsetReader :=
  ⟨reader, [], 0, -1, 0, 0, 0, abortedTxns⟩

/-- `RD_KAFKA_MSG_ATTR_COMPRESSION_MASK`. -/
def msgAttrCompressionMask : BitVec 16 := 0x7

/-- `RD_KAFKA_MSG_ATTR_LOG_APPEND_TIME`. -/
def msgAttrLogAppendTime : BitVec 16 := 0x8

/-- `RD_KAFKA_MSGSET_V2_ATTR_CONTROL`. -/
def msgsetV2AttrControl : BitVec 16 := 0x20

/-- `RD_KAFKA_CTRL_MSG_ABORT`. -/
def ctrlMsgAbort : BitVec 16 := 0

/-- The control message `rd_kafka_op_new_ctrl_msg` makes for the record at `offset`. -/
def ctrlFetchMsg (offset : BitVec 64) (leaderEpoch : BitVec 32) : FetchMsg :=
  ⟨offset, leaderEpoch, none, 0, none, 0, ⟨0, none⟩, .notAvailable, 0, true⟩

/-! ## Records -/

/-- The control record branch of `rd_kafka_msgset_reader_msg_v2`, from its key on: the
marker is read, an abort marker moves the producer's aborted transactions on, and a
control message is queued. -/
def msgV2Ctrl (conf : ReaderConf) (b : Buf) (hdr : MsgsetV2Hdr) (r : MsgsetReader)
    (messageEnd : ℕ) (offset : BitVec 64) : Option (MsgsetReader × RespErr) :=
  match bufReadVarint b r.reader with
  | .error e => some (r, e)
  | .ok (keySize, s) =>
    let r := { r with reader := s }
    if keySize.slt 2 then some (r, .badMsg)
    else
      match bufReadI16 b s with
      | none => none
      | some (.error e) => some (r, e)
      | some (.ok (version, s)) =>
        let r := { r with reader := s }
        if version ≠ 0 then
          (bufSkipTo b s messageEnd).map fun
            | .error e => (r, e)
            | .ok s => ({ r with reader := s }, .noError)
        else if keySize ≠ 4 then some (r, .badMsg)
        else
          match bufReadI16 b s with
          | none => none
          | some (.error e) => some (r, e)
          | some (.ok (type, s)) =>
            let r := { r with reader := s }
            match bufSkip b s (i32ToSize (sizeToI32 (sizeSub messageEnd (sliceOffset b s)))) with
            | none => none
            | some (.error e) => some (r, e)
            | some (.ok s) =>
              let txns :=
                if type = ctrlMsgAbort ∧ conf.readCommitted then
                  r.abortedTxns.map fun txns => (abortedTxnsPopOffset txns hdr.pid offset).1
                else r.abortedTxns
              some ({ r with
                reader := s
                abortedTxns := txns
                rkq := r.rkq ++ [.fetch (ctrlFetchMsg offset r.leaderEpoch)]
                msgcnt := r.msgcnt + 1 }, .noError)

/-- The regular record branch of `rd_kafka_msgset_reader_msg_v2`, from its key on: the key,
the value and the rest of the record as the unparsed headers go into a fetched message,
with its timestamp. -/
def msgV2Regular (b : Buf) (hdr : MsgsetV2Hdr) (r : MsgsetReader) (messageEnd : ℕ)
    (msgAttributes : BitVec 8) (timestampDelta offset : BitVec 64) :
    Option (MsgsetReader × RespErr) :=
  match bufReadKbytesVarint b r.reader with
  | none => none
  | some (.error e) => some (r, e)
  | some (.ok (key, s)) =>
    let r := { r with reader := s }
    match bufReadKbytesVarint b s with
    | none => none
    | some (.error e) => some (r, e)
    | some (.ok (value, s)) =>
      let r := { r with reader := s }
      let headersLen := sizeToI32 (sizeSub messageEnd (sliceOffset b s))
      match bufReadPtr b s (i32ToSize headersLen) with
      | none => none
      | some (.error e) => some (r, e)
      | some (.ok (headersData, s)) =>
        let logAppend := hdr.attributes &&& msgAttrLogAppendTime ≠ 0 ∨
          msgAttributes.setWidth 16 &&& msgAttrLogAppendTime ≠ 0
        let ts : Option (TimestampType × BitVec 64) :=
          if logAppend then some (.logAppendTime, hdr.maxTimestamp)
          else (i64Add hdr.baseTimestamp timestampDelta).map fun t => (.createTime, t)
        ts.map fun (tstype, timestamp) =>
          let m : FetchMsg :=
            ⟨offset, r.leaderEpoch,
              if key.len = -1 then none else key.data, key.bytesLen.toNat,
              if value.len = -1 then none else value.data, value.bytesLen.toNat,
              ⟨headersLen, headersData⟩, tstype, timestamp, false⟩
          ({ r with reader := s, rkq := r.rkq ++ [.fetch m], msgcnt := r.msgcnt + 1 }, .noError)

/-- `rd_kafka_msgset_reader_msg_v2(msetr)` with the batch header `hdr`: one record. -/
def msgsetReaderMsgV2 (conf : ReaderConf) (b : Buf) (hdr : MsgsetV2Hdr) (r : MsgsetReader) :
    Option (MsgsetReader × RespErr) :=
  match bufReadVarint b r.reader with
  | .error e => some (r, e)
  | .ok (length, s) =>
    let messageEnd := sizeAdd (sliceOffset b s) length.toNat
    let r := { r with reader := s }
    match bufReadI8 b s with
    | none => none
    | some (.error e) => some (r, e)
    | some (.ok (msgAttributes, s)) =>
      let r := { r with reader := s }
      match bufReadVarint b s with
      | .error e => some (r, e)
      | .ok (timestampDelta, s) =>
        let r := { r with reader := s }
        match bufReadVarint b s with
        | .error e => some (r, e)
        | .ok (offsetDelta, s) =>
          let r := { r with reader := s }
          match i64Add hdr.baseOffset offsetDelta with
          | none => none
          | some offset =>
            if offset.slt conf.fetchOffset then
              -- an outdated record is skipped
              (bufSkipTo b s messageEnd).map fun
                | .error e => (r, e)
                | .ok s => ({ r with reader := s }, .noError)
            else if hdr.attributes &&& msgsetV2AttrControl ≠ 0 then
              msgV2Ctrl conf b hdr r messageEnd offset
            else msgV2Regular b hdr r messageEnd msgAttributes timestampDelta offset

/-- The `while (rd_kafka_buf_read_remain(msetr->msetr_rkbuf))` loop of
`rd_kafka_msgset_reader_msgs_v2`.  Every record read takes at least one byte, so fuel
one more than the bytes left is enough. -/
def msgsV2Loop (conf : ReaderConf) (b : Buf) (hdr : MsgsetV2Hdr) :
    ℕ → MsgsetReader → Option (MsgsetReader × RespErr)
  | 0, _ => none
  | fuel + 1, r =>
    if sliceRemains b r.reader = 0 then some (r, .noError)
    else
      match msgsetReaderMsgV2 conf b hdr r with
      | none => none
      | some (r, .noError) => msgsV2Loop conf b hdr fuel r
      | some (r, e) => some (r, e)

/-- `RD_KAFKA_MSGSET_V2_ATTR_TRANSACTIONAL | RD_KAFKA_MSGSET_V2_ATTR_CONTROL`. -/
def msgsetV2AttrTxnCtrl : BitVec 16 := 0x30

/-- `rd_kafka_msgset_reader_msgs_v2(msetr)`: the records of the payload, unless the batch
belongs to an aborted transaction. -/
def msgsetReaderMsgsV2 (conf : ReaderConf) (b : Buf) (hdr : MsgsetV2Hdr) (r : MsgsetReader) :
    Option (MsgsetReader × RespErr) :=
  let aborted :=
    match r.abortedTxns with
    | none => false
    | some txns =>
      if hdr.attributes &&& msgsetV2AttrTxnCtrl = 0x10 then
        let start := abortedTxnsGetOffset txns hdr.pid
        start ≠ -1 ∧ start.sle hdr.baseOffset
      else false
  if aborted then
    (bufSkip b r.reader (sliceRemains b r.reader)).map fun
      | .error e => (r, e)
      | .ok s => ({ r with reader := s, abortedCnt := r.abortedCnt + 1 }, .noError)
  else msgsV2Loop conf b hdr (sliceRemains b r.reader + 1) r

/-! ## The batch -/

/-- The end of `rd_kafka_msgset_reader_v2`, from the test of the last offset on: an
outdated batch is skipped, a compressed one goes to the decompressor, and the records of an
uncompressed one are read from the reader narrowed to the payload.  `done:` sets the next
fetch offset. -/
def readerV2Payload (conf : ReaderConf) (b : Buf)
    (decompress : MsgsetReader → MsgsetV2Hdr → List UInt8 → ℕ → MsgsetReader × RespErr)
    (hdr : MsgsetV2Hdr) (lastOffset : BitVec 64) (payloadSize : ℕ) (r : MsgsetReader) :
    Option (MsgsetReader × RespErr) :=
  let done (r : MsgsetReader) : Option (MsgsetReader × RespErr) :=
    (i64Add lastOffset 1).map fun next => ({ r with nextOffset := next }, .noError)
  if lastOffset.slt conf.fetchOffset then
    match bufSkip b r.reader payloadSize with
    | none => none
    | some (.error e) => some (r, e)
    | some (.ok s) => done { r with reader := s }
  else
    let r := if hdr.attributes &&& msgsetV2AttrControl ≠ 0 then { r with ctrlCnt := r.ctrlCnt + 1 }
      else r
    if hdr.attributes &&& msgAttrCompressionMask ≠ 0 then
      match sliceEnsureContig b r.reader payloadSize with
      | none => none
      | some (none, _) => none
      | some (some compressed, s) =>
        let (r, err) := decompress { r with reader := s } hdr compressed payloadSize
        if err ≠ .noError then some (r, err) else done r
    else
      let narrowed : Option (Option Slice) :=
        match sliceNarrowRelative b r.reader payloadSize with
        | none => none
        | some (some s) => some (some s)
        -- not narrowed: `rd_kafka_buf_check_len` fails; were it to pass, `rd_slice_widen`
        -- would read the uninitialised saved slice
        | some none => if sliceRemains b r.reader < payloadSize then some none else none
      match narrowed with
      | none => none
      | some none => some (r, .underflow)
      | some (some s) =>
        match msgsetReaderMsgsV2 conf b hdr { r with reader := s } with
        | none => none
        | some (r', err) =>
          let r' := { r' with reader := sliceWiden r'.reader r.reader }
          if err ≠ .noError then some (r', err) else done r'

/-- The header fields of `rd_kafka_msgset_reader_v2` after the CRC check, from
`Attributes` to `RecordCount`, and the payload size and its check. -/
def readerV2Fields (conf : ReaderConf) (b : Buf)
    (decompress : MsgsetReader → MsgsetV2Hdr → List UInt8 → ℕ → MsgsetReader × RespErr)
    (hdr : MsgsetV2Hdr) (lenStart : ℕ) (r : MsgsetReader) : Option (MsgsetReader × RespErr) :=
  match bufReadI16 b r.reader with
  | none => none
  | some (.error e) => some (r, e)
  | some (.ok (attributes, s)) =>
  match bufReadI32 b s with
  | none => none
  | some (.error e) => some ({ r with reader := s }, e)
  | some (.ok (lastOffsetDelta, s)) =>
  match i64Add hdr.baseOffset (lastOffsetDelta.signExtend 64) with
  | none => none
  | some lastOffset =>
  match bufReadI64 b s with
  | none => none
  | some (.error e) => some ({ r with reader := s }, e)
  | some (.ok (baseTimestamp, s)) =>
  match bufReadI64 b s with
  | none => none
  | some (.error e) => some ({ r with reader := s }, e)
  | some (.ok (maxTimestamp, s)) =>
  match bufReadI64 b s with
  | none => none
  | some (.error e) => some ({ r with reader := s }, e)
  | some (.ok (pid, s)) =>
  match bufReadI16 b s with
  | none => none
  | some (.error e) => some ({ r with reader := s }, e)
  | some (.ok (producerEpoch, s)) =>
  match bufReadI32 b s with
  | none => none
  | some (.error e) => some ({ r with reader := s }, e)
  | some (.ok (baseSequence, s)) =>
  match bufReadI32 b s with
  | none => none
  | some (.error e) => some ({ r with reader := s }, e)
  | some (.ok (recordCount, s)) =>
    let r := { r with reader := s }
    let hdr := { hdr with
      attributes := attributes, lastOffsetDelta := lastOffsetDelta
      baseTimestamp := baseTimestamp, maxTimestamp := maxTimestamp, pid := pid
      producerEpoch := producerEpoch, baseSequence := baseSequence, recordCount := recordCount }
    -- `hdr.Length - (rd_slice_offset(...) - len_start)`, in `size_t`
    let payloadSize := sizeSub (i32ToSize hdr.length) (sizeSub (sliceOffset b s) lenStart)
    if sliceRemains b s < payloadSize then some (r, .underflow)
    else readerV2Payload conf b decompress hdr lastOffset payloadSize r

/-- The CRC check of `rd_kafka_msgset_reader_v2`: the CRC32C of the `Length - 9` bytes
after the CRC field.  A mismatch is reported on the queue and the batch is skipped. -/
def readerV2Crc (conf : ReaderConf) (b : Buf)
    (decompress : MsgsetReader → MsgsetV2Hdr → List UInt8 → ℕ → MsgsetReader × RespErr)
    (hdr : MsgsetV2Hdr) (lenStart : ℕ) (r : MsgsetReader) : Option (MsgsetReader × RespErr) :=
  if !conf.checkCrcs then readerV2Fields conf b decompress hdr lenStart r
  else
    let crcLen := i32ToSize (hdr.length - 4 - 1 - 4)
    match sliceNarrowCopyRelative b r.reader crcLen with
    | none => none
    | some none =>
      -- `rd_kafka_buf_check_len`; were it to pass, the CRC slice would be uninitialised
      if sliceRemains b r.reader < crcLen then some (r, .underflow) else none
    | some (some crcSlice) =>
      match sliceCrc32c b crcSlice with
      | none => none
      | some calcCrc =>
        if hdr.crc ≠ calcCrc then
          let r := { r with rkq := r.rkq ++ [.consumerErr .badMsg hdr.baseOffset] }
          (bufSkipTo b r.reader crcLen).map fun
            | .error e => (r, e)
            | .ok s => ({ r with reader := s }, .noError)
        else readerV2Fields conf b decompress hdr lenStart r

/-- `rd_kafka_msgset_reader_v2(msetr)`: one RecordBatch from the reader's position. -/
def msgsetReaderV2 (conf : ReaderConf) (b : Buf)
    (decompress : MsgsetReader → MsgsetV2Hdr → List UInt8 → ℕ → MsgsetReader × RespErr)
    (r : MsgsetReader) : Option (MsgsetReader × RespErr) :=
  match bufReadI64 b r.reader with
  | none => none
  | some (.error e) => some (r, e)
  | some (.ok (baseOffset, s)) =>
  match bufReadI32 b s with
  | none => none
  | some (.error e) => some ({ r with reader := s }, e)
  | some (.ok (length, s)) =>
    let lenStart := sliceOffset b s
    let r := { r with reader := s }
    if length.slt (BitVec.ofNat 32 (msgsetV2Size - 8 - 4)) then some (r, .badMsg)
    else
      match bufReadI32 b s with
      | none => none
      | some (.error e) => some (r, e)
      | some (.ok (partitionLeaderEpoch, s)) =>
      let r := { r with reader := s, leaderEpoch := partitionLeaderEpoch }
      match bufReadI8 b s with
      | none => none
      | some (.error e) => some (r, e)
      | some (.ok (magicByte, s)) =>
      match bufReadI32 b s with
      | none => none
      | some (.error e) => some ({ r with reader := s }, e)
      | some (.ok (crc, s)) =>
        let hdr : MsgsetV2Hdr :=
          ⟨baseOffset, length, partitionLeaderEpoch, magicByte, crc, 0, 0, 0, 0, 0, 0, 0, 0⟩
        readerV2Crc conf b decompress hdr lenStart { r with reader := s }

end Rdkafka
