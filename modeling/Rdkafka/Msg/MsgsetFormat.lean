import Rdkafka.Msg.MsgsetWriter
import Rdkafka.Msg.HeaderRoundTrip

/-!
# The RecordBatch format

The bytes of a `MsgVersion` 2 RecordBatch as the Kafka protocol lays them out, stated
independently of the writer and the reader: the 61-byte header as thirteen fixed-width
fields in network byte order (`MsgsetV2Hdr.bytes`), and each record as its `Length`
varint followed by attributes, timestamp and offset deltas, key and value with their
length varints (`-1` for `NULL`), and the header count and headers (`recordV2`).

`batchRecords t0 k ms` are the records of messages `ms` numbered from offset delta `k`,
with timestamp deltas from `t0`.  The writer's bytes are this format
(`Rdkafka.Msg.MsgsetWriterSpec`), and the reader reads it back
(`Rdkafka.Msg.MsgsetReaderSpec`).  `FetchMsg.Refetches` says which fetched message stands
for which produced one.
-/

set_option autoImplicit false

namespace Rdkafka

open Leb128

/-! ## The header -/

/-- The header fields in the order they stand in the batch, each in its width. -/
def MsgsetV2Hdr.fields (h : MsgsetV2Hdr) : List (List UInt8) :=
  [intBytes 8 h.baseOffset, intBytes 4 h.length, intBytes 4 h.partitionLeaderEpoch,
    intBytes 1 h.magicByte, intBytes 4 h.crc, intBytes 2 h.attributes,
    intBytes 4 h.lastOffsetDelta, intBytes 8 h.baseTimestamp, intBytes 8 h.maxTimestamp,
    intBytes 8 h.pid, intBytes 2 h.producerEpoch, intBytes 4 h.baseSequence,
    intBytes 4 h.recordCount]

/-- The header's bytes. -/
def MsgsetV2Hdr.bytes (h : MsgsetV2Hdr) : List UInt8 := h.fields.flatten

/-- The bytes the CRC32C covers in the header: everything after the CRC field. -/
def MsgsetV2Hdr.crcBytes (h : MsgsetV2Hdr) : List UInt8 := (h.fields.drop 5).flatten

@[simp] theorem length_intBytes {w : ℕ} (k : ℕ) (v : BitVec w) : (intBytes k v).length = k :=
  BigEndian.length_toBytes k _

@[simp] theorem MsgsetV2Hdr.length_fields (h : MsgsetV2Hdr) : h.fields.length = 13 := rfl

theorem MsgsetV2Hdr.length_bytes (h : MsgsetV2Hdr) : h.bytes.length = msgsetV2Size := by
  simp [MsgsetV2Hdr.bytes, MsgsetV2Hdr.fields, msgsetV2Size]

@[simp] theorem MsgsetV2Hdr.length_crcBytes (h : MsgsetV2Hdr) : h.crcBytes.length = 40 := by
  simp [MsgsetV2Hdr.crcBytes, MsgsetV2Hdr.fields]

/-- The header is the five fields up to the CRC, 21 bytes, and the bytes the CRC covers. -/
theorem MsgsetV2Hdr.bytes_eq (h : MsgsetV2Hdr) :
    h.bytes = intBytes 8 h.baseOffset ++ intBytes 4 h.length ++ intBytes 4 h.partitionLeaderEpoch ++
      intBytes 1 h.magicByte ++ intBytes 4 h.crc ++ h.crcBytes := by
  simp [MsgsetV2Hdr.bytes, MsgsetV2Hdr.crcBytes, MsgsetV2Hdr.fields]

theorem MsgsetV2Hdr.crcBytes_eq (h : MsgsetV2Hdr) :
    h.crcBytes = intBytes 2 h.attributes ++ intBytes 4 h.lastOffsetDelta ++
      intBytes 8 h.baseTimestamp ++ intBytes 8 h.maxTimestamp ++ intBytes 8 h.pid ++
      intBytes 2 h.producerEpoch ++ intBytes 4 h.baseSequence ++ intBytes 4 h.recordCount := by
  simp [MsgsetV2Hdr.crcBytes, MsgsetV2Hdr.fields]

/-- What the writer leaves in the header of a batch of `n` messages whose records `recs` take
their timestamp deltas from `t0`, and what the reader relies on. -/
structure MsgsetV2Hdr.Finalized (h : MsgsetV2Hdr) (n : ℕ) (t0 : BitVec 64) (recs : List UInt8) :
    Prop where
  length : h.length = BitVec.ofNat 32 (msgsetV2Size + recs.length) - 12
  attributes : h.attributes = 0 ∨ h.attributes = msgsetV2AttrTransactional
  lastOffsetDelta : h.lastOffsetDelta = BitVec.ofNat 32 (n - 1)
  baseTimestamp : h.baseTimestamp = t0
  crc : h.crc = crc32c 0 (h.crcBytes ++ recs)

/-- `BaseOffset` lies outside what the CRC covers. -/
theorem MsgsetV2Hdr.Finalized.withBaseOffset {h : MsgsetV2Hdr} {n : ℕ} {t0 : BitVec 64}
    {recs : List UInt8} (hf : h.Finalized n t0 recs) (B : BitVec 64) :
    { h with baseOffset := B }.Finalized n t0 recs :=
  ⟨hf.length, hf.attributes, hf.lastOffsetDelta, hf.baseTimestamp, hf.crc⟩

/-- Overwriting the first eight bytes of a batch sets its `BaseOffset`. -/
theorem MsgsetV2Hdr.overwrite_baseOffset (h : MsgsetV2Hdr) (recs : List UInt8) (B : BitVec 64) :
    (h.bytes ++ recs).overwrite 0 (intBytes 8 B) = { h with baseOffset := B }.bytes ++ recs := by
  have hfit : 0 + (intBytes 8 B).length ≤ h.bytes.length := by
    rw [MsgsetV2Hdr.length_bytes, length_intBytes]
    decide
  have hfield := List.overwrite_flatten h.fields (j := 0) (by simp) (intBytes 8 B)
    (by simp [MsgsetV2Hdr.fields])
  rw [List.overwrite_append_right _ _ _ hfit]
  exact congrArg (· ++ recs) hfield

/-! ## Records -/

/-- The length varint of a nullable field: its length, or `-1` for `NULL`. -/
def nullableLen (o : Option (List UInt8)) : BitVec 64 :=
  match o with
  | none => -1
  | some v => BitVec.ofNat 64 v.length

/-- A record after its `Length`: attributes `0`, the timestamp and offset deltas, the key and
the value with their lengths, and `binhdrs`, the header count and headers. -/
def recordV2Body (timestampDelta offsetDelta : BitVec 64) (key value : Option (List UInt8))
    (binhdrs : List UInt8) : List UInt8 :=
  [0] ++ bufWriteVarint timestampDelta ++ bufWriteVarint offsetDelta ++
    bufWriteVarint (nullableLen key) ++ key.getD [] ++ bufWriteVarint (nullableLen value) ++
    value.getD [] ++ binhdrs

/-- A record: the length of its body as a varint, and the body. -/
def recordV2 (timestampDelta offsetDelta : BitVec 64) (key value : Option (List UInt8))
    (binhdrs : List UInt8) : List UInt8 :=
  let body := recordV2Body timestampDelta offsetDelta key value binhdrs
  bufWriteVarint (BitVec.ofNat 64 body.length) ++ body

/-- The header count of a message as a varint and its serialized headers. -/
def ProduceMsg.binhdrs (m : ProduceMsg) : List UInt8 :=
  bufWriteVarint (BitVec.ofNat 64 m.headerCount) ++
    (m.headers.map fun h => (msgsetWriterWriteMsgHeaders h).1).getD []

/-- The record of message `m` at offset delta `k` in a batch whose first timestamp is `t0`. -/
def recordOf (t0 : BitVec 64) (k : ℕ) (m : ProduceMsg) : List UInt8 :=
  recordV2 (m.timestamp - t0) (BitVec.ofNat 64 k) m.key m.payload m.binhdrs

/-- The records of messages `ms` from offset delta `k` on. -/
def batchRecords (t0 : BitVec 64) : ℕ → List ProduceMsg → List UInt8
  | _, [] => []
  | k, m :: ms => recordOf t0 k m ++ batchRecords t0 (k + 1) ms

@[simp] theorem batchRecords_nil (t0 : BitVec 64) (k : ℕ) : batchRecords t0 k [] = [] := rfl

theorem batchRecords_cons (t0 : BitVec 64) (k : ℕ) (m : ProduceMsg) (ms : List ProduceMsg) :
    batchRecords t0 k (m :: ms) = recordOf t0 k m ++ batchRecords t0 (k + 1) ms := rfl

theorem one_le_length_bufWriteVarint (v : BitVec 64) : 1 ≤ (bufWriteVarint v).length :=
  List.length_pos_iff.2 (bufWriteVarint_ne_nil v)

/-- A record has a byte each for `Length`, attributes, the two deltas, the two lengths and
the header count at least. -/
theorem seven_le_length_recordV2 (timestampDelta offsetDelta : BitVec 64)
    (key value : Option (List UInt8)) {binhdrs : List UInt8} (hb : binhdrs ≠ []) :
    7 ≤ (recordV2 timestampDelta offsetDelta key value binhdrs).length := by
  have hbody : 6 ≤ (recordV2Body timestampDelta offsetDelta key value binhdrs).length := by
    have := one_le_length_bufWriteVarint timestampDelta
    have := one_le_length_bufWriteVarint offsetDelta
    have := one_le_length_bufWriteVarint (nullableLen key)
    have := one_le_length_bufWriteVarint (nullableLen value)
    have := List.length_pos_iff.2 hb
    simp only [recordV2Body, List.length_append, List.length_singleton]
    omega
  have := one_le_length_bufWriteVarint
    (BitVec.ofNat 64 (recordV2Body timestampDelta offsetDelta key value binhdrs).length)
  rw [recordV2, List.length_append]
  omega

theorem ProduceMsg.binhdrs_ne_nil (m : ProduceMsg) : m.binhdrs ≠ [] := by
  simp [ProduceMsg.binhdrs, bufWriteVarint_ne_nil]

theorem seven_mul_le_length_batchRecords (t0 : BitVec 64) (k : ℕ) (ms : List ProduceMsg) :
    7 * ms.length ≤ (batchRecords t0 k ms).length := by
  induction ms generalizing k with
  | nil => simp
  | cons m ms ih =>
    have hm := seven_le_length_recordV2 (m.timestamp - t0) (BitVec.ofNat 64 k) m.key m.payload
      m.binhdrs_ne_nil
    rw [batchRecords_cons, List.length_append, List.length_cons]
    have := ih (k + 1)
    simp only [recordOf] at hm ⊢
    omega

/-! ## Fetched messages -/

/-- The bytes of a Kafka bytes field as the reader hands them on: `data[0 .. len)`, `none`
for `NULL`. -/
def KafkapBytes.bytes (kb : KafkapBytes) : Option (List UInt8) :=
  (if kb.len = -1 then none else kb.data).map (·.take kb.bytesLen.toNat)

/-- The key bytes of a fetched message: `rkm_key[0 .. rkm_key_len)`, `none` for `NULL`. -/
def FetchMsg.keyBytes (fm : FetchMsg) : Option (List UInt8) := fm.key.map (·.take fm.keyLen)

/-- The value bytes of a fetched message: `rkm_payload[0 .. rkm_len)`, `none` for `NULL`. -/
def FetchMsg.valueBytes (fm : FetchMsg) : Option (List UInt8) := fm.payload.map (·.take fm.len)

/-- The unparsed header bytes of a fetched message. -/
def FetchMsg.binhdrsBytes (fm : FetchMsg) : Option (List UInt8) :=
  fm.binhdrs.data.map (·.take (i32ToSize fm.binhdrs.len))

/-- The fetched message `fm` stands for a regular record with the given offset, key and
value bytes, create time and header bytes. -/
structure FetchMsg.OfRecord (fm : FetchMsg) (offset : BitVec 64) (key value : Option (List UInt8))
    (timestamp : BitVec 64) (binhdrs : List UInt8) : Prop where
  offset : fm.offset = offset
  key : fm.keyBytes = key
  value : fm.valueBytes = value
  tstype : fm.tstype = .createTime
  timestamp : fm.timestamp = timestamp
  binhdrs : fm.binhdrsBytes = some binhdrs
  regular : fm.control = false

/-- The fetched message `fm` is message `m` of the producer, read from the record at offset
delta `k` of a batch at base offset `B`: its offset, its key and value bytes (`NULL` apart
from empty), its create time, and its header bytes. -/
def FetchMsg.Refetches (fm : FetchMsg) (B : BitVec 64) (k : ℕ) (m : ProduceMsg) : Prop :=
  fm.OfRecord (B + BitVec.ofNat 64 k) m.key m.payload m.timestamp m.binhdrs

/-- The fetched messages `fms` are the messages `ms` read from the records at offset deltas
`k, k + 1, ...`. -/
def Refetched (B : BitVec 64) : ℕ → List FetchMsg → List ProduceMsg → Prop
  | _, [], [] => True
  | k, fm :: fms, m :: ms => fm.Refetches B k m ∧ Refetched B (k + 1) fms ms
  | _, _, _ => False

end Rdkafka
