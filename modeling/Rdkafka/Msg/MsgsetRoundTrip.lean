import Rdkafka.Msg.MsgsetWriterSpec
import Rdkafka.Msg.MsgsetReaderSpec

/-!
# Produce-to-fetch round trip of a RecordBatch

The writer of `Rdkafka.Msg.MsgsetWriterSpec` and the reader of `Rdkafka.Msg.MsgsetReaderSpec`
meet in the format of `Rdkafka.Msg.MsgsetFormat`.  The broker gives the batch its base offset
`B` by overwriting `BaseOffset`, which the CRC does not cover; the reader then reads back the
messages of the batch in order, the one at offset delta `i` at offset `B + i`
(`msgsetCreateProduceRequest_readerV2`).

The offsets are `int64_t`: the reader computes `LastOffset = BaseOffset + LastOffsetDelta`
and the next fetch offset `LastOffset + 1`, so the round trip needs `B + n ≤ INT64_MAX` for
a batch of `n` messages.  Above that the additions overflow and the reader does not
return.
-/

set_option autoImplicit false

namespace Rdkafka

/-- The upper end of the range of `message.max.bytes` in `rdkafka_conf.c`. -/
def maxMsgSizeMax : ℕ := 1000000000

/-! ## What the reader needs of a written message -/

theorem length_fields_le_recordOf (t0 : BitVec 64) (k : ℕ) (m : ProduceMsg) :
    (m.key.getD []).length + (m.payload.getD []).length + m.binhdrs.length ≤
      (recordOf t0 k m).length := by
  simp only [recordOf, recordV2, recordV2Body, List.length_append, List.length_singleton]
  omega

theorem exists_recordOf_le_batchRecords (t0 : BitVec 64) {m : ProduceMsg} :
    ∀ {k : ℕ} {ms : List ProduceMsg}, m ∈ ms →
      ∃ k', (recordOf t0 k' m).length ≤ (batchRecords t0 k ms).length
  | k, _ :: _, .head _ => ⟨k, by rw [batchRecords_cons, List.length_append]; omega⟩
  | k, _ :: _, .tail _ hm => by
    obtain ⟨k', hk'⟩ := exists_recordOf_le_batchRecords t0 (k := k + 1) hm
    exact ⟨k', by rw [batchRecords_cons, List.length_append]; omega⟩

/-- The writer computed the timestamp delta without overflow, so the reader adds it back to
the base timestamp without overflow. -/
theorem not_saddOverflow_sub_of_not_ssubOverflow {t t0 : BitVec 64} (h : ¬t.ssubOverflow t0) :
    ¬t0.saddOverflow (t - t0) := by
  have hsub := BitVec.toInt_sub_of_not_ssubOverflow (by simpa using h)
  have ht := BitVec.toInt_lt (x := t)
  have ht' := BitVec.le_toInt (x := t)
  simp only [BitVec.saddOverflow, hsub, Bool.or_eq_true, decide_eq_true_eq, not_or, not_le,
    not_lt]
  omega

/-- A message of a batch of records shorter than `2^31` bytes, whose timestamp delta the
writer computed, is one the reader reads back. -/
theorem ProduceMsg.readable_of_mem {t0 : BitVec 64} {k : ℕ} {ms : List ProduceMsg}
    {m : ProduceMsg} (hm : m ∈ ms) (hlen : (batchRecords t0 k ms).length < 2 ^ 31)
    (hts : ¬m.timestamp.ssubOverflow t0) : m.Readable t0 := by
  obtain ⟨k', hk'⟩ := exists_recordOf_le_batchRecords t0 (k := k) hm
  have hfields := length_fields_le_recordOf t0 k' m
  exact ⟨by omega, by omega, by omega, not_saddOverflow_sub_of_not_ssubOverflow hts⟩

/-! ## The round trip -/

/-- **Round trip.**  A ProduceRequest built from messages `rd_kafka_msg_new0` accepted holds
a RecordBatch of the first messages of the queue.  With its `BaseOffset` overwritten by any
`B` that leaves room for the batch's offsets, `rd_kafka_msgset_reader_v2` with `check.crcs`
and the fetch position at most `B` reads it without error: it enqueues one message for each
message of the batch, in order, and the next fetch offset is one past the last. -/
theorem msgsetCreateProduceRequest_readerV2 {conf : WriterConf} {pre : List UInt8} {pid : Pid}
    {epochBaseMsgid : ℕ} {rkmq : List ProduceMsg} {w : MsgsetWriter} {q : List ProduceMsg}
    (hmax : conf.maxMsgSize ≤ maxMsgSizeMax) (hq : ∀ m ∈ rkmq, m.Writable conf.maxMsgSize)
    (h : msgsetCreateProduceRequest conf pre pid epochBaseMsgid rkmq = some (w, q))
    (B : BitVec 64) (hB : B.toInt + w.batch.length ≤ 2 ^ 63 - 1) (rconf : ReaderConf)
    (hcrcs : rconf.checkCrcs = true) (hfetch : rconf.fetchOffset.sle B = true)
    (decompress : MsgsetReader → MsgsetV2Hdr → List UInt8 → ℕ → MsgsetReader × RespErr)
    (r : MsgsetReader) (hr : r.reader = windowSlice 0 w.recordBatch.length)
    (haborted : r.abortedTxns = none) :
    rkmq = w.batch ++ q ∧ ∃ r' fms,
      msgsetReaderV2 rconf (shadowBuf (w.recordBatch.overwrite 0 (intBytes 8 B))) decompress r =
        some (r', .noError) ∧
      r'.rkq = r.rkq ++ fms.map .fetch ∧ r'.nextOffset = B + BitVec.ofNat 64 w.batch.length ∧
      Refetched B 0 fms w.batch := by
  obtain ⟨hq', hne, hsize, hts, hdr, hbatch, hfin⟩ :=
    msgsetCreateProduceRequest_spec (by unfold maxMsgSizeMax at hmax; omega) hq h
  have hdata : w.recordBatch.overwrite 0 (intBytes 8 B) =
      { hdr with baseOffset := B }.bytes ++ batchRecords w.firstmsgTimestamp 0 w.batch := by
    rw [hbatch, MsgsetV2Hdr.overwrite_baseOffset]
  have hlen : (w.recordBatch.overwrite 0 (intBytes 8 B)).length = w.recordBatch.length := by
    refine List.length_overwrite ?_
    rw [hbatch, List.length_append, MsgsetV2Hdr.length_bytes, length_intBytes]
    simp only [msgsetV2Size]
    omega
  have hL : (batchRecords w.firstmsgTimestamp 0 w.batch).length < 2 ^ 31 - msgsetV2Size := by
    unfold maxMsgSizeMax at hmax
    simp only [msgsetV2Size]
    omega
  have hread : ∀ m ∈ w.batch, m.Readable w.firstmsgTimestamp := fun m hm =>
    ProduceMsg.readable_of_mem (k := 0) hm (by omega) (hts m hm)
  obtain ⟨fms, hrun, hfms⟩ := msgsetReaderV2_batch rconf hcrcs decompress hdata
    (hfin.withBaseOffset B) hne (by omega) hread hB hfetch r (by rw [hr, hlen]) haborted
  exact ⟨hq', _, fms, hrun, rfl, rfl, hfms⟩

theorem msgsetCreateProduceRequest_readerV2_one_message :
    ∃ w q, msgsetCreateProduceRequest ⟨1000, 1000, 10, false, 0⟩ [] ⟨0, 0⟩ 0
        [⟨1, 0, some [1], some [2], none, 5, 0⟩] = some (w, q) ∧
      [⟨1, 0, some [1], some [2], none, 5, 0⟩] = w.batch ++ q ∧ ∃ r' fms,
        msgsetReaderV2 ⟨true, 0, false⟩ (shadowBuf (w.recordBatch.overwrite 0 (intBytes 8 (0 : BitVec 64))))
          (fun r _ _ _ => (r, .noError)) (msgsetReaderInit (windowSlice 0 w.recordBatch.length) none) =
          some (r', .noError) ∧
        r'.rkq = [] ++ fms.map .fetch ∧ r'.nextOffset = 0 + BitVec.ofNat 64 w.batch.length ∧
        Refetched 0 0 fms w.batch := by
  have hsome : (msgsetCreateProduceRequest ⟨1000, 1000, 10, false, 0⟩ [] ⟨0, 0⟩ 0
      [⟨1, 0, some [1], some [2], none, 5, 0⟩]).isSome := by decide
  have hq : ∀ m ∈ [(⟨1, 0, some [1], some [2], none, 5, 0⟩ : ProduceMsg)], m.Writable 1000 := by
    intro m hm
    rw [List.mem_singleton] at hm
    subst hm
    exact ⟨by decide, fun _ h => nomatch h⟩
  exact ⟨_, _, (Option.some_get hsome).symm, msgsetCreateProduceRequest_readerV2 (by decide) hq
    (Option.some_get hsome).symm 0 (by decide +kernel) _ rfl (by decide) _ _ rfl rfl⟩

/-- At `B = INT64_MAX` a batch of two messages has no offset for its second message: the
reader's `LastOffset = BaseOffset + LastOffsetDelta` overflows and it does not return. -/
theorem msgsetCreateProduceRequest_readerV2_int64Max :
    ∃ w q, msgsetCreateProduceRequest ⟨1000, 1000, 10, false, 0⟩ [] ⟨0, 0⟩ 0
        [⟨1, 0, some [1], some [2], none, 5, 0⟩, ⟨2, 0, none, some [], none, 6, 0⟩] =
        some (w, q) ∧
      w.batch.length = 2 ∧
      msgsetReaderV2 ⟨true, 0, false⟩ (shadowBuf (w.recordBatch.overwrite 0 (intBytes 8 int64Max)))
        (fun r _ _ _ => (r, .noError)) (msgsetReaderInit (windowSlice 0 w.recordBatch.length) none) =
        none := by
  have hsome : (msgsetCreateProduceRequest ⟨1000, 1000, 10, false, 0⟩ [] ⟨0, 0⟩ 0
      [⟨1, 0, some [1], some [2], none, 5, 0⟩, ⟨2, 0, none, some [], none, 6, 0⟩]).isSome := by
    decide
  refine ⟨_, _, (Option.some_get hsome).symm, ?_⟩
  decide +kernel

end Rdkafka
