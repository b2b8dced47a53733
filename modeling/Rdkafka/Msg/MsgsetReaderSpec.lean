import Rdkafka.Msg.MsgsetFormat

/-!
# What the MessageSet v2 reader reads

The reader of `Rdkafka.Msg.MsgsetReader`, run on a shadow buffer that holds a RecordBatch in
the format of `Rdkafka.Msg.MsgsetFormat`.  A record is read field by field
(`msgsetReaderMsgV2_record`): its `Length` gives where it ends, the offset and the
timestamp come back from the deltas, the key and the value come back with `NULL` apart
from empty, and what follows them up to the end is the unparsed headers.  The loop of
`rd_kafka_msgset_reader_msgs_v2` reads the records one after the other
(`msgsV2Loop_batchRecords`), and `rd_kafka_msgset_reader_v2` reads the header, checks the
CRC32C, narrows the reader to the payload and reads the records (`msgsetReaderV2_batch`).
-/

set_option autoImplicit false

namespace Rdkafka

open Leb128

/-! ## Fields -/

theorem setWidth_ofNat_eq (n : ℕ) : (BitVec.ofNat 64 n).setWidth 32 = BitVec.ofNat 32 n := by
  apply BitVec.eq_of_toNat_eq
  simp only [BitVec.toNat_setWidth, BitVec.toNat_ofNat]
  omega

/-- A key or a value the writer wrote, with its length or `-1` for `NULL`, is read back as
a Kafka bytes field with the same bytes. -/
theorem bufReadKbytesVarint_window {data : List UInt8} {p e : ℕ} (he : e ≤ data.length)
    {o : Option (List UInt8)} {t : List UInt8}
    (hbytes : data.drop p = bufWriteVarint (nullableLen o) ++ o.getD [] ++ t)
    (hfit : p + (bufWriteVarint (nullableLen o)).length + (o.getD []).length ≤ e)
    (hlen : (o.getD []).length < 2 ^ 31) :
    ∃ kb, bufReadKbytesVarint (shadowBuf data) (windowSlice p e) =
        some (.ok (kb, windowSlice (p + (bufWriteVarint (nullableLen o)).length +
          (o.getD []).length) e)) ∧
      kb.bytes = o ∧ kb.bytesLen.toNat = (o.getD []).length := by
  have hvar := sliceReadVarint_window_write he (nullableLen o)
    (by rw [hbytes, List.append_assoc]) (by omega)
  have hpos := one_le_length_bufWriteVarint (nullableLen o)
  rw [bufReadKbytesVarint, hvar]
  obtain ⟨k, hk⟩ : ∃ k, (bufWriteVarint (nullableLen o)).length = k + 1 :=
    ⟨_, (Nat.succ_pred_eq_of_pos hpos).symm⟩
  rw [hk] at hfit ⊢
  cases o with
  | none =>
    -- `NULL`: the length is `-1`
    refine ⟨⟨0, none⟩, ?_, rfl, rfl⟩
    simp [nullableLen]
  | some v =>
    simp only [Option.getD_some] at hbytes hfit hlen ⊢
    have hwidth : (nullableLen (some v)).setWidth 32 = BitVec.ofNat 32 v.length :=
      setWidth_ofNat_eq v.length
    have hv : (BitVec.ofNat 32 v.length).toNat = v.length := by
      rw [BitVec.toNat_ofNat]
      omega
    have hne : BitVec.ofNat 32 v.length ≠ -1 := by
      intro h
      have hm1 : (-1 : BitVec 32).toNat = 2 ^ 32 - 1 := by decide
      have := congrArg BitVec.toNat h
      rw [hv, hm1] at this
      omega
    simp only [hwidth, if_neg hne]
    by_cases h0 : v = []
    · -- empty: the field points to `""`
      subst h0
      refine ⟨⟨0, some emptyString⟩, ?_, rfl, rfl⟩
      simp
    · -- the bytes, contiguous in the one segment
      have hv0 : BitVec.ofNat 32 v.length ≠ 0 := by
        intro h
        have := congrArg BitVec.toNat h
        rw [hv] at this
        exact h0 (List.length_eq_zero_iff.1 this)
      have hlen64 : (nullableLen (some v)).toNat = v.length := by
        simp only [nullableLen, BitVec.toNat_ofNat]
        omega
      have hdrop : data.drop (p + (k + 1)) = v ++ t := by
        rw [← hk]
        exact drop_add_length_of_drop_eq (by rw [hbytes, List.append_assoc])
      rw [if_neg hv0, hlen64, sliceEnsureContig_window hfit he]
      refine ⟨⟨BitVec.ofNat 32 v.length, some (data.drop (p + (k + 1)))⟩, rfl, ?_, ?_⟩
      · rw [KafkapBytes.bytes, KafkapBytes.bytesLen, if_neg hne, if_neg hne, hv, hdrop,
          Option.map_some, List.take_left]
      · rw [KafkapBytes.bytesLen, if_neg hne, hv]

/-! ## Records -/

/-- The regular branch of `rd_kafka_msgset_reader_msg_v2` reads the key and the value back,
and the rest of the record as its unparsed headers. -/
theorem msgV2Regular_window {data : List UInt8} {p e : ℕ} (he : e ≤ data.length)
    (he64 : e < 2 ^ 64) {key value : Option (List UInt8)} {binhdrs t : List UInt8}
    (hbytes : data.drop p = bufWriteVarint (nullableLen key) ++ key.getD [] ++
      bufWriteVarint (nullableLen value) ++ value.getD [] ++ binhdrs ++ t)
    (hfit : p + (bufWriteVarint (nullableLen key)).length + (key.getD []).length +
      (bufWriteVarint (nullableLen value)).length + (value.getD []).length + binhdrs.length ≤ e)
    (hkey : (key.getD []).length < 2 ^ 31) (hvalue : (value.getD []).length < 2 ^ 31)
    (hbinhdrs : binhdrs.length < 2 ^ 31) (hdr : MsgsetV2Hdr)
    (hlog : hdr.attributes &&& msgAttrLogAppendTime = 0) {timestampDelta : BitVec 64}
    (hts : ¬hdr.baseTimestamp.saddOverflow timestampDelta) (r : MsgsetReader)
    (hr : r.reader = windowSlice p e) (offset : BitVec 64) :
    ∃ fm, msgV2Regular (shadowBuf data) hdr r
        (p + (bufWriteVarint (nullableLen key)).length + (key.getD []).length +
          (bufWriteVarint (nullableLen value)).length + (value.getD []).length + binhdrs.length)
        0 timestampDelta offset =
        some ({ r with
          reader := windowSlice (p + (bufWriteVarint (nullableLen key)).length +
            (key.getD []).length + (bufWriteVarint (nullableLen value)).length +
            (value.getD []).length + binhdrs.length) e
          rkq := r.rkq ++ [.fetch fm]
          msgcnt := r.msgcnt + 1 }, .noError) ∧
      fm.OfRecord offset key value (hdr.baseTimestamp + timestampDelta) binhdrs := by
  obtain ⟨kbk, hk, hkb, -⟩ := bufReadKbytesVarint_window (p := p) he (o := key)
    (t := bufWriteVarint (nullableLen value) ++ value.getD [] ++ binhdrs ++ t)
    (by simp only [hbytes, List.append_assoc]) (by omega) hkey
  have h1 : data.drop (p + (bufWriteVarint (nullableLen key)).length + (key.getD []).length) =
      bufWriteVarint (nullableLen value) ++ value.getD [] ++ (binhdrs ++ t) := by
    rw [Nat.add_assoc, ← List.length_append]
    exact drop_add_length_of_drop_eq (by simp only [hbytes, List.append_assoc])
  obtain ⟨kbv, hv, hvb, -⟩ := bufReadKbytesVarint_window he h1 (by omega) hvalue
  have h2 := drop_add_length_of_drop_eq h1
  rw [List.length_append, ← Nat.add_assoc] at h2
  have hsub := sizeSub_of_le (a := p + (bufWriteVarint (nullableLen key)).length +
      (key.getD []).length + (bufWriteVarint (nullableLen value)).length +
      (value.getD []).length + binhdrs.length) (Nat.le_add_right _ _) (by omega)
  rw [Nat.add_sub_cancel_left] at hsub
  have hlog8 : (0 : BitVec 8).setWidth 16 &&& msgAttrLogAppendTime = 0 := by decide
  simp only [msgV2Regular, hr, hk, hv, sliceOffset_window, hsub, i32ToSize_sizeToI32 hbinhdrs,
    bufReadPtr_window (show _ + binhdrs.length ≤ e by omega) he, hlog, hlog8, ne_eq,
    not_true_eq_false, or_self, if_false, i64Add_of_not_saddOverflow hts, Option.map_some]
  refine ⟨_, rfl, rfl, hkb, hvb, rfl, rfl, ?_, rfl⟩
  simp [FetchMsg.binhdrsBytes, i32ToSize_sizeToI32 hbinhdrs, h2]

theorem toBytes_one_zero : BigEndian.toBytes 1 (0 : BitVec 8).toNat = [0] := rfl

/-- The attributes the writer gives a batch set neither the control bit nor the
log-append-time bit. -/
theorem attributes_and_of_written {a : BitVec 16} (ha : a = 0 ∨ a = msgsetV2AttrTransactional) :
    a &&& msgsetV2AttrControl = 0 ∧ a &&& msgAttrLogAppendTime = 0 ∧
      a &&& msgAttrCompressionMask = 0 := by
  rcases ha with rfl | rfl <;> decide

/-- **Step.**  `rd_kafka_msgset_reader_msg_v2` reads a record the writer wrote into a fetched
message with the offset and the create time the deltas give. -/
theorem msgsetReaderMsgV2_record (conf : ReaderConf) {data : List UInt8} {p e : ℕ}
    (he : e ≤ data.length) (he64 : e < 2 ^ 64) {timestampDelta offsetDelta : BitVec 64}
    {key value : Option (List UInt8)} {binhdrs t : List UInt8}
    (hbytes : data.drop p = recordV2 timestampDelta offsetDelta key value binhdrs ++ t)
    (hfit : p + (recordV2 timestampDelta offsetDelta key value binhdrs).length ≤ e)
    (hkey : (key.getD []).length < 2 ^ 31) (hvalue : (value.getD []).length < 2 ^ 31)
    (hbinhdrs : binhdrs.length < 2 ^ 31) (hdr : MsgsetV2Hdr)
    (hattr : hdr.attributes = 0 ∨ hdr.attributes = msgsetV2AttrTransactional)
    (hoff : ¬hdr.baseOffset.saddOverflow offsetDelta)
    (hfetch : ¬(hdr.baseOffset + offsetDelta).slt conf.fetchOffset)
    (hts : ¬hdr.baseTimestamp.saddOverflow timestampDelta) (r : MsgsetReader)
    (hr : r.reader = windowSlice p e) :
    ∃ fm, msgsetReaderMsgV2 conf (shadowBuf data) hdr r =
        some ({ r with
          reader := windowSlice (p + (recordV2 timestampDelta offsetDelta key value binhdrs).length) e
          rkq := r.rkq ++ [.fetch fm]
          msgcnt := r.msgcnt + 1 }, .noError) ∧
      fm.OfRecord (hdr.baseOffset + offsetDelta) key value (hdr.baseTimestamp + timestampDelta)
        binhdrs := by
  -- the record is its `Length`, the attributes byte, the two deltas, and what
  -- `msgV2Regular_window` reads
  set body := recordV2Body timestampDelta offsetDelta key value binhdrs with hbody
  set L := (bufWriteVarint (BitVec.ofNat 64 body.length)).length with hL
  have hrec : (recordV2 timestampDelta offsetDelta key value binhdrs).length = L + body.length := by
    rw [recordV2, List.length_append]
  have h0 : data.drop p = bufWriteVarint (BitVec.ofNat 64 body.length) ++ (body ++ t) := by
    rw [hbytes, recordV2, List.append_assoc]
  have h1 : data.drop (p + L) = BigEndian.toBytes 1 (0 : BitVec 8).toNat ++
      (bufWriteVarint timestampDelta ++ (bufWriteVarint offsetDelta ++ (bufWriteVarint (nullableLen key) ++
        key.getD [] ++ bufWriteVarint (nullableLen value) ++ value.getD [] ++ binhdrs ++ t))) := by
    rw [drop_add_length_of_drop_eq h0, toBytes_one_zero, hbody, recordV2Body]
    simp only [List.append_assoc]
  have h2 := drop_add_length_of_drop_eq h1
  have h3 := drop_add_length_of_drop_eq h2
  have h4 := drop_add_length_of_drop_eq h3
  rw [BigEndian.length_toBytes] at h2 h3 h4
  have hbodylen : body.length = 1 + (bufWriteVarint timestampDelta).length +
      (bufWriteVarint offsetDelta).length + (bufWriteVarint (nullableLen key)).length +
      (key.getD []).length + (bufWriteVarint (nullableLen value)).length + (value.getD []).length +
      binhdrs.length := by
    simp only [hbody, recordV2Body, List.length_append, List.length_singleton]
  have hend : sizeAdd (p + L) (BitVec.ofNat 64 body.length).toNat = p + L + body.length := by
    rw [BitVec.toNat_ofNat, Nat.mod_eq_of_lt (by omega), sizeAdd_of_lt (by omega)]
  obtain ⟨hctrl, hlog, -⟩ := attributes_and_of_written hattr
  obtain ⟨fm, hreg, hfm⟩ := msgV2Regular_window he he64 h4 (by omega) hkey hvalue hbinhdrs hdr hlog
    hts { r with reader := windowSlice (p + L + 1 + (bufWriteVarint timestampDelta).length +
      (bufWriteVarint offsetDelta).length) e } rfl (hdr.baseOffset + offsetDelta)
  refine ⟨fm, ?_, hfm⟩
  have hpos : p + L + 1 + (bufWriteVarint timestampDelta).length +
      (bufWriteVarint offsetDelta).length + (bufWriteVarint (nullableLen key)).length +
      (key.getD []).length + (bufWriteVarint (nullableLen value)).length +
      (value.getD []).length + binhdrs.length = p + L + body.length := by
    omega
  rw [hpos] at hreg
  have hread0 : bufReadVarint (shadowBuf data) (windowSlice p e) =
      .ok (BitVec.ofNat 64 body.length, windowSlice (p + L) e) :=
    bufReadVarint_window_write he _ h0 (by omega)
  have hread1 : bufReadI8 (shadowBuf data) (windowSlice (p + L) e) =
      some (.ok (0, windowSlice (p + L + 1) e)) :=
    bufReadInt_window 1 (0 : BitVec 8) h1 (by omega) he
  simp only [msgsetReaderMsgV2, hr, hread0, sliceOffset_window, hend, hread1,
    bufReadVarint_window_write he _ h2 (by omega), bufReadVarint_window_write he _ h3 (by omega),
    i64Add_of_not_saddOverflow hoff, hfetch, hctrl, ne_eq, not_true_eq_false, Bool.false_eq_true,
    if_false, hreg, hrec, ← Nat.add_assoc]

/-- The record of message `m`, with its timestamp delta from `t0`, is one the reader takes
back: key, value and header bytes shorter than `2^31` bytes, and a delta that added back to
`t0` does not overflow. -/
structure ProduceMsg.Readable (t0 : BitVec 64) (m : ProduceMsg) : Prop where
  key : (m.key.getD []).length < 2 ^ 31
  value : (m.payload.getD []).length < 2 ^ 31
  binhdrs : m.binhdrs.length < 2 ^ 31
  timestamp : ¬t0.saddOverflow (m.timestamp - t0)

theorem add_sub_cancel_of_base (t0 t : BitVec 64) : t0 + (t - t0) = t := by
  rw [BitVec.add_comm, BitVec.sub_add_cancel]

/-- **Run.**  The loop of `rd_kafka_msgset_reader_msgs_v2` reads the records of the messages
`ms`, from offset delta `k` on, one after the other up to the end of the payload. -/
theorem msgsV2Loop_batchRecords (conf : ReaderConf) {data : List UInt8}
    (hdata : data.length < 2 ^ 64) (hdr : MsgsetV2Hdr)
    (hattr : hdr.attributes = 0 ∨ hdr.attributes = msgsetV2AttrTransactional) {t0 : BitVec 64}
    (hbase : hdr.baseTimestamp = t0) :
    ∀ (ms : List ProduceMsg) (k p fuel : ℕ) (r : MsgsetReader) {t : List UInt8},
      data.drop p = batchRecords t0 k ms ++ t →
      p + (batchRecords t0 k ms).length ≤ data.length → ms.length < fuel →
      (∀ m ∈ ms, m.Readable t0) →
      (∀ j, k ≤ j → j < k + ms.length → ¬hdr.baseOffset.saddOverflow (BitVec.ofNat 64 j) ∧
        ¬(hdr.baseOffset + BitVec.ofNat 64 j).slt conf.fetchOffset) →
      r.reader = windowSlice p (p + (batchRecords t0 k ms).length) →
      ∃ fms, msgsV2Loop conf (shadowBuf data) hdr fuel r =
          some ({ r with
            reader := windowSlice (p + (batchRecords t0 k ms).length)
              (p + (batchRecords t0 k ms).length)
            rkq := r.rkq ++ fms.map .fetch
            msgcnt := r.msgcnt + ms.length }, .noError) ∧
        Refetched hdr.baseOffset k fms ms
  | _, _, _, 0, _, _, _, _, hfuel, _, _, _ => absurd hfuel (Nat.not_lt_zero _)
  | [], k, p, fuel + 1, r, t, _, _, _, _, _, hr => by
    -- at the end of the payload the loop stops
    simp only [batchRecords_nil, List.length_nil, Nat.add_zero] at hr ⊢
    refine ⟨[], ?_, trivial⟩
    rw [msgsV2Loop, hr, sliceRemains_window, Nat.sub_self, if_pos rfl, ← hr]
    simp
  | m :: ms, k, p, fuel + 1, r, t, hbytes, hfit, hfuel, hread, hoffs, hr => by
    have hm := hread m (List.mem_cons_self ..)
    obtain ⟨hno, hfetch⟩ := hoffs k le_rfl (by simp)
    rw [batchRecords_cons, List.append_assoc] at hbytes
    rw [batchRecords_cons, List.length_append] at hfit hr ⊢
    have hlen := seven_le_length_recordV2 (m.timestamp - t0) (BitVec.ofNat 64 k) m.key m.payload
      m.binhdrs_ne_nil
    simp only [recordOf] at hlen hbytes hfit hr ⊢
    obtain ⟨fm, hstep, hfm⟩ := msgsetReaderMsgV2_record conf
      (e := p + ((recordV2 (m.timestamp - t0) (BitVec.ofNat 64 k) m.key m.payload m.binhdrs).length +
        (batchRecords t0 (k + 1) ms).length)) (by omega) (by omega) hbytes (by omega) hm.key
      hm.value hm.binhdrs hdr hattr hno hfetch (by rw [hbase]; exact hm.timestamp) r hr
    obtain ⟨fms, hrun, hfms⟩ := msgsV2Loop_batchRecords conf hdata hdr hattr hbase ms (k + 1)
      (p + (recordV2 (m.timestamp - t0) (BitVec.ofNat 64 k) m.key m.payload m.binhdrs).length) fuel
      { r with
        reader := windowSlice (p + (recordV2 (m.timestamp - t0) (BitVec.ofNat 64 k) m.key m.payload
          m.binhdrs).length) (p + ((recordV2 (m.timestamp - t0) (BitVec.ofNat 64 k) m.key m.payload
          m.binhdrs).length + (batchRecords t0 (k + 1) ms).length))
        rkq := r.rkq ++ [.fetch fm]
        msgcnt := r.msgcnt + 1 }
      (drop_add_length_of_drop_eq hbytes) (by omega) (by simp at hfuel; omega)
      (fun m' hm' => hread m' (List.mem_cons_of_mem m hm'))
      (fun j hj hj' => hoffs j (by omega) (by simp; omega)) (by dsimp only; rw [Nat.add_assoc])
    refine ⟨fm :: fms, ?_, ?_, hfms⟩
    · have hrem : sliceRemains (shadowBuf data) r.reader ≠ 0 := by
        rw [hr, sliceRemains_window]
        omega
      rw [msgsV2Loop, if_neg hrem, hstep]
      dsimp only
      rw [hrun]
      simp only [List.map_cons, List.length_cons, List.append_assoc, List.singleton_append,
        Nat.add_assoc, Nat.add_comm 1 ms.length]
    · have hts : hdr.baseTimestamp + (m.timestamp - t0) = m.timestamp := by
        rw [hbase]
        exact add_sub_cancel_of_base t0 m.timestamp
      exact ⟨hfm.offset, hfm.key, hfm.value, hfm.tstype, hfm.timestamp.trans hts, hfm.binhdrs,
        hfm.regular⟩

/-! ## The batch -/

/-- The payload of an uncompressed batch, read from the reader narrowed to it: the records,
then the next fetch offset one past the last offset. -/
theorem readerV2Payload_batch (conf : ReaderConf) {data : List UInt8} (hdata : data.length < 2 ^ 64)
    (decompress : MsgsetReader → MsgsetV2Hdr → List UInt8 → ℕ → MsgsetReader × RespErr)
    (hdr : MsgsetV2Hdr) (hattr : hdr.attributes = 0 ∨ hdr.attributes = msgsetV2AttrTransactional)
    {t0 : BitVec 64} (hbase : hdr.baseTimestamp = t0) {ms : List ProduceMsg} {p : ℕ}
    (hbytes : data.drop p = batchRecords t0 0 ms)
    (hlen : p + (batchRecords t0 0 ms).length = data.length) (hread : ∀ m ∈ ms, m.Readable t0)
    (hoffs : ∀ j, j < ms.length → ¬hdr.baseOffset.saddOverflow (BitVec.ofNat 64 j) ∧
      ¬(hdr.baseOffset + BitVec.ofNat 64 j).slt conf.fetchOffset)
    {lastOffset : BitVec 64} (hlast : ¬lastOffset.slt conf.fetchOffset)
    (hnext : ¬lastOffset.saddOverflow 1) (r : MsgsetReader)
    (hr : r.reader = windowSlice p data.length) (haborted : r.abortedTxns = none) :
    ∃ fms, readerV2Payload conf (shadowBuf data) decompress hdr lastOffset
        (batchRecords t0 0 ms).length r =
        some ({ r with
          reader := windowSlice data.length data.length
          rkq := r.rkq ++ fms.map .fetch
          msgcnt := r.msgcnt + ms.length
          nextOffset := lastOffset + 1 }, .noError) ∧
      Refetched hdr.baseOffset 0 fms ms := by
  obtain ⟨reader, rkq, msgcnt, leaderEpoch, nextOffset, ctrlCnt, abortedCnt, abortedTxns⟩ := r
  dsimp only at hr haborted ⊢
  subst hr haborted
  obtain ⟨hctrl, -, hcomp⟩ := attributes_and_of_written hattr
  have hcount := seven_mul_le_length_batchRecords t0 0 ms
  have hne : ms ≠ [] → 0 < (batchRecords t0 0 ms).length := fun h => by
    have := List.length_pos_iff.2 h
    omega
  obtain ⟨fms, hrun, hfms⟩ := msgsV2Loop_batchRecords conf hdata hdr hattr hbase ms 0 p
    ((batchRecords t0 0 ms).length + 1)
    ⟨windowSlice p (p + (batchRecords t0 0 ms).length), rkq, msgcnt, leaderEpoch, nextOffset,
      ctrlCnt, abortedCnt, none⟩
    (t := []) (by rw [List.append_nil, hbytes]) (by omega) (by omega) hread
    (fun j _ hj => hoffs j (by omega)) rfl
  refine ⟨fms, ?_, hfms⟩
  simp only [readerV2Payload, hlast, hctrl, hcomp, ne_eq, not_true_eq_false, Bool.false_eq_true,
    if_false, sliceNarrowRelative_window data
      (show p + (batchRecords t0 0 ms).length ≤ data.length by omega),
    msgsetReaderMsgsV2, sliceRemains_window, Nat.add_sub_cancel_left, hrun,
    i64Add_of_not_saddOverflow hnext, Option.map_some, sliceWiden]
  simp [windowSlice, hlen]

/-! Signed arithmetic on the offsets of a batch at `B` with `B + n ≤ INT64_MAX`. -/

theorem toInt_ofNat_of_two_mul_lt {w n : ℕ} (h : 2 * n < 2 ^ w) : (BitVec.ofNat w n).toInt = n := by
  have hlt : n < 2 ^ w := by omega
  rw [BitVec.toInt_eq_toNat_cond, BitVec.toNat_ofNat, Nat.mod_eq_of_lt hlt, if_pos h]

/-- The offset `B + j` of each record does not overflow and is at least the fetch position. -/
theorem offset_ok_of_le {B fetch : BitVec 64} {n : ℕ} (hn : n < 2 ^ 31)
    (hBn : B.toInt + n ≤ 2 ^ 63 - 1) (hfetch : fetch.sle B = true) {j : ℕ} (hj : j ≤ n) :
    ¬B.saddOverflow (BitVec.ofNat 64 j) ∧ ¬(B + BitVec.ofNat 64 j).slt fetch := by
  have hB := BitVec.le_toInt B
  have hj' : (BitVec.ofNat 64 j).toInt = j := toInt_ofNat_of_two_mul_lt (by omega)
  have hno : ¬B.saddOverflow (BitVec.ofNat 64 j) := by
    simp only [BitVec.saddOverflow, hj', Bool.or_eq_true, decide_eq_true_eq, not_or, not_le,
      not_lt]
    omega
  refine ⟨hno, ?_⟩
  rw [BitVec.sle_iff_toInt_le] at hfetch
  rw [BitVec.slt_iff_toInt_lt, BitVec.toInt_add_of_not_saddOverflow hno, hj']
  omega

/-- The next fetch offset, one past the last offset `B + (n - 1)`, does not overflow. -/
theorem next_ok {B : BitVec 64} {n : ℕ} (hn : n < 2 ^ 31) (hn1 : 1 ≤ n)
    (hBn : B.toInt + n ≤ 2 ^ 63 - 1) : ¬(B + BitVec.ofNat 64 (n - 1)).saddOverflow 1 := by
  have hB := BitVec.le_toInt B
  have hj' : (BitVec.ofNat 64 (n - 1)).toInt = (n - 1 : ℕ) := toInt_ofNat_of_two_mul_lt (by omega)
  have hno : ¬B.saddOverflow (BitVec.ofNat 64 (n - 1)) := by
    simp only [BitVec.saddOverflow, hj', Bool.or_eq_true, decide_eq_true_eq, not_or, not_le,
      not_lt]
    omega
  have h1 : (1 : BitVec 64).toInt = 1 := by decide
  simp only [BitVec.saddOverflow, BitVec.toInt_add_of_not_saddOverflow hno, hj', h1,
    Bool.or_eq_true, decide_eq_true_eq, not_or, not_le, not_lt]
  omega

theorem add_ofNat_pred_add_one (B : BitVec 64) {n : ℕ} (hn : 1 ≤ n) :
    B + BitVec.ofNat 64 (n - 1) + 1 = B + BitVec.ofNat 64 n := by
  rw [BitVec.add_assoc, show (1 : BitVec 64) = BitVec.ofNat 64 1 from rfl, ← BitVec.ofNat_add,
    Nat.sub_add_cancel hn]

/-- `Length` counts the header after it, 49 bytes, and the records. -/
theorem MsgsetV2Hdr.Finalized.length_eq {hdr : MsgsetV2Hdr} {n : ℕ} {t0 : BitVec 64}
    {recs : List UInt8} (hfin : hdr.Finalized n t0 recs) :
    hdr.length = sizeToI32 (49 + recs.length) := by
  rw [hfin.length, sizeToI32]
  apply BitVec.eq_of_toNat_eq
  simp only [msgsetV2Size]
  simp [BitVec.toNat_sub]
  omega

/-- A field the writer wrote in network byte order is read back, and the bytes after it come
next. -/
theorem bufReadInt_window_field {data : List UInt8} {p e : ℕ} (he : e ≤ data.length) (w : ℕ)
    (v : BitVec (8 * w)) {t : List UInt8} (hbytes : data.drop p = intBytes w v ++ t)
    (hlen : p + w ≤ e) :
    bufReadInt w (shadowBuf data) (windowSlice p e) = some (.ok (v, windowSlice (p + w) e)) ∧
      data.drop (p + w) = t := by
  have hnext := drop_add_length_of_drop_eq hbytes
  rw [length_intBytes] at hnext
  exact ⟨bufReadInt_window w v hbytes hlen he, hnext⟩

/-- The header fields after the CRC: the last offset and the payload size they give, and the
payload. -/
theorem readerV2Fields_batch (conf : ReaderConf) {data : List UInt8}
    (decompress : MsgsetReader → MsgsetV2Hdr → List UInt8 → ℕ → MsgsetReader × RespErr)
    {hdr : MsgsetV2Hdr} {ms : List ProduceMsg} {t0 : BitVec 64}
    (hfin : hdr.Finalized ms.length t0 (batchRecords t0 0 ms)) (hne : ms ≠ [])
    (hsize : msgsetV2Size + (batchRecords t0 0 ms).length < 2 ^ 31)
    (hdata : data = hdr.bytes ++ batchRecords t0 0 ms) (hread : ∀ m ∈ ms, m.Readable t0)
    (hBn : hdr.baseOffset.toInt + ms.length ≤ 2 ^ 63 - 1)
    (hfetch : conf.fetchOffset.sle hdr.baseOffset = true) (r : MsgsetReader)
    (hr : r.reader = windowSlice 21 data.length) (haborted : r.abortedTxns = none) :
    ∃ fms, readerV2Fields conf (shadowBuf data) decompress
        ⟨hdr.baseOffset, hdr.length, hdr.partitionLeaderEpoch, hdr.magicByte, hdr.crc, 0, 0, 0, 0, 0,
          0, 0, 0⟩ 12 r =
        some ({ r with
          reader := windowSlice data.length data.length
          rkq := r.rkq ++ fms.map .fetch
          msgcnt := r.msgcnt + ms.length
          nextOffset := hdr.baseOffset + BitVec.ofNat 64 ms.length }, .noError) ∧
      Refetched hdr.baseOffset 0 fms ms := by
  have hE : data.length = 61 + (batchRecords t0 0 ms).length := by
    rw [hdata, List.length_append, MsgsetV2Hdr.length_bytes]
    rfl
  have hcount := seven_mul_le_length_batchRecords t0 0 ms
  have hn1 : 1 ≤ ms.length := List.length_pos_iff.2 hne
  have hn : ms.length < 2 ^ 31 := by
    simp only [msgsetV2Size] at hsize
    omega
  have hdata64 : data.length < 2 ^ 64 := by omega
  -- the fields from `Attributes` to `RecordCount`, one after the other
  have d21 : data.drop 21 = intBytes 2 hdr.attributes ++ (intBytes 4 hdr.lastOffsetDelta ++
      (intBytes 8 hdr.baseTimestamp ++ (intBytes 8 hdr.maxTimestamp ++ (intBytes 8 hdr.pid ++
      (intBytes 2 hdr.producerEpoch ++ (intBytes 4 hdr.baseSequence ++ (intBytes 4 hdr.recordCount ++
      batchRecords t0 0 ms))))))) := by
    rw [hdata, MsgsetV2Hdr.bytes_eq, MsgsetV2Hdr.crcBytes_eq]
    simp [List.drop_append, List.drop_eq_nil_of_le]
  obtain ⟨r1, d23⟩ := bufReadInt_window_field le_rfl 2 hdr.attributes d21 (by omega)
  obtain ⟨r2, d27⟩ := bufReadInt_window_field le_rfl 4 hdr.lastOffsetDelta d23 (by omega)
  obtain ⟨r3, d35⟩ := bufReadInt_window_field le_rfl 8 hdr.baseTimestamp d27 (by omega)
  obtain ⟨r4, d43⟩ := bufReadInt_window_field le_rfl 8 hdr.maxTimestamp d35 (by omega)
  obtain ⟨r5, d51⟩ := bufReadInt_window_field le_rfl 8 hdr.pid d43 (by omega)
  obtain ⟨r6, d53⟩ := bufReadInt_window_field le_rfl 2 hdr.producerEpoch d51 (by omega)
  obtain ⟨r7, d57⟩ := bufReadInt_window_field le_rfl 4 hdr.baseSequence d53 (by omega)
  obtain ⟨r8, d61⟩ := bufReadInt_window_field le_rfl 4 hdr.recordCount d57 (by omega)
  -- `LastOffset` and the payload size
  have hlod : hdr.lastOffsetDelta.signExtend 64 = BitVec.ofNat 64 (ms.length - 1) := by
    rw [hfin.lastOffsetDelta, signExtend_ofNat_of_lt (by omega)]
  have hlength := hfin.length_eq
  have h49 : sizeSub 61 12 = 49 := rfl
  have hpayload : sizeSub (i32ToSize hdr.length) (sizeSub 61 12) = (batchRecords t0 0 ms).length := by
    rw [hlength, i32ToSize_sizeToI32 (by simp only [msgsetV2Size] at hsize; omega), h49,
      sizeSub_of_le (by omega) (by omega)]
    omega
  obtain ⟨hno, hfetchLast⟩ := offset_ok_of_le hn hBn hfetch (Nat.sub_le ms.length 1)
  obtain ⟨fms, hpay, hfms⟩ := readerV2Payload_batch conf hdata64 decompress hdr hfin.attributes
    hfin.baseTimestamp (p := 61) (by rw [d61]) (by omega) hread
    (fun j hj => offset_ok_of_le hn hBn hfetch hj.le) hfetchLast (next_ok hn hn1 hBn)
    { r with reader := windowSlice 61 data.length } rfl haborted
  refine ⟨fms, ?_, hfms⟩
  simp only [readerV2Fields, hr, bufReadI16, bufReadI32, bufReadI64, r1, r2, r3, r4, r5, r6, r7, r8,
    hlod, i64Add_of_not_saddOverflow hno, sliceOffset_window, sliceRemains_window, hpayload,
    Nat.reduceAdd]
  rw [if_neg (by omega), ← add_ofNat_pred_add_one _ hn1]
  exact hpay

/-- **Batch.**  `rd_kafka_msgset_reader_v2` with `check.crcs` on a RecordBatch in the
writer's format: the CRC32C matches, the records are read into fetched messages in order,
and the next fetch offset is one past the last offset. -/
theorem msgsetReaderV2_batch (conf : ReaderConf) (hcrcs : conf.checkCrcs = true)
    (decompress : MsgsetReader → MsgsetV2Hdr → List UInt8 → ℕ → MsgsetReader × RespErr)
    {data : List UInt8} {hdr : MsgsetV2Hdr} {ms : List ProduceMsg} {t0 : BitVec 64}
    (hdata : data = hdr.bytes ++ batchRecords t0 0 ms)
    (hfin : hdr.Finalized ms.length t0 (batchRecords t0 0 ms)) (hne : ms ≠ [])
    (hsize : msgsetV2Size + (batchRecords t0 0 ms).length < 2 ^ 31)
    (hread : ∀ m ∈ ms, m.Readable t0) (hBn : hdr.baseOffset.toInt + ms.length ≤ 2 ^ 63 - 1)
    (hfetch : conf.fetchOffset.sle hdr.baseOffset = true) (r : MsgsetReader)
    (hr : r.reader = windowSlice 0 data.length) (haborted : r.abortedTxns = none) :
    ∃ fms, msgsetReaderV2 conf (shadowBuf data) decompress r =
        some ({ r with
          reader := windowSlice data.length data.length
          leaderEpoch := hdr.partitionLeaderEpoch
          rkq := r.rkq ++ fms.map .fetch
          msgcnt := r.msgcnt + ms.length
          nextOffset := hdr.baseOffset + BitVec.ofNat 64 ms.length }, .noError) ∧
      Refetched hdr.baseOffset 0 fms ms := by
  have hE : data.length = 61 + (batchRecords t0 0 ms).length := by
    rw [hdata, List.length_append, MsgsetV2Hdr.length_bytes]
    rfl
  have hL : (batchRecords t0 0 ms).length < 2 ^ 31 - 61 := by
    simp only [msgsetV2Size] at hsize
    omega
  -- the fields up to the CRC
  have d0 : data.drop 0 = intBytes 8 hdr.baseOffset ++ (intBytes 4 hdr.length ++
      (intBytes 4 hdr.partitionLeaderEpoch ++ (intBytes 1 hdr.magicByte ++ (intBytes 4 hdr.crc ++
      (hdr.crcBytes ++ batchRecords t0 0 ms))))) := by
    rw [List.drop_zero, hdata, MsgsetV2Hdr.bytes_eq]
    simp only [List.append_assoc]
  obtain ⟨r1, d8⟩ := bufReadInt_window_field le_rfl 8 hdr.baseOffset d0 (by omega)
  obtain ⟨r2, d12⟩ := bufReadInt_window_field le_rfl 4 hdr.length d8 (by omega)
  obtain ⟨r3, d16⟩ := bufReadInt_window_field le_rfl 4 hdr.partitionLeaderEpoch d12 (by omega)
  obtain ⟨r4, d17⟩ := bufReadInt_window_field le_rfl 1 hdr.magicByte d16 (by omega)
  obtain ⟨r5, d21⟩ := bufReadInt_window_field le_rfl 4 hdr.crc d17 (by omega)
  -- `Length` passes its check and gives the size the CRC covers
  have hlength := hfin.length_eq
  have hlenok : ¬hdr.length.slt (BitVec.ofNat 32 (msgsetV2Size - 8 - 4)) := by
    rw [hlength, sizeToI32, BitVec.slt_iff_toInt_lt, toInt_ofNat_of_two_mul_lt (by omega),
      toInt_ofNat_of_two_mul_lt (by simp only [msgsetV2Size]; omega)]
    simp only [msgsetV2Size]
    omega
  have hcrcLen : i32ToSize (hdr.length - 4 - 1 - 4) = 40 + (batchRecords t0 0 ms).length := by
    have h9 : hdr.length - 4 - 1 - 4 = sizeToI32 (40 + (batchRecords t0 0 ms).length) := by
      rw [hlength, sizeToI32, sizeToI32]
      apply BitVec.eq_of_toNat_eq
      simp [BitVec.toNat_sub]
      omega
    rw [h9, i32ToSize_sizeToI32 (by omega)]
  have hcalc : sliceCrc32c (shadowBuf data)
      (windowSlice 21 (21 + (40 + (batchRecords t0 0 ms).length))) = some hdr.crc := by
    rw [sliceCrc32c_window (by omega) (by omega), Nat.add_sub_cancel_left, d21, hfin.crc,
      List.take_of_length_le (by simp)]
  obtain ⟨fms, hfields, hfms⟩ := readerV2Fields_batch conf decompress hfin hne hsize hdata hread
    hBn hfetch { r with reader := windowSlice 21 data.length, leaderEpoch := hdr.partitionLeaderEpoch }
    rfl haborted
  refine ⟨fms, ?_, hfms⟩
  simp only [msgsetReaderV2, hr, bufReadI64, bufReadI32, bufReadI8, r1, r2, r3, r4, r5,
    Nat.reduceAdd, sliceOffset_window, hlenok, Bool.false_eq_true, if_false, readerV2Crc, hcrcs,
    Bool.not_true, hcrcLen, sliceNarrowCopyRelative_window data
      (show 21 + (40 + (batchRecords t0 0 ms).length) ≤ data.length by omega), hcalc, ne_eq,
    not_true_eq_false]
  exact hfields

end Rdkafka
