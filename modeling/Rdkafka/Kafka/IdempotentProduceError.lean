import Rdkafka.Msg.MsgsetWriter
import Rdkafka.Partition.RetryMsgq
import Rdkafka.Kafka.Err

/-!
# Errors of the idempotent producer

This file models `rd_kafka_handle_idempotent_Produce_error` of `src/rdkafka_request.c`, which
decides what happens to a ProduceRequest batch of the idempotent producer that failed with
one of the errors only that producer gets.  Of an `OUT_OF_ORDER_SEQUENCE_NUMBER` it compares
the batch's base sequence with the next sequence the partition expects to be acknowledged:
equal is a fatal desynchronisation, greater is a request that failed only because an
earlier one did (the epoch is bumped and the batch retried), and smaller is a fatal rewound
sequence.

Sequences are 31-bit and wrap (`rd_kafka_seq_wrap`, `Rdkafka.Msg.MsgsetWriter`), but the
comparison is a plain difference of the two `int32_t`s (`handleIdempotentProduceError_outOfOrder`),
so a batch just past the wrap is taken for a rewound one
(`handleIdempotentProduceError_wrapped_seq`).

The log messages, and the last partition error they print, are not modelled; the fatal
error, the epoch bump and the abortable transaction error are kept as what the handler
raised.
-/

set_option autoImplicit false

namespace Rdkafka

/-- `struct rd_kafka_Produce_err`: the error state of a failed ProduceRequest. -/
structure ProduceErr where
  /-- `err`. -/
  err : KafkaErr
  /-- `actions`. -/
  actions : ErrActions
  /-- `incr_retry`. -/
  incrRetry : Int
  /-- `status`. -/
  status : MsgStatus
  /-- `next_ack_seq`, an `int32_t`. -/
  nextAckSeq : BitVec 32
  /-- `next_err_seq`, an `int32_t`. -/
  nextErrSeq : BitVec 32
  /-- `update_next_ack`. -/
  updateNextAck : Bool
  /-- `update_next_err`. -/
  updateNextErr : Bool
  /-- `rktp_pid`, the partition's current PID. -/
  rktpPid : Pid
  deriving DecidableEq, Repr

/-- What the handler reads of the batch: its PID and base sequence, and of its first and last
messages the retry count, `last_msgid` (0 when not set) and msgid. -/
structure IdempBatch where
  /-- `batch->pid`. -/
  pid : Pid
  /-- `batch->first_seq`, an `int32_t`. -/
  firstSeq : BitVec 32
  /-- `firstmsg->rkm_u.producer.retries`. -/
  firstRetries : Int
  /-- `firstmsg->rkm_u.producer.last_msgid`. -/
  firstLastMsgid : ℕ
  /-- `lastmsg->rkm_u.producer.msgid`. -/
  lastMsgid : ℕ
  deriving DecidableEq, Repr

/-- What `rd_kafka_handle_idempotent_Produce_error` leaves: the error state, the first
message's `last_msgid`, and what it raised. -/
structure IdempOutcome where
  /-- `*perr`. -/
  perr : ProduceErr
  /-- `firstmsg->rkm_u.producer.last_msgid`. -/
  firstLastMsgid : ℕ
  /-- The error of `rd_kafka_idemp_set_fatal_error`, if called. -/
  fatalError : Option KafkaErr
  /-- Whether `rd_kafka_idemp_drain_epoch_bump` was called. -/
  epochBump : Bool
  /-- Whether `rd_kafka_txn_set_abortable_error_with_bump` was called. -/
  abortableError : Bool
  deriving DecidableEq, Repr

/-- `perr` as the handler sets it for a failure it gives up on, or retries: the actions,
status and which of the next sequences to update. -/
def ProduceErr.decide (perr : ProduceErr) (actions : ErrActions) (status : MsgStatus)
    (updateNextAck updateNextErr : Bool) : ProduceErr :=
  { perr with actions, status, updateNextAck, updateNextErr }

/-- The `OUT_OF_ORDER_SEQUENCE_NUMBER` case, by `r = batch->first_seq - perr->next_ack_seq`:
the error state, the fatal error and whether the epoch is bumped. -/
def outOfOrderOutcome (perr : ProduceErr) (r : Int) : ProduceErr × Option KafkaErr × Bool :=
  if r = 0 then
    -- head-of-line request: producer and broker are out of sync
    (perr.decide errActionPermanent .possiblyPersisted false true, some perr.err, false)
  else if r > 0 then
    -- skipped sequence numbers after an earlier failed request
    ({ perr.decide errActionRetry .notPersisted false true with incrRetry := 0 }, none, true)
  else
    -- rewound sequence number
    (perr.decide errActionPermanent .possiblyPersisted false false, some perr.err, false)

/-- `rd_kafka_handle_idempotent_Produce_error(rkb, batch, perr)` for a non-empty batch, in a
transactional producer or not; `none` is the failed `rd_assert` on `last_msgid`. -/
def handleIdempotentProduceError (transactional : Bool) (batch : IdempBatch)
    (perr : ProduceErr) : Option IdempOutcome :=
  if batch.firstLastMsgid ≠ 0 ∧ batch.firstLastMsgid ≠ batch.lastMsgid then none
  else
    let lastMsgid := if batch.firstLastMsgid ≠ 0 then batch.firstLastMsgid else batch.lastMsgid
    -- no retry across PIDs
    if batch.pid ≠ perr.rktpPid then
      some ⟨{ perr with actions := errActionPermanent, status := .possiblyPersisted },
        lastMsgid, none, false, false⟩
    else
      match perr.err with
      | .outOfOrderSequenceNumber =>
        (CInt.sub 32 batch.firstSeq.toInt perr.nextAckSeq.toInt).map fun r =>
          let (perr, fatal, bump) := outOfOrderOutcome perr r
          ⟨perr, lastMsgid, fatal, bump, false⟩
      | .duplicateSequenceNumber =>
        -- an earlier send succeeded: delivered
        some ⟨{ perr.decide errActionNone .persisted true true with err := .noError },
          lastMsgid, none, false, false⟩
      | .unknownProducerId =>
        if transactional then
          some ⟨{ perr.decide errActionPermanent .notPersisted false true with incrRetry := 0 },
            lastMsgid, none, true, true⟩
        else if batch.firstRetries = 0 ∧ perr.nextErrSeq = batch.firstSeq then
          some ⟨{ perr.decide errActionRetry .notPersisted false true with incrRetry := 0 },
            lastMsgid, none, true, false⟩
        else
          some ⟨perr.decide errActionPermanent .possiblyPersisted false true, lastMsgid,
            some perr.err, false, false⟩
      | _ => some ⟨perr, lastMsgid, none, false, false⟩

/-! ## Sequence classification -/

/-- **The classification is not wrap-safe.**  A partition that expects sequence
`2^31 - 10` next, and a later batch at sequence 5, just past the wrap (15 ahead modulo
`2^31`): the handler raises the fatal "rewound sequence" error.  The same situation with
every sequence shifted by 10, expecting 0 with the batch at 15, is retried after an epoch
bump. -/
theorem handleIdempotentProduceError_wrapped_seq :
    (handleIdempotentProduceError false ⟨⟨0, 0⟩, 5, 0, 0, 7⟩
        ⟨.outOfOrderSequenceNumber, errActionNone, 1, .notPersisted, 2147483638, 2147483638,
          true, true, ⟨0, 0⟩⟩).map (fun o => (o.fatalError, o.epochBump)) =
      some (some .outOfOrderSequenceNumber, false) ∧
    (handleIdempotentProduceError false ⟨⟨0, 0⟩, 15, 0, 0, 7⟩
        ⟨.outOfOrderSequenceNumber, errActionNone, 1, .notPersisted, 0, 0, true, true,
          ⟨0, 0⟩⟩).map (fun o => (o.fatalError, o.epochBump)) =
      some (none, true) := by
  constructor <;> decide

end Rdkafka
