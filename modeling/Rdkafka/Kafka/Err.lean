/-!
# Error codes and error actions

The error codes `rd_kafka_resp_err_t` of `src/rdkafka.h` that the modelled consumer,
producer and metadata cache code tests for by name, and `rd_kafka_err_action` of `src/rdkafka_request.c`,
which classifies a request error into the actions the caller takes: refresh the metadata,
retry the request, or give up.

Every other code is `other code`, with its numeric value; the modelled code treats those
alike, through the `default` branches of its `switch` statements.
-/

set_option autoImplicit false

namespace Rdkafka

/-- `rd_kafka_resp_err_t`: the codes the modelled code names; `other` is any other code. -/
inductive KafkaErr where
  /-- `RD_KAFKA_RESP_ERR_NO_ERROR`. -/
  | noError
  /-- `RD_KAFKA_RESP_ERR__BAD_MSG`. -/
  | badMsg
  /-- `RD_KAFKA_RESP_ERR__TRANSPORT`. -/
  | transport
  /-- `RD_KAFKA_RESP_ERR__DESTROY`. -/
  | destroy
  /-- `RD_KAFKA_RESP_ERR__SSL`. -/
  | ssl
  /-- `RD_KAFKA_RESP_ERR__TIMED_OUT`. -/
  | timedOut
  /-- `RD_KAFKA_RESP_ERR__TIMED_OUT_QUEUE`. -/
  | timedOutQueue
  /-- `RD_KAFKA_RESP_ERR__UNDERFLOW`. -/
  | underflow
  /-- `RD_KAFKA_RESP_ERR__WAIT_COORD`. -/
  | waitCoord
  /-- `RD_KAFKA_RESP_ERR__IN_PROGRESS`. -/
  | inProgress
  /-- `RD_KAFKA_RESP_ERR__NO_OFFSET`. -/
  | noOffset
  /-- `RD_KAFKA_RESP_ERR__PURGE_INFLIGHT`. -/
  | purgeInflight
  /-- `RD_KAFKA_RESP_ERR__INVALID_ARG`. -/
  | invalidArg
  /-- `RD_KAFKA_RESP_ERR__CONFLICT`. -/
  | conflict
  /-- `RD_KAFKA_RESP_ERR__STATE`. -/
  | state
  /-- `RD_KAFKA_RESP_ERR__NOENT`. -/
  | noent
  /-- `RD_KAFKA_RESP_ERR__WAIT_CACHE`. -/
  | waitCache
  /-- `RD_KAFKA_RESP_ERR_UNKNOWN_TOPIC_OR_PART`. -/
  | unknownTopicOrPart
  /-- `RD_KAFKA_RESP_ERR_TOPIC_AUTHORIZATION_FAILED`. -/
  | topicAuthorizationFailed
  /-- `RD_KAFKA_RESP_ERR_INVALID_MSG`. -/
  | invalidMsg
  /-- `RD_KAFKA_RESP_ERR_LEADER_NOT_AVAILABLE`. -/
  | leaderNotAvailable
  /-- `RD_KAFKA_RESP_ERR_NOT_LEADER_FOR_PARTITION`. -/
  | notLeaderForPartition
  /-- `RD_KAFKA_RESP_ERR_REQUEST_TIMED_OUT`. -/
  | requestTimedOut
  /-- `RD_KAFKA_RESP_ERR_BROKER_NOT_AVAILABLE`. -/
  | brokerNotAvailable
  /-- `RD_KAFKA_RESP_ERR_REPLICA_NOT_AVAILABLE`. -/
  | replicaNotAvailable
  /-- `RD_KAFKA_RESP_ERR_COORDINATOR_LOAD_IN_PROGRESS`. -/
  | coordinatorLoadInProgress
  /-- `RD_KAFKA_RESP_ERR_COORDINATOR_NOT_AVAILABLE`. -/
  | coordinatorNotAvailable
  /-- `RD_KAFKA_RESP_ERR_NOT_COORDINATOR`. -/
  | notCoordinator
  /-- `RD_KAFKA_RESP_ERR_NOT_ENOUGH_REPLICAS`. -/
  | notEnoughReplicas
  /-- `RD_KAFKA_RESP_ERR_NOT_ENOUGH_REPLICAS_AFTER_APPEND`. -/
  | notEnoughReplicasAfterAppend
  /-- `RD_KAFKA_RESP_ERR_UNKNOWN_MEMBER_ID`. -/
  | unknownMemberId
  /-- `RD_KAFKA_RESP_ERR_OUT_OF_ORDER_SEQUENCE_NUMBER`. -/
  | outOfOrderSequenceNumber
  /-- `RD_KAFKA_RESP_ERR_DUPLICATE_SEQUENCE_NUMBER`. -/
  | duplicateSequenceNumber
  /-- `RD_KAFKA_RESP_ERR_UNKNOWN_PRODUCER_ID`. -/
  | unknownProducerId
  /-- `RD_KAFKA_RESP_ERR_KAFKA_STORAGE_ERROR`. -/
  | kafkaStorageError
  /-- `RD_KAFKA_RESP_ERR_UNSTABLE_OFFSET_COMMIT`. -/
  | unstableOffsetCommit
  /-- `RD_KAFKA_RESP_ERR_STALE_MEMBER_EPOCH`. -/
  | staleMemberEpoch
  /-- Any other code. -/
  | other (code : Int)
  deriving DecidableEq, Repr

/-- The action bits `RD_KAFKA_ERR_ACTION_*` that `rd_kafka_err_action` sets by default. -/
structure ErrActions where
  /-- `RD_KAFKA_ERR_ACTION_PERMANENT`. -/
  permanent : Bool
  /-- `RD_KAFKA_ERR_ACTION_REFRESH`. -/
  refresh : Bool
  /-- `RD_KAFKA_ERR_ACTION_RETRY`. -/
  retry : Bool
  /-- `RD_KAFKA_ERR_ACTION_MSG_NOT_PERSISTED`. -/
  msgNotPersisted : Bool
  /-- `RD_KAFKA_ERR_ACTION_MSG_POSSIBLY_PERSISTED`. -/
  msgPossiblyPersisted : Bool
  deriving DecidableEq, Repr

/-- No action: `0`. -/
def errActionNone : ErrActions := ⟨false, false, false, false, false⟩

/-- `RD_KAFKA_ERR_ACTION_PERMANENT` alone. -/
def errActionPermanent : ErrActions := ⟨true, false, false, false, false⟩

/-- `RD_KAFKA_ERR_ACTION_RETRY` alone. -/
def errActionRetry : ErrActions := ⟨false, false, true, false, false⟩

/-- The `default error matching` switch of `rd_kafka_err_action`, before the masking. -/
def errActionDefault : KafkaErr → ErrActions
  | .noError => errActionNone
  | .leaderNotAvailable | .notLeaderForPartition | .brokerNotAvailable | .replicaNotAvailable
  | .coordinatorNotAvailable | .notCoordinator | .waitCoord => ⟨false, true, false, true, false⟩
  | .kafkaStorageError => ⟨false, true, true, true, false⟩
  | .transport | .ssl | .timedOut | .requestTimedOut | .notEnoughReplicasAfterAppend =>
    ⟨false, false, true, false, true⟩
  | .notEnoughReplicas | .invalidMsg | .timedOutQueue => ⟨false, false, true, true, false⟩
  | .purgeInflight => ⟨true, false, false, false, true⟩
  | .badMsg => ⟨true, false, false, false, true⟩
  | .coordinatorLoadInProgress => ⟨false, false, true, false, false⟩
  | _ => ⟨true, false, false, true, false⟩

/-- `rd_kafka_err_action(rkb, err, request, RD_KAFKA_ERR_ACTION_END)` for a request that is
not a ProduceRequest: no explicit mappings, the default table, then a permanent error is
not retried and the message bits are masked out. -/
def errAction (err : KafkaErr) : ErrActions :=
  if err = .noError then errActionNone
  else
    let a := errActionDefault err
    let a := if a.permanent then { a with retry := false } else a
    { a with msgNotPersisted := false, msgPossiblyPersisted := false }

example : (errAction .transport).retry = true := rfl

end Rdkafka
