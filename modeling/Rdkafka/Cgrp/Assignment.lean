import Rdkafka.Partition.TopicPartition

/-!
# The consumer assignment state machine

This file models `src/rdkafka_assignment.c`: the lists `.all`, `.pending`, `.queried` and
`.removed` of `rk->rk_consumer.assignment`, with the counters `started_cnt` and
`wait_stop_cnt`, and the functions that change them: `rd_kafka_assignment_add`,
`_subtract`, `_clear`, `_serve` with `_serve_removals` and `_serve_pending`,
`_partition_stopped`, and the OffsetFetch reply handler with `_apply_offsets`.  Requests
reach it through `rd_kafka_cgrp_handle_assign_op` (`src/rdkafka_cgrp.c`), and OffsetFetch
replies go through `rd_kafka_handle_OffsetFetch` (`src/rdkafka_request.c`) first.

Of the partition objects `rd_kafka_toppar_t` the model keeps the two flags the assignment
code sets and tests, `rktp_started` and `RD_KAFKA_TOPPAR_F_ASSIGNED`, as the lists of the
partitions that have them set.  The operations the assignment code sends to other threads
are kept where they come back: a `FETCH_STOP` op is answered by a reply that the main
thread hands to `rd_kafka_assignment_partition_stopped`, and an OffsetFetch request by a
reply that reaches the handler.  Both wait in lists of the consumer state, and each reply
may be taken in any order.  The `FETCH_START` ops and the errors raised to the
application are kept as logs.

`none` is a failed `rd_assert`, an `RD_BUG`, or a `NULL` dereference: the process aborts.
-/

set_option autoImplicit false

namespace Rdkafka

/-! ## Logical offsets (`src/rdkafka.h`) -/

/-- `RD_KAFKA_OFFSET_BEGINNING`. -/
def offsetBeginning : Int := -2
/-- `RD_KAFKA_OFFSET_END`. -/
def offsetEnd : Int := -1
/-- `RD_KAFKA_OFFSET_STORED`. -/
def offsetStored : Int := -1000
/-- `RD_KAFKA_OFFSET_INVALID`. -/
def offsetInvalid : Int := -1001
/-- `RD_KAFKA_OFFSET_TAIL_BASE`. -/
def offsetTailBase : Int := -2000

/-- `RD_KAFKA_OFFSET_IS_LOGICAL(off)`. -/
def offsetIsLogical (off : Int) : Bool := decide (off < 0)

/-! ## State -/

/-- `rk->rk_consumer.assignment`. -/
structure AssignmentState where
  /-- `.all`: the current assignment. -/
  all : List TopicPartition
  /-- `.pending`: partitions waiting to be started or queried. -/
  pending : List TopicPartition
  /-- `.queried`: partitions whose committed offset is being queried. -/
  queried : List TopicPartition
  /-- `.removed`: partitions to decommission. -/
  removed : List TopicPartition
  /-- `.version`, bumped by every change of the assignment. -/
  version : ℕ
  /-- `.started_cnt`. -/
  startedCnt : ℕ
  /-- `.wait_stop_cnt`. -/
  waitStopCnt : ℕ
  deriving DecidableEq, Repr

/-- `rd_kafka_rebalance_protocol_t` of the group. -/
inductive RebalanceProtocol where
  | none
  | eager
  | cooperative
  deriving DecidableEq, Repr

/-- An OffsetFetch request of the assignment code in flight: which request it is, its
partitions, and the assignment version it carries as its opaque. -/
structure OffsetFetchReq where
  /-- The request's position among the requests sent. -/
  seq : ℕ
  /-- The partitions queried. -/
  partitions : List TopicPartition
  /-- `*req_assignment_version`. -/
  version : ℕ
  deriving DecidableEq, Repr

/-- The consumer: its assignment, the partition flags, the group state the assignment
code reads, and the operations in flight. -/
structure Consumer where
  /-- `rk->rk_consumer.assignment`. -/
  assignment : AssignmentState
  /-- The partitions with `rktp_started` set. -/
  started : List TpKey
  /-- The partitions with `RD_KAFKA_TOPPAR_F_ASSIGNED` set. -/
  assignedFlag : List TpKey
  /-- `rk->rk_consumer.wait_commit_cnt`. -/
  waitCommitCnt : ℕ
  /-- Whether `rd_kafka_cgrp_get_coord` returns a coordinator. -/
  coord : Bool
  /-- `rd_kafka_cgrp_rebalance_protocol(rkcg)`. -/
  protocol : RebalanceProtocol
  /-- `rd_kafka_fatal_error_code(rk) || rkcg_flags & RD_KAFKA_CGRP_F_TERMINATE`. -/
  terminating : Bool
  /-- The `FETCH_STOP` ops sent whose reply has not been served yet. -/
  fetchStops : List TpKey
  /-- The OffsetFetch requests sent whose reply has not been served yet. -/
  offsetFetches : List OffsetFetchReq
  /-- The number of OffsetFetch requests sent so far. -/
  reqSeq : ℕ
  /-- The `FETCH_START` ops sent, with their start positions. -/
  fetchStarts : List TopicPartition
  /-- The errors raised to the application with `rd_kafka_consumer_err`. -/
  consumerErrs : List (Option TpKey × KafkaErr)
  deriving DecidableEq, Repr

/-- `rd_kafka_assignment_init`, in a group with the given coordinator and protocol. -/
def consumerInit (coord : Bool) (protocol : RebalanceProtocol) : Consumer :=
  ⟨⟨[], [], [], [], 0, 0, 0⟩, [], [], 0, coord, protocol, false, [], [], 0, [], []⟩

/-- `s` with its assignment changed by `f`. -/
def Consumer.withAssignment (s : Consumer) (f : AssignmentState → AssignmentState) : Consumer :=
  { s with assignment := f s.assignment }

/-! ## Adding, subtracting and clearing -/

/-- A start offset `rd_kafka_assignment_add` refuses: logical, but none of the logical
offsets it knows. -/
def invalidStartOffset (off : Int) : Bool :=
  offsetIsLogical off && off != offsetBeginning && off != offsetEnd && off != offsetStored &&
    off != offsetInvalid && decide (off > offsetTailBase)

/-- The checking loop of `rd_kafka_assignment_add` over the sorted input, `prev` being the
element before: the error of the first element that fails, or the input with each
`INVALID` start offset turned into `STORED`. -/
def addCheck (all : List TopicPartition) :
    Option TopicPartition → List TopicPartition → Except KafkaErr (List TopicPartition)
  | _, [] => .ok []
  | prev, e :: es =>
    if invalidStartOffset e.offset then .error .invalidArg
    else if (prev.map fun p => topicPartitionCmp e p == .eq).getD false then .error .invalidArg
    else if (tpListFind all e.key).isSome then .error .conflict
    else
      let e := if e.offset = offsetInvalid then { e with offset := offsetStored } else e
      (addCheck all (some e) es).map (e :: ·)

/-- The marking loop of `rd_kafka_assignment_add`: `rd_assert` that no partition is marked
assigned yet, then mark it. -/
def markAssigned (flags : List TpKey) : List TopicPartition → Option (List TpKey)
  | [] => some flags
  | e :: es => if e.key ∈ flags then none else markAssigned (flags ++ [e.key]) es

/-- `rd_kafka_assignment_add(rk, partitions)`: the error of an input the checks refuse, or
the consumer with the partitions on `.all` and `.pending`. -/
def assignmentAdd (s : Consumer) (partitions : List TopicPartition) :
    Option (Except KafkaErr Consumer) :=
  let wasEmpty := s.assignment.all.length = 0
  match addCheck s.assignment.all none (tpListSort partitions) with
  | .error e => some (.error e)
  | .ok partitions =>
    (markAssigned s.assignedFlag partitions).map fun flags =>
      let all := s.assignment.all ++ partitions
      .ok { s with
        assignedFlag := flags
        assignment := { s.assignment with
          all := if wasEmpty then all else tpListSort all
          pending := s.assignment.pending ++ partitions
          version := s.assignment.version + 1 } }

/-- The removal loop of `rd_kafka_assignment_subtract`, over the sorted input from its end:
`RD_BUG` for a partition not on `.all`; each partition leaves `.queried`, or `.pending` if
it was not queried, and goes to `.removed`. -/
def subtractLoop (a : AssignmentState) : List TopicPartition → Option AssignmentState
  | [] => some a
  | e :: es =>
    let (all, found) := tpListDel a.all e.key
    if !found then none
    else
      let (queried, wasQueried) := tpListDel a.queried e.key
      let pending := if wasQueried then a.pending else (tpListDel a.pending e.key).1
      subtractLoop { a with all, queried, pending, removed := tpListAddCopy a.removed e } es

/-- `rd_kafka_assignment_subtract(rk, partitions)`: the error of an input naming a partition
that is not assigned, or the consumer with the partitions moved to `.removed`. -/
def assignmentSubtract (s : Consumer) (partitions : List TopicPartition) :
    Option (Except KafkaErr Consumer) :=
  if s.assignment.all.length = 0 ∧ 0 < partitions.length then some (.error .invalidArg)
  else
    let partitions := tpListSort partitions
    if partitions.any fun e => !(tpListFind s.assignment.all e.key).isSome then
      some (.error .invalidArg)
    else
      (subtractLoop s.assignment partitions.reverse).bind fun a =>
        -- the "safe checking" asserts after the loop
        if a.all.length = 0 ∧ (a.pending.length ≠ 0 ∨ a.queried.length ≠ 0) then none
        else some (.ok (s.withAssignment fun _ => { a with version := a.version + 1 }))

/-- `rd_kafka_assignment_clear(rk)`: the consumer with the whole assignment moved to
`.removed`, and the number of partitions removed. -/
def assignmentClear (s : Consumer) : Consumer × ℕ :=
  let cnt := s.assignment.all.length
  if cnt = 0 then (s, 0)
  else
    (s.withAssignment fun a => { a with
      pending := [], queried := [], removed := a.removed ++ a.all, all := [],
      version := a.version + 1 }, cnt)

/-! ## Serving the assignment -/

/-- The loop of `rd_kafka_assignment_serve_removals` over `.removed`: each partition leaves
`.pending` and `.queried`; a started one is sent a `FETCH_STOP` (`rd_assert(started_cnt >
0)`); then `rd_assert` that it is marked assigned, and unmark it. -/
def serveRemovalsLoop (s : Consumer) : List TopicPartition → Option Consumer
  | [] => some s
  | e :: es =>
    let s := s.withAssignment fun a => { a with
      pending := (tpListDel a.pending e.key).1, queried := (tpListDel a.queried e.key).1 }
    let stop : Option Consumer :=
      if e.key ∈ s.started then
        if s.assignment.startedCnt = 0 then none
        else some { s with
          fetchStops := s.fetchStops ++ [e.key]
          assignment := { s.assignment with waitStopCnt := s.assignment.waitStopCnt + 1 } }
      else some s
    stop.bind fun s =>
      if e.key ∉ s.assignedFlag then none
      else serveRemovalsLoop { s with assignedFlag := s.assignedFlag.erase e.key } es

/-- `rd_kafka_assignment_serve_removals(rk)`: decommission the partitions on `.removed` and
clear it; the number of stops and commits still in progress.  The final commit of the
removed partitions' offsets is not modelled. -/
def serveRemovals (s : Consumer) : Option (Consumer × ℕ) :=
  (serveRemovalsLoop s s.assignment.removed).map fun s =>
    (s.withAssignment fun a => { a with removed := [] },
      s.assignment.waitStopCnt + s.waitCommitCnt)

/-- A start offset the partition fetcher takes as it is: absolute, `BEGINNING`, `END`,
`INVALID` (for `auto.offset.reset`) or a tail offset. -/
def startableOffset (off : Int) : Bool :=
  !offsetIsLogical off || off == offsetBeginning || off == offsetEnd || off == offsetInvalid ||
    decide (off ≤ offsetTailBase)

/-- `s` with element `i` of `.pending` removed. -/
def Consumer.pendingDelIdx (s : Consumer) (i : ℕ) : Consumer :=
  s.withAssignment fun a => { a with pending := (tpListDelByIdx a.pending i).1 }

/-- The loop of `rd_kafka_assignment_serve_pending` over `.pending` from index `i - 1` down to
`0`, collecting the partitions to query: `rd_assert` that the partition is not started;
start it if its offset is known, else move it to `.queried` if queries are possible, else
keep it. -/
def servePendingLoop (canQuery : Bool) :
    ℕ → Consumer → List TopicPartition → Option (Consumer × List TopicPartition)
  | 0, s, toQuery => some (s, toQuery)
  | i + 1, s, toQuery =>
    match s.assignment.pending[i]? with
    | none => some (s, toQuery)
    | some e =>
      if e.key ∈ s.started then none
      else if startableOffset e.offset then
        servePendingLoop canQuery i
          { s.pendingDelIdx i with
            started := s.started ++ [e.key]
            fetchStarts := s.fetchStarts ++ [e]
            assignment := { (s.pendingDelIdx i).assignment with
              startedCnt := s.assignment.startedCnt + 1 } } toQuery
      else if canQuery then
        servePendingLoop canQuery i
          ((s.pendingDelIdx i).withAssignment fun a => { a with
            queried := tpListAddCopy a.queried e }) (tpListAddCopy toQuery e)
      else servePendingLoop canQuery i s toQuery

/-- `rd_kafka_assignment_serve_pending(rk)`: start or query the pending partitions, and send
one OffsetFetch request for those to query; the number of partitions still pending or
queried. -/
def servePending (s : Consumer) : Option (Consumer × ℕ) :=
  let canQuery := s.coord && s.waitCommitCnt == 0 && s.assignment.queried.length == 0
  (servePendingLoop canQuery s.assignment.pending.length s []).map fun (s, toQuery) =>
    let s := if canQuery && 0 < toQuery.length then
        { s with
          offsetFetches := s.offsetFetches ++ [⟨s.reqSeq, toQuery, s.assignment.version⟩]
          reqSeq := s.reqSeq + 1 }
      else s
    (s, s.assignment.pending.length + s.assignment.queried.length)

/-- `rd_kafka_assignment_serve(rk)`: serve the removals, then the pending partitions unless
stops, commits or removals are in progress.  Signalling `rd_kafka_cgrp_assignment_done` is
not modelled. -/
def assignmentServe (s : Consumer) : Option Consumer := do
  let (s, inpRemovals) ← if 0 < s.assignment.removed.length then serveRemovals s else some (s, 0)
  if s.assignment.waitStopCnt = 0 ∧ s.waitCommitCnt = 0 ∧ inpRemovals = 0 ∧
      0 < s.assignment.pending.length then
    (servePending s).map (·.1)
  else some s

/-- `rd_kafka_assignment_partition_stopped(rk, rktp)`: the reply of a `FETCH_STOP`. -/
def assignmentPartitionStopped (s : Consumer) (k : TpKey) : Option Consumer :=
  if s.assignment.waitStopCnt = 0 then none
  else if k ∉ s.started then none
  else if s.assignment.startedCnt = 0 then none
  else
    let s := { s with
      started := s.started.erase k
      assignment := { s.assignment with
        waitStopCnt := s.assignment.waitStopCnt - 1
        startedCnt := s.assignment.startedCnt - 1 } }
    if s.assignment.waitStopCnt = 0 then assignmentServe s else some s

/-! ## OffsetFetch replies -/

/-- A partition of an OffsetFetch response: `Partition`, `CommittedOffset` and `ErrorCode`. -/
structure OffsetFetchEntry where
  /-- The topic name. -/
  topic : List UInt8
  /-- `Partition`. -/
  partition : Int
  /-- `CommittedOffset`, `-1` for none. -/
  offset : Int
  /-- The partition's `ErrorCode`. -/
  err : KafkaErr
  deriving DecidableEq, Repr

/-- What parsing an OffsetFetch response buffer reads: a parse error before the partition
list is allocated (the group fields of version 8), or the partitions read and then the
top-level `ErrorCode` (`NO_ERROR` before version 2) or the parse error that stopped it. -/
inductive OffsetFetchBody where
  | noList (parseErr : KafkaErr)
  | partitions (entries : List OffsetFetchEntry) (last : Except KafkaErr KafkaErr)
  deriving DecidableEq, Repr

/-- A reply to an OffsetFetch request as its handler receives it: the request-level error
(the body is read only without one), the body, and whether `rd_kafka_buf_retry` would
send the request again (retries left). -/
structure OffsetFetchReply where
  /-- The `err` the handler is called with. -/
  err : KafkaErr
  /-- The response. -/
  body : OffsetFetchBody
  /-- What `rd_kafka_buf_retry(rkb, request)` returns. -/
  bufRetry : Bool
  deriving DecidableEq, Repr

/-- The partition loop of `rd_kafka_handle_OffsetFetch` with `add_part`: each partition of
the response is found in, or added to, the list, and gets the offset (`-1` read as
`INVALID`) and the error. -/
def offsetFetchParse (offsets : List TopicPartition) : List OffsetFetchEntry → List TopicPartition
  | [] => offsets
  | x :: xs =>
    let k : TpKey := ⟨x.topic, x.partition⟩
    let offsets := if (tpListFind offsets k).isSome then offsets
      else offsets ++ [⟨x.topic, x.partition, offsetInvalid, .noError⟩]
    let offsets := offsets.map fun e =>
      if e.key = k then
        { e with offset := (if x.offset = -1 then offsetInvalid else x.offset), err := x.err }
      else e
    offsetFetchParse offsets xs

/-- `rd_kafka_handle_OffsetFetch(rk, rkb, err, reply, request, &offsets, ...)` with
`*offsets == NULL` and `add_part`: the error it returns (`__IN_PROGRESS` when it retried)
and the offsets list, `none` while it is still `NULL`. -/
def handleOffsetFetch (err : KafkaErr) (body : OffsetFetchBody) (allowRetry bufRetry : Bool) :
    KafkaErr × Option (List TopicPartition) :=
  let (err, offsets, retryUnstable) : KafkaErr × Option (List TopicPartition) × Bool :=
    if err ≠ .noError then (err, none, false)
    else match body with
      | .noList e => (e, none, false)
      | .partitions entries last =>
        (match last with | .ok e => e | .error e => e,
          some (offsetFetchParse [] entries),
          entries.any fun x => x.err == .unstableOffsetCommit)
  if ((errAction err).retry || retryUnstable) && allowRetry && bufRetry then (.inProgress, offsets)
  else (err, offsets)

/-- The loop of `rd_kafka_assignment_apply_offsets` over the fetched offsets: a partition
still on `.queried` leaves it, and goes back to `.pending` (with offset `STORED` for a stale
member epoch), or is reported to the application for a partition error. -/
def applyOffsetsLoop (err : KafkaErr) (s : Consumer) : List TopicPartition → Consumer
  | [] => s
  | e :: es =>
    let (queried, found) := tpListDel s.assignment.queried e.key
    if !found then applyOffsetsLoop err s es
    else
      let s := s.withAssignment fun a => { a with queried }
      let s :=
        if err = .staleMemberEpoch ∨ e.err = .staleMemberEpoch then
          s.withAssignment fun a => { a with
            pending := tpListAddCopy a.pending { e with offset := offsetStored } }
        else if err = .unstableOffsetCommit ∨ e.err = .unstableOffsetCommit then
          s.withAssignment fun a => { a with pending := tpListAddCopy a.pending e }
        else if e.err ≠ .noError then
          { s with consumerErrs := s.consumerErrs ++ [(some e.key, e.err)] }
        else if err = .noError then
          s.withAssignment fun a => { a with pending := tpListAddCopy a.pending e }
        else s
      applyOffsetsLoop err s es

/-- `rd_kafka_assignment_apply_offsets(rk, offsets, err)`: a `NULL` list is dereferenced. -/
def assignmentApplyOffsets (s : Consumer) (offsets : Option (List TopicPartition))
    (err : KafkaErr) : Option Consumer :=
  offsets.bind fun offsets =>
    let s := applyOffsetsLoop err s offsets
    if 0 < offsets.length ∧ err ≠ .staleMemberEpoch then assignmentServe s else some s

/-- `rd_kafka_assignment_handle_OffsetFetch` for the reply to request `req`.  A retried
request goes back in flight.  Waking up the heartbeat for member errors is not modelled. -/
def assignmentHandleOffsetFetch (s : Consumer) (req : OffsetFetchReq) (reply : OffsetFetchReply) :
    Option Consumer :=
  let allowRetry := req.version == s.assignment.version
  if reply.err = .destroy then some s
  else
    let (err, offsets) := handleOffsetFetch reply.err reply.body allowRetry reply.bufRetry
    if err = .inProgress then some { s with offsetFetches := s.offsetFetches ++ [req] }
    else if offsets.isNone ∧ !allowRetry then
      -- `rd_dassert(err)` is compiled out of release builds
      let err := if err = .noError then .noOffset else err
      some { s with consumerErrs := s.consumerErrs ++ [(none, err)] }
    else
      let logged : Option Consumer :=
        match err with
        | .noError | .staleMemberEpoch | .unknownMemberId => some s
        -- the `default:` branch logs `offsets->cnt`
        | _ => offsets.map fun _ => { s with consumerErrs := s.consumerErrs ++ [(none, err)] }
      logged.bind fun s => assignmentApplyOffsets s offsets err

/-! ## Assign operations (`rdkafka_cgrp.c`) -/

/-- An assign operation of the application: `assign(partitions)` (`NULL` to unassign),
`incremental_assign(partitions)` or `incremental_unassign(partitions)`. -/
inductive AssignOp where
  | assign (partitions : Option (List TopicPartition))
  | incrAssign (partitions : List TopicPartition)
  | incrUnassign (partitions : List TopicPartition)
  deriving DecidableEq, Repr

/-- The consumer after an assignment call, or before it with the error the call returned. -/
def withError (s : Consumer) : Except KafkaErr Consumer → Consumer × Option KafkaErr
  | .error e => (s, some e)
  | .ok s' => (s', none)

/-- `rd_kafka_cgrp_assign(rkcg, assignment)`: clear and serve the old assignment, then add the
new one.  Join-state changes are not modelled. -/
def cgrpAssign (s : Consumer) (partitions : List TopicPartition) :
    Option (Consumer × Option KafkaErr) :=
  let (s, cnt) := assignmentClear s
  (if cnt ≠ 0 then assignmentServe s else some s).bind fun s =>
    (assignmentAdd s partitions).map (withError s)

/-- `rd_kafka_cgrp_handle_assign_op(rkcg, rko)`: the consumer after the operation and the
error returned to the application; the assignment is served after a call that succeeded. -/
def cgrpHandleAssignOp (s : Consumer) (op : AssignOp) : Option (Consumer × Option KafkaErr) :=
  -- a fatal error or termination turns every operation into an unassign
  let op := if s.terminating then AssignOp.assign none else op
  let refused : Bool :=
    !s.terminating &&
      match s.protocol, op with
      | .cooperative, .assign _ => true
      | .eager, .incrAssign _ | .eager, .incrUnassign _ => true
      | _, _ => false
  if refused then some (s, some .state)
  else
    let result : Option (Consumer × Option KafkaErr) :=
      match op with
      | .assign (some partitions) => cgrpAssign s partitions
      | .assign none => some ((assignmentClear s).1, none)
      | .incrAssign partitions => (assignmentAdd s partitions).map (withError s)
      | .incrUnassign partitions => (assignmentSubtract s partitions).map (withError s)
    result.bind fun
      | (s', some e) => some (s', some e)
      | (s', none) => (assignmentServe s').map fun s' => (s', none)

/-! ## Runs -/

/-- What happens to the consumer: an assign operation, the reply to the `i`-th outstanding
`FETCH_STOP`, or the reply to the `i`-th outstanding OffsetFetch request. -/
inductive AssignEvent where
  | assignOp (op : AssignOp)
  | fetchStopReply (i : ℕ)
  | offsetFetchReply (i : ℕ) (reply : OffsetFetchReply)
  deriving DecidableEq, Repr

/-- One event.  A reply that is not outstanding does not happen. -/
def assignStep (s : Consumer) : AssignEvent → Option Consumer
  | .assignOp op => (cgrpHandleAssignOp s op).map (·.1)
  | .fetchStopReply i =>
    match s.fetchStops[i]? with
    | none => some s
    | some k => assignmentPartitionStopped { s with fetchStops := s.fetchStops.eraseIdx i } k
  | .offsetFetchReply i reply =>
    match s.offsetFetches[i]? with
    | none => some s
    | some req =>
      assignmentHandleOffsetFetch { s with offsetFetches := s.offsetFetches.eraseIdx i } req reply

/-- A run of events; `none` once the process aborted. -/
def assignRun (s : Consumer) : List AssignEvent → Option Consumer
  | [] => some s
  | e :: es => (assignStep s e).bind fun s => assignRun s es

end Rdkafka
