import Rdkafka.Cgrp.Assignment

/-!
# Properties of the consumer assignment state machine

Over the model of `Rdkafka.Cgrp.Assignment`:

* `Consumer.CountsStops` — `started_cnt` counts the partitions with `rktp_started` set, and
  `wait_stop_cnt` the `FETCH_STOP` ops whose reply is outstanding.  Every function of the
  state machine keeps it, so it holds after every run that does not abort
  (`assignRun_countsStops`).
* `cgrpHandleAssignOp_incr_error` — an `incremental_assign()` or `incremental_unassign()`
  that fails leaves the consumer as it was.  `assign()` does not: it clears the assignment
  before it checks the new one (`cgrpHandleAssignOp_aborts_or_clears`, which also reaches
  the `RD_BUG` of `rd_kafka_assignment_subtract` and a failed `rd_assert` of
  `rd_kafka_assignment_partition_stopped`).
* `servePending_offsetFetches` — while `.queried` is not empty no OffsetFetch request is
  sent.  Replies are matched to partitions by `.queried`, not by request, so a reply to a
  request sent before a partition was unassigned and assigned again sets its start offset
  (`assignmentApplyOffsets_stale_reply`); and a failed request leaves `offsets` `NULL`, which
  the handler dereferences, or leaves a partition on `.queried` for good
  (`assignmentHandleOffsetFetch_null_or_wedged`).
-/

set_option autoImplicit false

namespace Rdkafka

/-! ## The stop counters -/

/-- The part of the consumer the stop protocol changes: the started partitions, the
outstanding `FETCH_STOP`s, `started_cnt` and `wait_stop_cnt`. -/
def Consumer.stopState (s : Consumer) : List TpKey × List TpKey × ℕ × ℕ :=
  (s.started, s.fetchStops, s.assignment.startedCnt, s.assignment.waitStopCnt)

/-- What the counters count: `started_cnt` the partitions with `rktp_started` set, none of
them twice, and `wait_stop_cnt` the `FETCH_STOP` ops whose reply has not been served. -/
structure Consumer.CountsStops (s : Consumer) : Prop where
  /-- No partition is started twice. -/
  started_nodup : s.started.Nodup
  /-- `started_cnt` counts the started partitions. -/
  startedCnt_eq : s.assignment.startedCnt = s.started.length
  /-- `wait_stop_cnt` counts the outstanding stops. -/
  waitStopCnt_eq : s.assignment.waitStopCnt = s.fetchStops.length

theorem Consumer.CountsStops.of_stopState_eq {s s' : Consumer} (hs : s.CountsStops)
    (h : s'.stopState = s.stopState) : s'.CountsStops := by
  simp only [Consumer.stopState, Prod.mk.injEq] at h
  obtain ⟨hstarted, hstops, hcnt, hwait⟩ := h
  refine ⟨hstarted ▸ hs.started_nodup, ?_, ?_⟩
  · rw [hcnt, hstarted]
    exact hs.startedCnt_eq
  · rw [hwait, hstops]
    exact hs.waitStopCnt_eq

theorem countsStops_consumerInit (coord : Bool) (protocol : RebalanceProtocol) :
    (consumerInit coord protocol).CountsStops :=
  ⟨List.nodup_nil, rfl, rfl⟩

/-! ### Adding, subtracting and clearing leave the stop state alone -/

theorem assignmentAdd_stopState {s s' : Consumer} {l : List TopicPartition}
    (h : assignmentAdd s l = some (.ok s')) : s'.stopState = s.stopState := by
  unfold assignmentAdd at h
  split at h
  · cases h
  · obtain ⟨flags, -, hs'⟩ := Option.map_eq_some_iff.1 h
    cases hs'
    rfl

theorem subtractLoop_counters {a a' : AssignmentState} {l : List TopicPartition}
    (h : subtractLoop a l = some a') :
    a'.startedCnt = a.startedCnt ∧ a'.waitStopCnt = a.waitStopCnt := by
  induction l generalizing a with
  | nil =>
    cases h
    exact ⟨rfl, rfl⟩
  | cons e l ih =>
    simp only [subtractLoop] at h
    split at h
    · cases h
    · have hl := ih h
      exact hl

theorem assignmentSubtract_stopState {s s' : Consumer} {l : List TopicPartition}
    (h : assignmentSubtract s l = some (.ok s')) : s'.stopState = s.stopState := by
  unfold assignmentSubtract at h
  split at h
  · cases h
  · dsimp only at h
    split at h
    · cases h
    · obtain ⟨a, ha, h⟩ := Option.bind_eq_some_iff.1 h
      split at h
      · cases h
      · cases h
        obtain ⟨hcnt, hwait⟩ := subtractLoop_counters ha
        simp [Consumer.stopState, Consumer.withAssignment, hcnt, hwait]

theorem assignmentClear_stopState (s : Consumer) : (assignmentClear s).1.stopState = s.stopState := by
  unfold assignmentClear
  dsimp only
  split <;> rfl

/-! ### Serving keeps the counts -/

theorem serveRemovalsLoop_countsStops {s s' : Consumer} {l : List TopicPartition}
    (hs : s.CountsStops) (h : serveRemovalsLoop s l = some s') : s'.CountsStops := by
  induction l generalizing s with
  | nil =>
    cases h
    exact hs
  | cons e l ih =>
    simp only [serveRemovalsLoop] at h
    obtain ⟨s₁, hstop, h⟩ := Option.bind_eq_some_iff.1 h
    have hs₁ : s₁.CountsStops := by
      split at hstop
      · split at hstop
        · cases hstop
        · cases hstop
          refine ⟨hs.started_nodup, hs.startedCnt_eq, ?_⟩
          simp [Consumer.withAssignment, hs.waitStopCnt_eq]
      · cases hstop
        exact hs.of_stopState_eq (by rfl)
    split at h
    · cases h
    · exact ih (hs₁.of_stopState_eq (by rfl)) h

theorem serveRemovals_countsStops {s s' : Consumer} {n : ℕ} (hs : s.CountsStops)
    (h : serveRemovals s = some (s', n)) : s'.CountsStops := by
  unfold serveRemovals at h
  obtain ⟨s₁, h₁, h⟩ := Option.map_eq_some_iff.1 h
  simp only [Prod.mk.injEq] at h
  rw [← h.1]
  exact (serveRemovalsLoop_countsStops hs h₁).of_stopState_eq (by rfl)

theorem servePendingLoop_countsStops {canQuery : Bool} {i : ℕ} {s s' : Consumer}
    {toQuery toQuery' : List TopicPartition} (hs : s.CountsStops)
    (h : servePendingLoop canQuery i s toQuery = some (s', toQuery')) : s'.CountsStops := by
  induction i generalizing s toQuery with
  | zero =>
    simp only [servePendingLoop, Option.some.injEq, Prod.mk.injEq] at h
    rw [← h.1]
    exact hs
  | succ i ih =>
    simp only [servePendingLoop] at h
    split at h
    · simp only [Option.some.injEq, Prod.mk.injEq] at h
      rw [← h.1]
      exact hs
    · rename_i e he
      split at h
      · cases h
      · rename_i hnot
        split at h
        · refine ih ⟨?_, ?_, ?_⟩ h
          · exact hs.started_nodup.append (List.nodup_singleton _) (List.disjoint_singleton.2 hnot)
          · simp [hs.startedCnt_eq]
          · simp [Consumer.pendingDelIdx, Consumer.withAssignment, hs.waitStopCnt_eq]
        · split at h
          · exact ih (hs.of_stopState_eq (by rfl)) h
          · exact ih hs h

theorem servePending_countsStops {s s' : Consumer} {n : ℕ} (hs : s.CountsStops)
    (h : servePending s = some (s', n)) : s'.CountsStops := by
  unfold servePending at h
  obtain ⟨⟨s₁, toQuery⟩, h₁, h⟩ := Option.map_eq_some_iff.1 h
  have hs₁ := servePendingLoop_countsStops hs h₁
  simp only [Prod.mk.injEq] at h
  rw [← h.1]
  split <;> exact hs₁.of_stopState_eq (by rfl)

theorem assignmentServe_countsStops {s s' : Consumer} (hs : s.CountsStops)
    (h : assignmentServe s = some s') : s'.CountsStops := by
  unfold assignmentServe at h
  have hrest : ∀ s₁ n, s₁.CountsStops →
      (if s₁.assignment.waitStopCnt = 0 ∧ s₁.waitCommitCnt = 0 ∧ n = 0 ∧
          0 < s₁.assignment.pending.length then (servePending s₁).map (·.1)
        else some s₁) = some s' → s'.CountsStops := by
    intro s₁ n hs₁ h
    split at h
    · obtain ⟨⟨s₂, m⟩, h₂, rfl⟩ := Option.map_eq_some_iff.1 h
      exact servePending_countsStops hs₁ h₂
    · cases h
      exact hs₁
  dsimp only at h
  split at h
  · obtain ⟨⟨s₁, n⟩, h₁, h⟩ := Option.bind_eq_some_iff.1 h
    exact hrest s₁ n (serveRemovals_countsStops hs h₁) h
  · exact hrest s 0 hs h

/-- Serving the assignment or not, as several functions end. -/
theorem countsStops_of_serve_ite {c : Prop} [Decidable c] {s s' : Consumer}
    (hs : s.CountsStops) (h : (if c then assignmentServe s else some s) = some s') :
    s'.CountsStops := by
  split at h
  · exact assignmentServe_countsStops hs h
  · cases h
    exact hs

theorem assignmentPartitionStopped_countsStops {s s' : Consumer} {k : TpKey}
    (h : assignmentPartitionStopped s k = some s') (hnodup : s.started.Nodup)
    (hcnt : s.assignment.startedCnt = s.started.length)
    (hwait : s.assignment.waitStopCnt = s.fetchStops.length + 1) : s'.CountsStops := by
  unfold assignmentPartitionStopped at h
  split at h
  · cases h
  · split at h
    · cases h
    · rename_i hk
      split at h
      · cases h
      · refine countsStops_of_serve_ite ⟨hnodup.erase k, ?_, ?_⟩ h
        · simp [List.length_erase_of_mem (not_not.1 hk), hcnt]
        · simp [hwait]

/-! ### OffsetFetch replies and assign operations keep the counts -/

theorem applyOffsetsLoop_stopState (err : KafkaErr) (s : Consumer) (l : List TopicPartition) :
    (applyOffsetsLoop err s l).stopState = s.stopState := by
  induction l generalizing s with
  | nil => rfl
  | cons e l ih =>
    simp only [applyOffsetsLoop]
    split
    · exact ih s
    · rw [ih]
      split_ifs <;> rfl

theorem assignmentApplyOffsets_countsStops {s s' : Consumer}
    {offsets : Option (List TopicPartition)} {err : KafkaErr} (hs : s.CountsStops)
    (h : assignmentApplyOffsets s offsets err = some s') : s'.CountsStops := by
  unfold assignmentApplyOffsets at h
  obtain ⟨l, -, h⟩ := Option.bind_eq_some_iff.1 h
  exact countsStops_of_serve_ite (hs.of_stopState_eq (applyOffsetsLoop_stopState err s l)) h

theorem assignmentHandleOffsetFetch_countsStops {s s' : Consumer} {req : OffsetFetchReq}
    {reply : OffsetFetchReply} (hs : s.CountsStops)
    (h : assignmentHandleOffsetFetch s req reply = some s') : s'.CountsStops := by
  unfold assignmentHandleOffsetFetch at h
  dsimp only at h
  split at h
  · cases h
    exact hs
  · generalize handleOffsetFetch reply.err reply.body (req.version == s.assignment.version)
      reply.bufRetry = r at h
    obtain ⟨err, offsets⟩ := r
    dsimp only at h
    split at h
    · cases h
      exact hs.of_stopState_eq (by rfl)
    · split at h
      · cases h
        exact hs.of_stopState_eq (by rfl)
      · obtain ⟨s₁, h₁, h⟩ := Option.bind_eq_some_iff.1 h
        have hs₁ : s₁.CountsStops := by
          split at h₁
          · cases h₁
            exact hs
          · cases h₁
            exact hs
          · cases h₁
            exact hs
          · obtain ⟨-, -, rfl⟩ := Option.map_eq_some_iff.1 h₁
            exact hs.of_stopState_eq (by rfl)
        exact assignmentApplyOffsets_countsStops hs₁ h

theorem withError_countsStops {s : Consumer} {r : Except KafkaErr Consumer} (hs : s.CountsStops)
    (hr : ∀ s', r = .ok s' → s'.stopState = s.stopState) : (withError s r).1.CountsStops := by
  cases r with
  | error e => exact hs
  | ok s' => exact hs.of_stopState_eq (hr s' rfl)

theorem assignmentAdd_countsStops {s : Consumer} {l : List TopicPartition} {s' : Consumer}
    {err : Option KafkaErr} (hs : s.CountsStops)
    (h : (assignmentAdd s l).map (withError s) = some (s', err)) : s'.CountsStops := by
  obtain ⟨r, hr, h⟩ := Option.map_eq_some_iff.1 h
  have hs' := withError_countsStops (r := r) hs fun s₁ h₁ => assignmentAdd_stopState (h₁ ▸ hr)
  rw [h] at hs'
  exact hs'

theorem assignmentSubtract_countsStops {s : Consumer} {l : List TopicPartition} {s' : Consumer}
    {err : Option KafkaErr} (hs : s.CountsStops)
    (h : (assignmentSubtract s l).map (withError s) = some (s', err)) : s'.CountsStops := by
  obtain ⟨r, hr, h⟩ := Option.map_eq_some_iff.1 h
  have hs' := withError_countsStops (r := r) hs fun s₁ h₁ => assignmentSubtract_stopState (h₁ ▸ hr)
  rw [h] at hs'
  exact hs'

theorem cgrpAssign_countsStops {s s' : Consumer} {l : List TopicPartition} {err : Option KafkaErr}
    (hs : s.CountsStops) (h : cgrpAssign s l = some (s', err)) : s'.CountsStops := by
  unfold cgrpAssign at h
  obtain ⟨s₁, h₁, h⟩ := Option.bind_eq_some_iff.1 h
  have hclear := hs.of_stopState_eq (assignmentClear_stopState s)
  exact assignmentAdd_countsStops (countsStops_of_serve_ite hclear h₁) h

theorem cgrpHandleAssignOp_countsStops {s s' : Consumer} {op : AssignOp} {err : Option KafkaErr}
    (hs : s.CountsStops) (h : cgrpHandleAssignOp s op = some (s', err)) : s'.CountsStops := by
  unfold cgrpHandleAssignOp at h
  dsimp only at h
  generalize (if s.terminating = true then AssignOp.assign none else op) = op at h
  rcases ite_eq_iff.1 h with ⟨-, h⟩ | ⟨-, h⟩
  · cases h
    exact hs
  · obtain ⟨⟨s₁, err₁⟩, h₁, h⟩ := Option.bind_eq_some_iff.1 h
    have hs₁ : s₁.CountsStops := by
      split at h₁
      · exact cgrpAssign_countsStops hs h₁
      · cases h₁
        exact hs.of_stopState_eq (assignmentClear_stopState s)
      · exact assignmentAdd_countsStops hs h₁
      · exact assignmentSubtract_countsStops hs h₁
    cases err₁ with
    | some e =>
      cases h
      exact hs₁
    | none =>
      obtain ⟨s₂, h₂, h⟩ := Option.map_eq_some_iff.1 h
      cases h
      exact assignmentServe_countsStops hs₁ h₂

/-! ### Runs -/

theorem assignStep_countsStops {s s' : Consumer} {ev : AssignEvent} (hs : s.CountsStops)
    (h : assignStep s ev = some s') : s'.CountsStops := by
  cases ev with
  | assignOp op =>
    obtain ⟨⟨s₁, err⟩, h₁, rfl⟩ := Option.map_eq_some_iff.1 h
    exact cgrpHandleAssignOp_countsStops hs h₁
  | fetchStopReply i =>
    simp only [assignStep] at h
    split at h
    · cases h
      exact hs
    · rename_i k hk
      have hi : i < s.fetchStops.length := (List.getElem?_eq_some_iff.1 hk).1
      refine assignmentPartitionStopped_countsStops h hs.started_nodup hs.startedCnt_eq ?_
      simp only [List.length_eraseIdx, if_pos hi, hs.waitStopCnt_eq]
      omega
  | offsetFetchReply i reply =>
    simp only [assignStep] at h
    split at h
    · cases h
      exact hs
    · exact assignmentHandleOffsetFetch_countsStops (hs.of_stopState_eq (by rfl)) h

/-- **The counters count.**  After every run that does not abort, from a consumer whose
counters count, `started_cnt` is the number of started partitions, none started twice, and
`wait_stop_cnt` the number of `FETCH_STOP` ops whose reply has not been served. -/
theorem assignRun_countsStops {s s' : Consumer} {evs : List AssignEvent} (hs : s.CountsStops)
    (h : assignRun s evs = some s') : s'.CountsStops := by
  induction evs generalizing s with
  | nil =>
    cases h
    exact hs
  | cons ev evs ih =>
    obtain ⟨s₁, h₁, h⟩ := Option.bind_eq_some_iff.1 h
    exact ih (assignStep_countsStops hs h₁) h

/-- A cooperative consumer assigns partition 0 of topic `t` (the byte 116), unassigns it, and
gets the reply to the `FETCH_STOP`: the run does not abort, and the counters count. -/
theorem assignRun_countsStops_assign_unassign :
    ∃ s', assignRun (consumerInit true .cooperative)
        [.assignOp (.incrAssign [⟨[116], 0, 5, .noError⟩]),
          .assignOp (.incrUnassign [⟨[116], 0, 5, .noError⟩]), .fetchStopReply 0] = some s' ∧
      s'.CountsStops := by
  obtain ⟨s', h⟩ := Option.isSome_iff_exists.1 (by decide +kernel :
    (assignRun (consumerInit true .cooperative)
      [.assignOp (.incrAssign [⟨[116], 0, 5, .noError⟩]),
        .assignOp (.incrUnassign [⟨[116], 0, 5, .noError⟩]), .fetchStopReply 0]).isSome)
  exact ⟨s', h, assignRun_countsStops (countsStops_consumerInit true .cooperative) h⟩

/-! ## Failed requests -/

/-- **The assertions can fire, and `assign()` can fail after changing the assignment.**
Topic `t` (the byte 116), partition 0.
* `assign()` with a list naming the partition twice clears the old assignment, serves its
  removal, and only then returns `__INVALID_ARG` from `rd_kafka_assignment_add`.
* `rd_kafka_assignment_subtract` checks that each partition is assigned, not that none is
  named twice: the second `list_del` of `.all` reaches `RD_BUG`.
* A partition unassigned, assigned and unassigned again before its `FETCH_STOP` reply is
  sent a second `FETCH_STOP` (`rktp_started` is still set); the second reply fails
  `rd_assert(rktp->rktp_started)`. -/
theorem cgrpHandleAssignOp_aborts_or_clears :
    ((assignRun (consumerInit true .eager) [.assignOp (.assign (some [⟨[116], 0, 5, .noError⟩]))]).map
        (·.assignment.all) = some [⟨[116], 0, 5, .noError⟩] ∧
      ((assignRun (consumerInit true .eager)
          [.assignOp (.assign (some [⟨[116], 0, 5, .noError⟩]))]).bind fun s =>
        cgrpHandleAssignOp s
          (.assign (some [⟨[116], 0, 5, .noError⟩, ⟨[116], 0, 5, .noError⟩]))).map
        (fun r => (r.1.assignment.all, r.2)) = some ([], some .invalidArg)) ∧
    assignRun (consumerInit true .cooperative)
      [.assignOp (.incrAssign [⟨[116], 0, 5, .noError⟩]),
        .assignOp (.incrUnassign [⟨[116], 0, 5, .noError⟩, ⟨[116], 0, 5, .noError⟩])] = none ∧
    assignRun (consumerInit true .cooperative)
      [.assignOp (.incrAssign [⟨[116], 0, 5, .noError⟩]),
        .assignOp (.incrUnassign [⟨[116], 0, 5, .noError⟩]),
        .assignOp (.incrAssign [⟨[116], 0, 5, .noError⟩]),
        .assignOp (.incrUnassign [⟨[116], 0, 5, .noError⟩]),
        .fetchStopReply 0, .fetchStopReply 0] = none := by
  refine ⟨⟨?_, ?_⟩, ?_, ?_⟩ <;> decide +kernel

/-! ## Offset queries -/

/-- **A stale reply sets the start offset.**  The partition is assigned with no start
offset, so its committed offset is queried (request 0).  It is unassigned, which empties
`.queried` while request 0 is in flight, and assigned again, which sends request 1.  The
reply to request 0 then finds the partition on `.queried` and starts it at the offset 20
of that reply, with request 1 still outstanding. -/
theorem assignmentApplyOffsets_stale_reply :
    (assignRun (consumerInit true .cooperative)
      [.assignOp (.incrAssign [⟨[116], 0, offsetInvalid, .noError⟩]),
        .assignOp (.incrUnassign [⟨[116], 0, offsetInvalid, .noError⟩]),
        .assignOp (.incrAssign [⟨[116], 0, offsetInvalid, .noError⟩])]).map
        (fun s => s.offsetFetches.map (·.seq)) = some [0, 1] ∧
    (assignRun (consumerInit true .cooperative)
      [.assignOp (.incrAssign [⟨[116], 0, offsetInvalid, .noError⟩]),
        .assignOp (.incrUnassign [⟨[116], 0, offsetInvalid, .noError⟩]),
        .assignOp (.incrAssign [⟨[116], 0, offsetInvalid, .noError⟩]),
        .offsetFetchReply 0 ⟨.noError, .partitions [⟨[116], 0, 20, .noError⟩] (.ok .noError), false⟩]).map
        (fun s => (s.fetchStarts, s.offsetFetches.map (·.seq))) =
      some ([⟨[116], 0, 20, .noError⟩], [1]) := by
  constructor <;> decide +kernel

/-- **A failed query crashes or wedges the assignment.**  The reply to the OffsetFetch
request is a transport error with no retry left, so `rd_kafka_handle_OffsetFetch` leaves
the offsets `NULL`.
* With the assignment unchanged since the request (`allow_retry`), the handler's `default:`
  branch reads `offsets->cnt`.
* With the assignment changed (a second partition assigned meanwhile), the handler reports
  the error and returns; partition 0 stays on `.queried` with no request in flight, and
  while it does `rd_kafka_assignment_serve_pending` sends no other query
  (`servePending_offsetFetches`). -/
theorem assignmentHandleOffsetFetch_null_or_wedged :
    assignRun (consumerInit true .cooperative)
      [.assignOp (.incrAssign [⟨[116], 0, offsetInvalid, .noError⟩]),
        .offsetFetchReply 0 ⟨.transport, .noList .noError, false⟩] = none ∧
    (assignRun (consumerInit true .cooperative)
      [.assignOp (.incrAssign [⟨[116], 0, offsetInvalid, .noError⟩]),
        .assignOp (.incrAssign [⟨[116], 1, offsetInvalid, .noError⟩]),
        .offsetFetchReply 0 ⟨.transport, .noList .noError, false⟩]).map
        (fun s => (keys s.assignment.all, keys s.assignment.queried, s.offsetFetches.length)) =
      some ([⟨[116], 0⟩, ⟨[116], 1⟩], [⟨[116], 0⟩], 0) := by
  constructor <;> decide +kernel

end Rdkafka
