import Mathlib.Data.List.Dedup
import Rdkafka.Cgrp.Assignor

/-!
# The range assignor

`rd_kafka_range_assignor_assign_cb` (`src/rdkafka_range_assignor.c`) works topic by
topic.  For each eligible topic it sorts the subscribing members and sets up an
assignment state (`rd_kafka_topic_assignment_state_t`).  With `n` partitions and `m`
subscribers, every member may take `n / m` partitions, and `n % m` of them one more.  The
counter `remaining_consumers_with_extra_partition` falls by one each time a member takes
its extra partition.  The partitions are then assigned in up to three phases:

* topics with the same subscribers and partition count form a *bucket*, and each
  partition `i` of a bucket goes to one consumer whose rack holds partition `i` of every
  topic in the bucket (`rd_kafka_assign_co_partitioned`);
* a topic alone in its bucket gets rack-aware ranges when
  `rd_kafka_use_rack_aware_assignment` says racks matter (`rd_kafka_assign_ranges` with
  `rd_kafka_racks_match`);
* every topic then gets ranges of the partitions still unassigned
  (`rd_kafka_assign_ranges` with `rd_kafka_always`).

A pointer into the member array is a position in it, and the pointers to the assignment
states in a bucket are positions in the sorted list of states.  A `bsearch` in a list
sorted by a key is a lookup of the key, which is what it finds in the sorted lists it is
given: the partition racks of the metadata are sorted, and the list of member pairs is
sorted by member id.  `none` stands for a failed `rd_assert` or a NULL dereference.
-/

set_option autoImplicit false

namespace Rdkafka

/-- `rd_kafka_member_assigned_partitions_pair_t`: a member id and the partitions of the
topic assigned to it. -/
structure MemberAssignedPartitionsPair where
  /-- `member_id`. -/
  memberId : List UInt8
  /-- `assigned_partitions`. -/
  assignedPartitions : List ℕ
  deriving DecidableEq, Repr

/-- `rd_kafka_topic_assignment_state_t`; its `partition_racks` and `racks_cnt` are read
from the topic's metadata. -/
structure TopicAssignmentState where
  /-- `topic`, with its members sorted. -/
  topic : AssignorTopic
  /-- `unassigned_partitions`. -/
  unassignedPartitions : List Bool
  /-- `unassigned_partitions_left`, a `size_t`. -/
  unassignedPartitionsLeft : ℕ
  /-- `member_to_assigned_partitions`, sorted by member id. -/
  memberToAssignedPartitions : List MemberAssignedPartitionsPair
  /-- `num_partitions_per_consumer`. -/
  numPartitionsPerConsumer : ℤ
  /-- `remaining_consumers_with_extra_partition`. -/
  remainingConsumersWithExtraPartition : ℤ
  /-- `needs_rack_aware_assignment`. -/
  needsRackAwareAssignment : Bool
  deriving DecidableEq, Repr

/-- The member ids at the positions of a topic's members. -/
def memberIds (members : List GroupMember) (positions : List ℕ) : List (List UInt8) :=
  positions.filterMap fun i => members[i]?.map (·.memberId)

/-- `rd_list_sort(&eligible_topic->members, rd_kafka_group_member_cmp)`, stably. -/
def sortGroupMembers (members : List GroupMember) (positions : List ℕ) : List ℕ :=
  positions.insertionSort fun a b =>
    (match members[a]?, members[b]? with
      | some x, some y => decide (groupMemberCmp x y ≠ .gt)
      | _, _ => true) = true

/-- `rd_kafka_use_rack_aware_assignment(topics, topic_cnt, mdi)`: some member has a rack,
some member rack holds a replica, and some partition lacks a replica on some rack.  The
deduplicated lists of `rd_list_deduplicate` are `List.dedup`. -/
def useRackAwareAssignment (members : List GroupMember) (topics : List AssignorTopic) : Bool :=
  let consumerRacks := topics.flatMap fun t => t.members.filterMap fun i =>
    (members[i]?).bind fun rkgm => rkgm.rackId.bind fun rack => if rack = [] then none else some rack
  let partitionRacks := topics.flatMap fun t =>
    (List.range t.metadata.partitionCnt).flatMap fun i => t.metadata.partitionRacks.getD i []
  if consumerRacks = [] ∨ partitionRacks = [] then false
  else
    let consumerRacks := consumerRacks.dedup
    let partitionRacks := partitionRacks.dedup
    if !consumerRacks.any (· ∈ partitionRacks) then false
    else topics.any fun t => (List.range t.metadata.partitionCnt).any fun i =>
      (t.metadata.partitionRacks.getD i []).length ≠ partitionRacks.length

/-- `rd_kafka_topic_assignment_state_new(topic, mdi)` for a topic whose members are
sorted. -/
def topicAssignmentStateNew (members : List GroupMember) (topic : AssignorTopic) :
    TopicAssignmentState :=
  let partitionCnt := topic.metadata.partitionCnt
  let memberCnt := topic.members.length
  { topic
    unassignedPartitions := List.replicate partitionCnt true
    unassignedPartitionsLeft := partitionCnt
    memberToAssignedPartitions :=
      ((memberIds members topic.members).map fun memberId => ⟨memberId, []⟩).insertionSort
        fun a b => kafkapStrCmp a.memberId b.memberId ≠ .gt
    numPartitionsPerConsumer := if memberCnt = 0 then 0 else ((partitionCnt / memberCnt : ℕ) : ℤ)
    remainingConsumersWithExtraPartition :=
      if memberCnt = 0 then 0 else ((partitionCnt % memberCnt : ℕ) : ℤ)
    needsRackAwareAssignment := useRackAwareAssignment members [topic] }

/-- `rd_kafka_find_member_assigned_partitions_pair_by_member_id(member_id, list)`: the
position of the pair of the member id. -/
def findMemberAssignedPartitionsPairByMemberId (memberId : List UInt8)
    (pairs : List MemberAssignedPartitionsPair) : Option ℕ :=
  pairs.findIdx? fun pair => pair.memberId = memberId

/-- How many more partitions of the topic the member of `pair` may take:
`num_partitions_per_consumer + (remaining_consumers_with_extra_partition > 0) -
rd_list_cnt(assigned_partitions)`. -/
def TopicAssignmentState.maximumAssignable (rktas : TopicAssignmentState)
    (pair : MemberAssignedPartitionsPair) : ℤ :=
  rktas.numPartitionsPerConsumer +
    (if 0 < rktas.remainingConsumersWithExtraPartition then 1 else 0) -
    pair.assignedPartitions.length

/-- `rd_kafka_assign_partition(member, rktas, partition)`: record the partition in the
member's pair and in its `rkgm_assignment`, mark it assigned, and count the member's extra
partition when it takes one. -/
def assignPartition (members : List GroupMember) (member : ℕ) (rktas : TopicAssignmentState)
    (partition : ℕ) : Option (List GroupMember × TopicAssignmentState) :=
  (members[member]?).bind fun rkgm =>
  -- `rd_assert(member_assignment)`
  (findMemberAssignedPartitionsPairByMemberId rkgm.memberId
      rktas.memberToAssignedPartitions).bind fun k =>
  (rktas.memberToAssignedPartitions[k]?).bind fun pair =>
  -- `rd_assert(rktas->unassigned_partitions[partition])`
  if rktas.unassignedPartitions[partition]? ≠ some true then none
  else
    some (members.modify member fun rkgm =>
        { rkgm with
          assignment := topicPartitionListAdd rkgm.assignment rktas.topic.metadata.topic partition },
      { rktas with
        memberToAssignedPartitions := rktas.memberToAssignedPartitions.modify k fun pair =>
          { pair with assignedPartitions := pair.assignedPartitions ++ [partition] }
        unassignedPartitions := rktas.unassignedPartitions.set partition false
        unassignedPartitionsLeft := rktas.unassignedPartitionsLeft - 1
        remainingConsumersWithExtraPartition :=
          if ((pair.assignedPartitions.length + 1 : ℕ) : ℤ) > rktas.numPartitionsPerConsumer then
            rktas.remainingConsumersWithExtraPartition - 1
          else rktas.remainingConsumersWithExtraPartition })

/-- `rd_kafka_topic_assignment_state_rack_search(rktas, partition, rack)`: the rack among
the racks of the partition's replicas. -/
def topicAssignmentStateRackSearch (rktas : TopicAssignmentState) (partition : ℕ)
    (rack : List UInt8) : Option (List UInt8) :=
  (rktas.topic.metadata.partitionRacks[partition]?).bind fun racks => racks.find? (· = rack)

/-- `rd_kafka_racks_match(member, rktas, partition)`: the member has no rack, or the
partition has a replica on it. -/
def racksMatch (rkgm : GroupMember) (rktas : TopicAssignmentState) (partition : ℕ) : Bool :=
  match rkgm.rackId with
  | none => true
  | some rack => rack = [] || (topicAssignmentStateRackSearch rktas partition rack).isSome

/-- `rd_kafka_always(member, rktas, partition)`. -/
def always (_ : GroupMember) (_ : TopicAssignmentState) (_ : ℕ) : Bool := true

/-- The `for (j …)` loop of `rd_kafka_assign_ranges`: the unassigned partitions that
`may_assign` allows, in order, at most `maximum_assignable_to_consumer` of them. -/
def partitionsToAssign (mayAssign : ℕ → Bool) (unassigned : List Bool) :
    ℤ → List ℕ → List ℕ
  | _, [] => []
  | maximum, j :: js =>
    if !unassigned.getD j false then partitionsToAssign mayAssign unassigned maximum js
    else if maximum ≤ 0 then []
    else if !mayAssign j then partitionsToAssign mayAssign unassigned maximum js
    else j :: partitionsToAssign mayAssign unassigned (maximum - 1) js

/-- `rd_kafka_assign_partition(member, rktas, partitions_to_assign[j])` for each chosen
partition in turn. -/
def assignPartitionList (member : ℕ) :
    List ℕ → List GroupMember → TopicAssignmentState →
      Option (List GroupMember × TopicAssignmentState)
  | [], members, rktas => some (members, rktas)
  | p :: ps, members, rktas =>
    (assignPartition members member rktas p).bind fun (members, rktas) =>
      assignPartitionList member ps members rktas

/-- The `RD_LIST_FOREACH(member, &rktas->topic->members, i)` loop of
`rd_kafka_assign_ranges`: stop when no partition is left, skip a member at its limit, and
give every other member as many allowed partitions as its limit lets it take. -/
def assignRangesLoop (mayAssign : GroupMember → TopicAssignmentState → ℕ → Bool) :
    List ℕ → List GroupMember → TopicAssignmentState →
      Option (List GroupMember × TopicAssignmentState)
  | [], members, rktas => some (members, rktas)
  | i :: is, members, rktas =>
    if rktas.unassignedPartitionsLeft = 0 then some (members, rktas)
    else
      (members[i]?).bind fun rkgm =>
      (findMemberAssignedPartitionsPairByMemberId rkgm.memberId
          rktas.memberToAssignedPartitions).bind fun k =>
      (rktas.memberToAssignedPartitions[k]?).bind fun pair =>
      let maximum := rktas.maximumAssignable pair
      if maximum ≤ 0 then assignRangesLoop mayAssign is members rktas
      else
        let ps := partitionsToAssign (mayAssign rkgm rktas) rktas.unassignedPartitions maximum
          (List.range rktas.topic.metadata.partitionCnt)
        (assignPartitionList i ps members rktas).bind fun (members, rktas) =>
          assignRangesLoop mayAssign is members rktas

/-- `rd_kafka_assign_ranges(rktas, may_assign)`. -/
def assignRanges (mayAssign : GroupMember → TopicAssignmentState → ℕ → Bool)
    (members : List GroupMember) (rktas : TopicAssignmentState) :
    Option (List GroupMember × TopicAssignmentState) :=
  assignRangesLoop mayAssign rktas.topic.members members rktas

/-! ## Co-partitioned topics -/

/-- The checks of `rd_kafka_assign_co_partitioned` for one consumer and partition `i`,
over the states of a bucket: (1) the consumer's rack holds a replica of partition `i`, and
(2) the consumer may take another partition of the topic. -/
def coPartitionedFits (rkgm : GroupMember) (i : ℕ) :
    List TopicAssignmentState → Option Bool
  | [] => some true
  | rktas :: bucket =>
    let rackOk := match rkgm.rackId with
      | none => false
      | some rack => rack ≠ [] && (topicAssignmentStateRackSearch rktas i rack).isSome
    if !rackOk then some false
    else
      (findMemberAssignedPartitionsPairByMemberId rkgm.memberId
          rktas.memberToAssignedPartitions).bind fun k =>
      (rktas.memberToAssignedPartitions[k]?).bind fun pair =>
      if rktas.maximumAssignable pair ≤ 0 then some false else coPartitionedFits rkgm i bucket

/-- The first of the bucket's consumers that passes both checks for partition `i`. -/
def coPartitionedConsumer (members : List GroupMember) (bucket : List TopicAssignmentState)
    (i : ℕ) : List ℕ → Option (Option ℕ)
  | [] => some none
  | j :: js =>
    (members[j]?).bind fun rkgm =>
    (coPartitionedFits rkgm i bucket).bind fun fits =>
    if fits then some (some j) else coPartitionedConsumer members bucket i js

/-- `RD_LIST_FOREACH(rktas, rktas_bucket, j) rd_kafka_assign_partition(member, rktas, i)`. -/
def assignPartitionInBucket (member partition : ℕ) :
    List ℕ → List GroupMember → List TopicAssignmentState →
      Option (List GroupMember × List TopicAssignmentState)
  | [], members, states => some (members, states)
  | b :: bucket, members, states =>
    (states[b]?).bind fun rktas =>
    (assignPartition members member rktas partition).bind fun (members, rktas) =>
    assignPartitionInBucket member partition bucket members (states.set b rktas)

/-- The `for (i …)` loop of `rd_kafka_assign_co_partitioned` over the partitions. -/
def assignCoPartitionedLoop (bucket consumers : List ℕ) :
    List ℕ → List GroupMember → List TopicAssignmentState →
      Option (List GroupMember × List TopicAssignmentState)
  | [], members, states => some (members, states)
  | i :: is, members, states =>
    (coPartitionedConsumer members (bucket.filterMap (states[·]?)) i consumers).bind fun
      | none => assignCoPartitionedLoop bucket consumers is members states
      | some j =>
        (assignPartitionInBucket j i bucket members states).bind fun (members, states) =>
          assignCoPartitionedLoop bucket consumers is members states

/-- `rd_kafka_assign_co_partitioned(rktas_bucket)`: the partition count and consumers are
those of the bucket's first state. -/
def assignCoPartitioned (bucket : List ℕ) (members : List GroupMember)
    (states : List TopicAssignmentState) :
    Option (List GroupMember × List TopicAssignmentState) :=
  (bucket.head?).bind fun b => (states[b]?).bind fun first =>
  assignCoPartitionedLoop bucket first.topic.members (List.range first.topic.metadata.partitionCnt)
    members states

/-! ## The callback -/

/-- The comparison of the sorted member lists in `rd_kafka_topic_assignment_state_cmp`: by
member id up to the first difference, then by count. -/
def memberIdsCmp : List (List UInt8) → List (List UInt8) → Ordering
  | a :: as, b :: bs =>
    match kafkapStrCmp a b with
    | .eq => memberIdsCmp as bs
    | r => r
  | [], [] => .eq
  | [], _ :: _ => .lt
  | _ :: _, [] => .gt

/-- `rd_kafka_topic_assignment_state_cmp(a, b)`: by consumers, then by partition count. -/
def topicAssignmentStateCmp (members : List GroupMember) (a b : TopicAssignmentState) :
    Ordering :=
  match memberIdsCmp (memberIds members a.topic.members) (memberIds members b.topic.members) with
  | .eq => compare a.topic.metadata.partitionCnt b.topic.metadata.partitionCnt
  | r => r

/-- The bucketing loop of `rd_kafka_range_assignor_assign_cb` over the sorted states with
their positions: a state joins the current bucket when it compares equal to the bucket's
first state, else it starts a new bucket. -/
def bucketsLoop (members : List GroupMember) (first : TopicAssignmentState)
    (current : List ℕ) : List (TopicAssignmentState × ℕ) → List (List ℕ)
  | [] => [current]
  | (rktas, k) :: rest =>
    if topicAssignmentStateCmp members rktas first = .eq then
      bucketsLoop members first (current ++ [k]) rest
    else current :: bucketsLoop members rktas [k] rest

/-- The buckets of the sorted states, as lists of positions. -/
def topicAssignmentStateBuckets (members : List GroupMember)
    (states : List TopicAssignmentState) : List (List ℕ) :=
  match states.zipIdx with
  | [] => []
  | (rktas, k) :: rest => bucketsLoop members rktas [k] rest

/-- The loop over the buckets: single-topic rack-aware ranges for a topic alone in its
bucket that needs them, co-partitioned assignment for a bucket of several topics. -/
def rangeBucketsLoop : List (List ℕ) → List GroupMember → List TopicAssignmentState →
    Option (List GroupMember × List TopicAssignmentState)
  | [], members, states => some (members, states)
  | bucket :: buckets, members, states =>
    (match bucket with
      -- `rd_assert(rd_list_cnt(rktas_current_bucket) > 0)`
      | [] => none
      | [b] =>
        (states[b]?).bind fun rktas =>
        if !rktas.needsRackAwareAssignment then some (members, states)
        else (assignRanges racksMatch members rktas).bind fun (members, rktas) =>
          some (members, states.set b rktas)
      | _ => assignCoPartitioned bucket members states).bind fun (members, states) =>
    rangeBucketsLoop buckets members states

/-- The last loop: ranges of the partitions still unassigned, for every state. -/
def rangeLeftoverLoop : List ℕ → List GroupMember → List TopicAssignmentState →
    Option (List GroupMember × List TopicAssignmentState)
  | [], members, states => some (members, states)
  | k :: ks, members, states =>
    (states[k]?).bind fun rktas =>
    (assignRanges always members rktas).bind fun (members, rktas) =>
    rangeLeftoverLoop ks members (states.set k rktas)

/-- `rd_kafka_range_assignor_assign_cb(…, members, member_cnt, eligible_topics,
eligible_topic_cnt, …)`: the members with their assignments.  `rd_list_sort` of the states
is `qsort`, which leaves the order of equal states open; the model sorts stably. -/
def rangeAssignorAssignCb (members : List GroupMember) (eligibleTopics : List AssignorTopic) :
    Option (List GroupMember) :=
  let states := eligibleTopics.map fun t =>
    topicAssignmentStateNew members { t with members := sortGroupMembers members t.members }
  let states := states.insertionSort fun a b => topicAssignmentStateCmp members a b ≠ .gt
  (rangeBucketsLoop (topicAssignmentStateBuckets members states) members states).bind
    fun (members, states) => (rangeLeftoverLoop (List.range states.length) members states).map (·.1)

end Rdkafka
