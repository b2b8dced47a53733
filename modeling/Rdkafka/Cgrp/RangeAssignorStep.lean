import Rdkafka.Lib.ListModify
import Rdkafka.Lib.Quota
import Rdkafka.Cgrp.RangeAssignor

/-!
# The range assignor's bookkeeping, one assignment at a time

`rd_kafka_assign_partition` is the only place where the range assignor writes: it adds a
partition to a member's `rkgm_assignment` and to the member's pair in the topic's
assignment state, marks the partition taken, and counts down
`remaining_consumers_with_extra_partition` when the member takes more than `n / m`.
`TopicInv` is what the state of a topic with `n` partitions and `m` subscribers keeps
true across any sequence of such calls that respects the quota:

* the pairs are one per subscriber, the taken partitions are those marked in
  `unassigned_partitions`, each taken once, and `unassigned_partitions_left` counts the
  rest;
* no member holds more than `n / m + 1`, and the members at `n / m + 1` together with
  the counter make up `n % m`;
* each member's `rkgm_assignment` holds, of this topic, exactly the partitions of its pair.

From it, a member's turn in `rd_kafka_assign_ranges` is an `assignPartition` step per
chosen partition, and a pass of `rd_kafka_always` over all subscribers leaves nothing
unassigned (`assignRanges_spec` in the next module): if every subscriber is at its quota,
the shares add up to `n`.
-/

set_option autoImplicit false

namespace Rdkafka

/-! ## What a state records -/

namespace TopicAssignmentState

/-- The topic's name. -/
def topicName (rktas : TopicAssignmentState) : List UInt8 := rktas.topic.metadata.topic

/-- `n / m`: the partitions every subscriber gets. -/
def perConsumer (rktas : TopicAssignmentState) : ℕ :=
  rktas.topic.metadata.partitionCnt / rktas.topic.members.length

/-- `n % m`: the subscribers that get one partition more. -/
def extraCnt (rktas : TopicAssignmentState) : ℕ :=
  rktas.topic.metadata.partitionCnt % rktas.topic.members.length

/-- The pair of a member id, found as `rd_kafka_assign_partition` finds it. -/
def pairOf (rktas : TopicAssignmentState) (memberId : List UInt8) :
    Option MemberAssignedPartitionsPair :=
  (findMemberAssignedPartitionsPairByMemberId memberId rktas.memberToAssignedPartitions).bind
    (rktas.memberToAssignedPartitions[·]?)

/-- How many partitions of the topic the member with this id holds. -/
def assignedCnt (rktas : TopicAssignmentState) (memberId : List UInt8) : ℕ :=
  ((rktas.pairOf memberId).map (·.assignedPartitions.length)).getD 0

/-- The partitions the pairs hold. -/
def assigned (rktas : TopicAssignmentState) : List ℕ :=
  rktas.memberToAssignedPartitions.flatMap (·.assignedPartitions)

/-- The most partitions a member may hold now: `n / m`, and one more while the counter of
extra partitions is positive. -/
def quota (rktas : TopicAssignmentState) : ℕ :=
  rktas.perConsumer + if 0 < rktas.remainingConsumersWithExtraPartition then 1 else 0

/-- The state after `rd_kafka_assign_partition` records `partition` in the pair at `k`,
which holds `pair`. -/
def recordPartition (rktas : TopicAssignmentState) (k : ℕ) (pair : MemberAssignedPartitionsPair)
    (partition : ℕ) : TopicAssignmentState :=
  { rktas with
    memberToAssignedPartitions := rktas.memberToAssignedPartitions.modify k fun pair =>
      { pair with assignedPartitions := pair.assignedPartitions ++ [partition] }
    unassignedPartitions := rktas.unassignedPartitions.set partition false
    unassignedPartitionsLeft := rktas.unassignedPartitionsLeft - 1
    remainingConsumersWithExtraPartition :=
      if ((pair.assignedPartitions.length + 1 : ℕ) : ℤ) > rktas.numPartitionsPerConsumer then
        rktas.remainingConsumersWithExtraPartition - 1
      else rktas.remainingConsumersWithExtraPartition }

@[simp] theorem recordPartition_topic (rktas : TopicAssignmentState) (k : ℕ)
    (pair : MemberAssignedPartitionsPair) (partition : ℕ) :
    (rktas.recordPartition k pair partition).topic = rktas.topic := rfl

@[simp] theorem recordPartition_memberToAssignedPartitions (rktas : TopicAssignmentState)
    (k : ℕ) (pair : MemberAssignedPartitionsPair) (partition : ℕ) :
    (rktas.recordPartition k pair partition).memberToAssignedPartitions =
      rktas.memberToAssignedPartitions.modify k fun pair =>
        { pair with assignedPartitions := pair.assignedPartitions ++ [partition] } := rfl

@[simp] theorem recordPartition_unassignedPartitions (rktas : TopicAssignmentState) (k : ℕ)
    (pair : MemberAssignedPartitionsPair) (partition : ℕ) :
    (rktas.recordPartition k pair partition).unassignedPartitions =
      rktas.unassignedPartitions.set partition false := rfl

@[simp] theorem recordPartition_unassignedPartitionsLeft (rktas : TopicAssignmentState) (k : ℕ)
    (pair : MemberAssignedPartitionsPair) (partition : ℕ) :
    (rktas.recordPartition k pair partition).unassignedPartitionsLeft =
      rktas.unassignedPartitionsLeft - 1 := rfl

@[simp] theorem recordPartition_remainingConsumersWithExtraPartition
    (rktas : TopicAssignmentState) (k : ℕ) (pair : MemberAssignedPartitionsPair)
    (partition : ℕ) :
    (rktas.recordPartition k pair partition).remainingConsumersWithExtraPartition =
      if ((pair.assignedPartitions.length + 1 : ℕ) : ℤ) > rktas.numPartitionsPerConsumer then
        rktas.remainingConsumersWithExtraPartition - 1
      else rktas.remainingConsumersWithExtraPartition := rfl

@[simp] theorem topicName_recordPartition (rktas : TopicAssignmentState) (k : ℕ)
    (pair : MemberAssignedPartitionsPair) (partition : ℕ) :
    (rktas.recordPartition k pair partition).topicName = rktas.topicName := rfl

@[simp] theorem perConsumer_recordPartition (rktas : TopicAssignmentState) (k : ℕ)
    (pair : MemberAssignedPartitionsPair) (partition : ℕ) :
    (rktas.recordPartition k pair partition).perConsumer = rktas.perConsumer := rfl

@[simp] theorem extraCnt_recordPartition (rktas : TopicAssignmentState) (k : ℕ)
    (pair : MemberAssignedPartitionsPair) (partition : ℕ) :
    (rktas.recordPartition k pair partition).extraCnt = rktas.extraCnt := rfl

theorem quota_le_succ (rktas : TopicAssignmentState) : rktas.quota ≤ rktas.perConsumer + 1 := by
  unfold quota
  split <;> omega

/-- A member below its quota is below `n / m`, or at it while an extra partition is still to
be handed out. -/
theorem lt_or_extra_of_lt_quota {rktas : TopicAssignmentState} {c : ℕ} (h : c < rktas.quota) :
    c < rktas.perConsumer ∨
      (c = rktas.perConsumer ∧ 0 < rktas.remainingConsumersWithExtraPartition) := by
  unfold quota at h
  split at h <;> omega

end TopicAssignmentState

/-- The members after `rd_kafka_assign_partition` adds partition `partition` of `topic` to
the assignment of the member at `member`. -/
def grantPartition (topic : List UInt8) (partition member : ℕ) (members : List GroupMember) :
    List GroupMember :=
  members.modify member fun rkgm =>
    { rkgm with assignment := topicPartitionListAdd rkgm.assignment topic partition }

/-- The entries of a topic in the members' assignments. -/
def topicEntries (members : List GroupMember) (topic : List UInt8) : List TpKey :=
  members.flatMap fun rkgm => rkgm.assignment.filter fun tp => tp.topic = topic

/-- `rd_kafka_assign_partition` when the member, its pair and the partition are there. -/
theorem assignPartition_eq {members : List GroupMember} {member : ℕ}
    {rktas : TopicAssignmentState} {partition : ℕ} {rkgm : GroupMember} {k : ℕ}
    {pair : MemberAssignedPartitionsPair} (hrkgm : members[member]? = some rkgm)
    (hk : findMemberAssignedPartitionsPairByMemberId rkgm.memberId
      rktas.memberToAssignedPartitions = some k)
    (hpair : rktas.memberToAssignedPartitions[k]? = some pair)
    (hp : rktas.unassignedPartitions[partition]? = some true) :
    assignPartition members member rktas partition =
      some (grantPartition rktas.topicName partition member members,
        rktas.recordPartition k pair partition) := by
  simp [assignPartition, hrkgm, hk, hpair, hp, grantPartition,
    TopicAssignmentState.recordPartition, TopicAssignmentState.topicName]

/-! ## Member ids -/

theorem mem_memberIds {members : List GroupMember} {positions : List ℕ} {memberId : List UInt8} :
    memberId ∈ memberIds members positions ↔
      ∃ i ∈ positions, members[i]?.map (·.memberId) = some memberId := by
  simp [memberIds]

theorem memberIds_congr {members members' : List GroupMember}
    (h : members'.map (·.memberId) = members.map (·.memberId)) (positions : List ℕ) :
    memberIds members' positions = memberIds members positions := by
  have hget : ∀ i : ℕ, members'[i]?.map (·.memberId) = members[i]?.map (·.memberId) := by
    intro i
    rw [← List.getElem?_map, ← List.getElem?_map, h]
  simp only [memberIds, hget]

/-- With distinct member ids, two members with one id are at one position. -/
theorem eq_of_memberId_eq {members : List GroupMember} (hids : (members.map (·.memberId)).Nodup)
    {i j : ℕ} {rkgm rkgm' : GroupMember} (hi : members[i]? = some rkgm)
    (hj : members[j]? = some rkgm') (hid : rkgm.memberId = rkgm'.memberId) : i = j := by
  have hlt : i < (members.map (·.memberId)).length := by
    simpa using (List.getElem?_eq_some_iff.1 hi).1
  apply (List.getElem?_inj hlt hids).1
  simp [hi, hj, hid]

/-- The pair lookup reads only the member ids of the pairs. -/
theorem findMemberAssignedPartitionsPairByMemberId_modify (memberId : List UInt8)
    (pairs : List MemberAssignedPartitionsPair) (k : ℕ)
    {f : MemberAssignedPartitionsPair → MemberAssignedPartitionsPair}
    (hf : ∀ pair, (f pair).memberId = pair.memberId) :
    findMemberAssignedPartitionsPairByMemberId memberId (pairs.modify k f) =
      findMemberAssignedPartitionsPairByMemberId memberId pairs := by
  have hmap : ∀ l : List MemberAssignedPartitionsPair,
      findMemberAssignedPartitionsPairByMemberId memberId l =
        (l.map (·.memberId)).findIdx? fun x => x = memberId := by
    intro l
    rw [List.findIdx?_map]
    rfl
  rw [hmap, hmap, List.map_modify_of_forall hf]

/-! ## Grants -/

section Grant

variable (topic : List UInt8) (partition member : ℕ) (members : List GroupMember)

@[simp] theorem length_grantPartition :
    (grantPartition topic partition member members).length = members.length :=
  List.length_modify _ _ _

@[simp] theorem map_memberId_grantPartition :
    (grantPartition topic partition member members).map (·.memberId) =
      members.map (·.memberId) := by
  unfold grantPartition
  apply List.map_modify_of_forall
  intro rkgm
  rfl

@[simp] theorem map_clear_grantPartition :
    (grantPartition topic partition member members).map
        (fun rkgm => { rkgm with assignment := [] }) =
      members.map fun rkgm => { rkgm with assignment := [] } := by
  unfold grantPartition
  apply List.map_modify_of_forall
  intro rkgm
  rfl

theorem getElem?_grantPartition (j : ℕ) :
    (grantPartition topic partition member members)[j]? =
      (members[j]?).map fun rkgm =>
        if member = j then { rkgm with assignment := rkgm.assignment ++ [⟨topic, partition⟩] }
        else rkgm := by
  simp [grantPartition, List.getElem?_modify, topicPartitionListAdd]

theorem topicEntries_grantPartition_self (hm : member < members.length) :
    List.Perm (topicEntries (grantPartition topic partition member members) topic)
      (topicEntries members topic ++ [⟨topic, partition⟩]) :=
  List.perm_flatMap_modify hm (by simp [topicPartitionListAdd, List.filter_append])

theorem topicEntries_grantPartition_of_ne {topic' : List UInt8} (h : topic ≠ topic') :
    topicEntries (grantPartition topic partition member members) topic' =
      topicEntries members topic' := by
  have hf : ∀ rkgm : GroupMember,
      (topicPartitionListAdd rkgm.assignment topic partition).filter
          (fun tp => tp.topic = topic') = rkgm.assignment.filter fun tp => tp.topic = topic' := by
    intro rkgm
    simp [topicPartitionListAdd, List.filter_append, h]
  rw [topicEntries, topicEntries, List.flatMap_def, List.flatMap_def, grantPartition,
    List.map_modify_of_forall hf]

end Grant

/-- What `rd_kafka_assign_partition` adds to one member's assignment, seen from one topic. -/
theorem filter_topic_append (assignment : List TpKey) (topic topic' : List UInt8)
    (partition : ℤ) :
    ((assignment ++ [(⟨topic, partition⟩ : TpKey)]).filter fun tp => tp.topic = topic').length =
      (assignment.filter fun tp => tp.topic = topic').length + if topic = topic' then 1 else 0 := by
  by_cases h : topic = topic' <;> simp [List.filter_append, h]

/-! ## Recording a partition -/

namespace TopicAssignmentState

variable {rktas : TopicAssignmentState} {k : ℕ} {pair : MemberAssignedPartitionsPair}

theorem map_memberId_recordPartition (partition : ℕ) :
    (rktas.recordPartition k pair partition).memberToAssignedPartitions.map (·.memberId) =
      rktas.memberToAssignedPartitions.map (·.memberId) := by
  rw [recordPartition_memberToAssignedPartitions]
  apply List.map_modify_of_forall
  intro pair
  rfl

theorem map_length_recordPartition (partition : ℕ)
    (hpair : rktas.memberToAssignedPartitions[k]? = some pair) :
    (rktas.recordPartition k pair partition).memberToAssignedPartitions.map
        (·.assignedPartitions.length) =
      (rktas.memberToAssignedPartitions.map (·.assignedPartitions.length)).set k
        (pair.assignedPartitions.length + 1) := by
  obtain ⟨hk, rfl⟩ := List.getElem?_eq_some_iff.1 hpair
  rw [recordPartition_memberToAssignedPartitions, List.map_modify_eq_set _ _ hk]
  simp

theorem assigned_recordPartition_perm (partition : ℕ)
    (hpair : rktas.memberToAssignedPartitions[k]? = some pair) :
    List.Perm (rktas.recordPartition k pair partition).assigned
      (rktas.assigned ++ [partition]) := by
  obtain ⟨hk, rfl⟩ := List.getElem?_eq_some_iff.1 hpair
  unfold assigned
  rw [recordPartition_memberToAssignedPartitions]
  exact List.perm_flatMap_modify hk rfl

/-- Recording a partition for the pair of one member id counts one more for that id and
no other. -/
theorem assignedCnt_recordPartition (partition : ℕ)
    (hk : findMemberAssignedPartitionsPairByMemberId pair.memberId
      rktas.memberToAssignedPartitions = some k)
    (hpair : rktas.memberToAssignedPartitions[k]? = some pair) (memberId : List UInt8) :
    (rktas.recordPartition k pair partition).assignedCnt memberId =
      rktas.assignedCnt memberId + if memberId = pair.memberId then 1 else 0 := by
  have hfind : findMemberAssignedPartitionsPairByMemberId memberId
      (rktas.recordPartition k pair partition).memberToAssignedPartitions =
        findMemberAssignedPartitionsPairByMemberId memberId rktas.memberToAssignedPartitions := by
    rw [recordPartition_memberToAssignedPartitions]
    exact findMemberAssignedPartitionsPairByMemberId_modify _ _ _ fun _ => rfl
  unfold assignedCnt pairOf
  rw [hfind]
  by_cases hid : memberId = pair.memberId
  · subst hid
    rw [hk, if_pos rfl]
    simp [List.getElem?_modify, hpair]
  · rw [if_neg hid, Nat.add_zero]
    cases hfound : findMemberAssignedPartitionsPairByMemberId memberId
        rktas.memberToAssignedPartitions with
    | none => rfl
    | some k' =>
      have hne : k ≠ k' := by
        rintro rfl
        obtain ⟨hklt, hkid, -⟩ := List.findIdx?_eq_some_iff_getElem.1 hfound
        obtain ⟨_, hpk⟩ := List.getElem?_eq_some_iff.1 hpair
        have hpid : pair.memberId = memberId := by simpa [hpk] using hkid
        exact hid hpid.symm
      simp [List.getElem?_modify, hne]

end TopicAssignmentState

/-! ## The invariant -/

open TopicAssignmentState in
/-- What the assignment state of a topic keeps true while partitions are assigned to the
subscribers within their quota.  The member ids are distinct throughout. -/
structure TopicInv (members : List GroupMember) (rktas : TopicAssignmentState) : Prop where
  members_pos : 0 < rktas.topic.members.length
  members_lt : ∀ i ∈ rktas.topic.members, i < members.length
  members_nodup : rktas.topic.members.Nodup
  memberIds_nodup : (members.map (·.memberId)).Nodup
  pairs_perm : List.Perm (rktas.memberToAssignedPartitions.map (·.memberId))
    (memberIds members rktas.topic.members)
  perConsumer_eq : rktas.numPartitionsPerConsumer = rktas.perConsumer
  length_unassigned : rktas.unassignedPartitions.length = rktas.topic.metadata.partitionCnt
  left_eq : rktas.unassignedPartitionsLeft = rktas.unassignedPartitions.count true
  mem_assigned : ∀ p, p ∈ rktas.assigned ↔ rktas.unassignedPartitions[p]? = some false
  assigned_nodup : rktas.assigned.Nodup
  length_le : ∀ pair ∈ rktas.memberToAssignedPartitions,
    pair.assignedPartitions.length ≤ rktas.perConsumer + 1
  remaining_nonneg : 0 ≤ rktas.remainingConsumersWithExtraPartition
  count_extra : (rktas.memberToAssignedPartitions.map (·.assignedPartitions.length)).count
      (rktas.perConsumer + 1) + rktas.remainingConsumersWithExtraPartition.toNat = rktas.extraCnt
  member_cnt : ∀ i rkgm, members[i]? = some rkgm →
    (rkgm.assignment.filter fun tp => tp.topic = rktas.topicName).length =
      if i ∈ rktas.topic.members then rktas.assignedCnt rkgm.memberId else 0
  entries_perm : List.Perm (topicEntries members rktas.topicName)
    (rktas.assigned.map fun p : ℕ => (⟨rktas.topicName, p⟩ : TpKey))

namespace TopicInv

variable {members : List GroupMember} {rktas : TopicAssignmentState}

/-- A subscriber has its pair, and the pair is where the lookup finds it. -/
theorem exists_pair (hinv : TopicInv members rktas) {i : ℕ} (hi : i ∈ rktas.topic.members) :
    ∃ rkgm k pair, members[i]? = some rkgm ∧
      findMemberAssignedPartitionsPairByMemberId rkgm.memberId
        rktas.memberToAssignedPartitions = some k ∧
      rktas.memberToAssignedPartitions[k]? = some pair ∧ pair.memberId = rkgm.memberId ∧
      rktas.assignedCnt rkgm.memberId = pair.assignedPartitions.length := by
  have hlt := hinv.members_lt i hi
  have hrkgm : members[i]? = some members[i] := List.getElem?_eq_getElem hlt
  have hmem : members[i].memberId ∈ rktas.memberToAssignedPartitions.map (·.memberId) :=
    hinv.pairs_perm.mem_iff.2 (mem_memberIds.2 ⟨i, hi, by simp [hrkgm]⟩)
  obtain ⟨pair₀, hpair₀, hid₀⟩ := List.exists_of_mem_map hmem
  have hsome : (findMemberAssignedPartitionsPairByMemberId members[i].memberId
      rktas.memberToAssignedPartitions).isSome := by
    rw [findMemberAssignedPartitionsPairByMemberId, List.findIdx?_isSome, List.any_eq_true]
    exact ⟨pair₀, hpair₀, by simpa using hid₀⟩
  obtain ⟨k, hk⟩ := Option.isSome_iff_exists.1 hsome
  obtain ⟨hklt, hkid, -⟩ := List.findIdx?_eq_some_iff_getElem.1 hk
  refine ⟨members[i], k, rktas.memberToAssignedPartitions[k], hrkgm, hk,
    List.getElem?_eq_getElem hklt, by simpa using hkid, ?_⟩
  simp [TopicAssignmentState.assignedCnt, TopicAssignmentState.pairOf, hk,
    List.getElem?_eq_getElem hklt]

/-- **The step.**  `rd_kafka_assign_partition` for a subscriber below its quota and an
unassigned partition keeps the invariant. -/
theorem recordPartition (hinv : TopicInv members rktas) {i : ℕ} {rkgm : GroupMember} {k : ℕ}
    {pair : MemberAssignedPartitionsPair} {p : ℕ} (hi : i ∈ rktas.topic.members)
    (hrkgm : members[i]? = some rkgm)
    (hk : findMemberAssignedPartitionsPairByMemberId rkgm.memberId
      rktas.memberToAssignedPartitions = some k)
    (hpair : rktas.memberToAssignedPartitions[k]? = some pair)
    (hid : pair.memberId = rkgm.memberId)
    (hp : rktas.unassignedPartitions[p]? = some true)
    (hroom : pair.assignedPartitions.length < rktas.quota) :
    TopicInv (grantPartition rktas.topicName p i members) (rktas.recordPartition k pair p) := by
  have hilt := hinv.members_lt i hi
  obtain ⟨hklt, hpk⟩ := List.getElem?_eq_some_iff.1 hpair
  obtain ⟨hplt, hpt⟩ := List.getElem?_eq_some_iff.1 hp
  have hk' : findMemberAssignedPartitionsPairByMemberId pair.memberId
      rktas.memberToAssignedPartitions = some k := hid ▸ hk
  have hq := hinv.perConsumer_eq
  have hrem := hinv.remaining_nonneg
  have hquota := rktas.quota_le_succ
  have hroom' := TopicAssignmentState.lt_or_extra_of_lt_quota hroom
  refine
    { members_pos := hinv.members_pos
      members_lt := fun j hj => by simpa using hinv.members_lt j hj
      members_nodup := hinv.members_nodup
      memberIds_nodup := by simpa using hinv.memberIds_nodup
      pairs_perm := ?_
      perConsumer_eq := hinv.perConsumer_eq
      length_unassigned := by simp [hinv.length_unassigned]
      left_eq := ?_
      mem_assigned := ?_
      assigned_nodup := ?_
      length_le := ?_
      remaining_nonneg := ?_
      count_extra := ?_
      member_cnt := ?_
      entries_perm := ?_ }
  · rw [TopicAssignmentState.map_memberId_recordPartition,
      memberIds_congr (map_memberId_grantPartition _ _ _ _)]
    exact hinv.pairs_perm
  · rw [TopicAssignmentState.recordPartition_unassignedPartitionsLeft,
      TopicAssignmentState.recordPartition_unassignedPartitions, List.count_set hplt,
      hinv.left_eq]
    simp [hpt]
  · intro p'
    rw [(TopicAssignmentState.assigned_recordPartition_perm p hpair).mem_iff, List.mem_append,
      hinv.mem_assigned, List.mem_singleton,
      TopicAssignmentState.recordPartition_unassignedPartitions, List.getElem?_set]
    by_cases h : p' = p
    · subst h
      simp [hplt]
    · rw [if_neg (Ne.symm h)]
      simp [h]
  · refine (TopicAssignmentState.assigned_recordPartition_perm p hpair).nodup_iff.2
      (List.nodup_append.2 ⟨hinv.assigned_nodup, List.nodup_singleton p, ?_⟩)
    intro a ha b hb
    rw [List.mem_singleton] at hb
    subst hb
    rintro rfl
    have hfalse := (hinv.mem_assigned a).1 ha
    rw [hp] at hfalse
    simp at hfalse
  · intro pair' hmem
    rw [TopicAssignmentState.recordPartition_memberToAssignedPartitions] at hmem
    rcases List.mem_of_mem_modify hmem with h | ⟨_, rfl⟩
    · exact hinv.length_le pair' h
    · simp only [List.length_append, List.length_singleton, hpk,
        TopicAssignmentState.perConsumer_recordPartition]
      omega
  · rw [TopicAssignmentState.recordPartition_remainingConsumersWithExtraPartition]
    split_ifs with h
    · push_cast at h
      omega
    · exact hrem
  · have hold := hinv.count_extra
    rw [TopicAssignmentState.map_length_recordPartition p hpair, List.count_set (by simpa using hklt),
      TopicAssignmentState.recordPartition_remainingConsumersWithExtraPartition,
      TopicAssignmentState.perConsumer_recordPartition, TopicAssignmentState.extraCnt_recordPartition]
    simp only [List.getElem_map, hpk, beq_iff_eq]
    rcases hroom' with hlt | ⟨heq, hpos⟩
    · rw [if_neg (by omega), if_neg (by omega), if_neg (by push_cast; omega)]
      omega
    · rw [if_neg (by omega), if_pos (by omega), if_pos (by push_cast; omega)]
      omega
  · intro j rkgm' hj
    rw [getElem?_grantPartition] at hj
    obtain ⟨rkgm₀, hj₀, hrkgm'⟩ := Option.map_eq_some_iff.1 hj
    rw [TopicAssignmentState.topicName_recordPartition, TopicAssignmentState.recordPartition_topic]
    by_cases hij : i = j
    · subst hij
      rw [if_pos rfl] at hrkgm'
      rw [hrkgm] at hj₀
      cases hj₀
      subst hrkgm'
      rw [filter_topic_append, if_pos rfl, hinv.member_cnt i rkgm hrkgm, if_pos hi, if_pos hi,
        TopicAssignmentState.assignedCnt_recordPartition p hk' hpair, if_pos hid.symm]
    · rw [if_neg hij] at hrkgm'
      subst hrkgm'
      have hne : rkgm₀.memberId ≠ pair.memberId := by
        intro h
        exact hij (eq_of_memberId_eq hinv.memberIds_nodup hrkgm hj₀ (hid ▸ h.symm))
      rw [hinv.member_cnt j rkgm₀ hj₀,
        TopicAssignmentState.assignedCnt_recordPartition p hk' hpair, if_neg hne, Nat.add_zero]
  · rw [TopicAssignmentState.topicName_recordPartition]
    refine (topicEntries_grantPartition_self _ _ _ _ hilt).trans ?_
    refine (hinv.entries_perm.append_right _).trans ?_
    have hperm := ((TopicAssignmentState.assigned_recordPartition_perm p hpair).map
      fun p : ℕ => (⟨rktas.topicName, p⟩ : TpKey)).symm
    rw [List.map_append] at hperm
    simpa using hperm

/-- **The frame.**  A grant of a partition of another topic leaves the invariant. -/
theorem grantPartition_of_ne (hinv : TopicInv members rktas) {topic : List UInt8}
    (ht : topic ≠ rktas.topicName) (partition member : ℕ) :
    TopicInv (grantPartition topic partition member members) rktas :=
  { hinv with
    members_lt := fun j hj => by simpa using hinv.members_lt j hj
    memberIds_nodup := by simpa using hinv.memberIds_nodup
    pairs_perm := by
      rw [memberIds_congr (map_memberId_grantPartition _ _ _ _)]
      exact hinv.pairs_perm
    member_cnt := by
      intro j rkgm' hj
      rw [getElem?_grantPartition] at hj
      obtain ⟨rkgm₀, hj₀, rfl⟩ := Option.map_eq_some_iff.1 hj
      have hcnt := hinv.member_cnt j rkgm₀ hj₀
      by_cases hmj : member = j
      · rw [if_pos hmj, filter_topic_append, if_neg ht, Nat.add_zero]
        exact hcnt
      · rw [if_neg hmj]
        exact hcnt
    entries_perm := by
      rw [topicEntries_grantPartition_of_ne _ _ _ _ ht]
      exact hinv.entries_perm }

end TopicInv

/-! ## Runs of grants -/

/-- One grant of a partition of `topic`. -/
def GrantStep (topic : List UInt8) (members members' : List GroupMember) : Prop :=
  ∃ partition member, members' = grantPartition topic partition member members

/-- `members'` is `members` after grants of partitions of `topic`. -/
def Granted (topic : List UInt8) : List GroupMember → List GroupMember → Prop :=
  Relation.ReflTransGen (GrantStep topic)

namespace Granted

variable {topic : List UInt8} {members members' members'' : List GroupMember}

theorem refl (members : List GroupMember) : Granted topic members members :=
  Relation.ReflTransGen.refl

theorem trans (h : Granted topic members members') (h' : Granted topic members' members'') :
    Granted topic members members'' :=
  Relation.ReflTransGen.trans h h'

theorem grantPartition (partition member : ℕ) (members : List GroupMember) :
    Granted topic members (Rdkafka.grantPartition topic partition member members) :=
  Relation.ReflTransGen.single ⟨partition, member, rfl⟩

/-- Grants change nothing but assignments. -/
theorem map_of_forall {β : Type} (f : GroupMember → β)
    (hf : ∀ (rkgm : GroupMember) (l : List TpKey), f { rkgm with assignment := l } = f rkgm)
    (h : Granted topic members members') : members'.map f = members.map f := by
  induction h with
  | refl => rfl
  | tail _ hstep ih =>
    obtain ⟨partition, member, rfl⟩ := hstep
    rw [Rdkafka.grantPartition, List.map_modify_of_forall (fun rkgm => hf rkgm _), ih]

theorem map_memberId (h : Granted topic members members') :
    members'.map (·.memberId) = members.map (·.memberId) :=
  h.map_of_forall _ fun _ _ => rfl

/-- Every entry a run of grants adds is of `topic`. -/
theorem forall_entries (h : Granted topic members members') (P : List UInt8 → Prop)
    (htopic : P topic) (h₀ : ∀ rkgm ∈ members, ∀ tp ∈ rkgm.assignment, P tp.topic) :
    ∀ rkgm ∈ members', ∀ tp ∈ rkgm.assignment, P tp.topic := by
  induction h with
  | refl => exact h₀
  | tail _ hstep ih =>
    obtain ⟨partition, member, rfl⟩ := hstep
    intro rkgm hrkgm tp htp
    rcases List.mem_of_mem_modify hrkgm with hold | ⟨hlt, rfl⟩
    · exact ih rkgm hold tp htp
    · simp only [topicPartitionListAdd, List.mem_append, List.mem_singleton] at htp
      rcases htp with htp | rfl
      · exact ih _ (List.getElem_mem hlt) tp htp
      · exact htopic

end Granted

/-- The frame across a run: grants of another topic's partitions leave the invariant. -/
theorem TopicInv.granted_of_ne {members members' : List GroupMember}
    {rktas : TopicAssignmentState} (hinv : TopicInv members rktas) {topic : List UInt8}
    (ht : topic ≠ rktas.topicName) (h : Granted topic members members') :
    TopicInv members' rktas := by
  induction h with
  | refl => exact hinv
  | tail _ hstep ih =>
    obtain ⟨partition, member, rfl⟩ := hstep
    exact ih.grantPartition_of_ne ht partition member

/-- What a run of assignments within one topic changes about its state: the topic stays,
the members only get partitions of the topic, and the counter of extra partitions only
falls. -/
structure Advances (members : List GroupMember) (rktas : TopicAssignmentState)
    (members' : List GroupMember) (rktas' : TopicAssignmentState) : Prop where
  topic_eq : rktas'.topic = rktas.topic
  granted : Granted rktas.topicName members members'
  remaining_le : rktas'.remainingConsumersWithExtraPartition ≤
    rktas.remainingConsumersWithExtraPartition

namespace Advances

variable {members members' members'' : List GroupMember}
  {rktas rktas' rktas'' : TopicAssignmentState}

theorem refl (members : List GroupMember) (rktas : TopicAssignmentState) :
    Advances members rktas members rktas :=
  ⟨rfl, Granted.refl members, le_refl _⟩

theorem trans (h : Advances members rktas members' rktas')
    (h' : Advances members' rktas' members'' rktas'') :
    Advances members rktas members'' rktas'' := by
  have hname : rktas'.topicName = rktas.topicName := by
    rw [TopicAssignmentState.topicName, h.topic_eq]
    rfl
  exact ⟨h'.topic_eq.trans h.topic_eq, h.granted.trans (hname ▸ h'.granted),
    h'.remaining_le.trans h.remaining_le⟩

theorem recordPartition (members : List GroupMember) (rktas : TopicAssignmentState)
    (k : ℕ) (pair : MemberAssignedPartitionsPair) (p i : ℕ) :
    Advances members rktas (grantPartition rktas.topicName p i members)
      (rktas.recordPartition k pair p) := by
  refine ⟨rfl, Granted.grantPartition p i members, ?_⟩
  rw [TopicAssignmentState.recordPartition_remainingConsumersWithExtraPartition]
  split <;> omega

theorem quota_le (h : Advances members rktas members' rktas') : rktas'.quota ≤ rktas.quota := by
  have hrem := h.remaining_le
  unfold TopicAssignmentState.quota TopicAssignmentState.perConsumer
  rw [h.topic_eq]
  split_ifs <;> omega

end Advances

/-! ## A member's turn -/

namespace TopicInv

variable {members : List GroupMember} {rktas : TopicAssignmentState}

theorem maximumAssignable_eq (hinv : TopicInv members rktas)
    (pair : MemberAssignedPartitionsPair) :
    rktas.maximumAssignable pair = (rktas.quota : ℤ) - pair.assignedPartitions.length := by
  unfold TopicAssignmentState.maximumAssignable TopicAssignmentState.quota
  rw [hinv.perConsumer_eq]
  split <;> simp

/-- A partition still unassigned is counted by `unassigned_partitions_left`. -/
theorem left_pos (hinv : TopicInv members rktas) {p : ℕ}
    (hp : rktas.unassignedPartitions[p]? = some true) : 0 < rktas.unassignedPartitionsLeft := by
  rw [hinv.left_eq]
  exact List.count_pos_iff.2 (List.mem_of_getElem? hp)

/-- Taking one more partition keeps the quota when the member stays below `n / m`. -/
theorem quota_recordPartition (hinv : TopicInv members rktas) {k : ℕ}
    {pair : MemberAssignedPartitionsPair} (p : ℕ)
    (h : pair.assignedPartitions.length < rktas.perConsumer) :
    (rktas.recordPartition k pair p).quota = rktas.quota := by
  unfold TopicAssignmentState.quota
  have hle : ¬(((pair.assignedPartitions.length + 1 : ℕ) : ℤ) > rktas.numPartitionsPerConsumer) := by
    rw [hinv.perConsumer_eq]
    omega
  rw [TopicAssignmentState.recordPartition_remainingConsumersWithExtraPartition,
    TopicAssignmentState.perConsumer_recordPartition, if_neg hle]

end TopicInv

/-- **A member's turn.**  `rd_kafka_assign_partition` for each of distinct unassigned
partitions, as many as the member's quota leaves room for, succeeds, keeps the invariant,
and counts them for this member and no other. -/
theorem assignPartitionList_spec {i : ℕ} {memberId : List UInt8} :
    ∀ (ps : List ℕ) (members : List GroupMember) (rktas : TopicAssignmentState),
      TopicInv members rktas → i ∈ rktas.topic.members →
      members[i]?.map (·.memberId) = some memberId → ps.Nodup →
      (∀ p ∈ ps, rktas.unassignedPartitions[p]? = some true) →
      (rktas.assignedCnt memberId + ps.length ≤ rktas.quota ∨ ps = []) →
      ∃ members' rktas', assignPartitionList i ps members rktas = some (members', rktas') ∧
        TopicInv members' rktas' ∧ Advances members rktas members' rktas' ∧
        rktas'.assignedCnt memberId = rktas.assignedCnt memberId + ps.length ∧
        (∀ memberId', memberId' ≠ memberId →
          rktas'.assignedCnt memberId' = rktas.assignedCnt memberId') ∧
        rktas'.unassignedPartitionsLeft + ps.length = rktas.unassignedPartitionsLeft := by
  intro ps
  induction ps with
  | nil =>
    intro members rktas hinv _ _ _ _ _
    exact ⟨members, rktas, rfl, hinv, Advances.refl members rktas, rfl, fun _ _ => rfl, rfl⟩
  | cons p ps ih =>
    intro members rktas hinv hi hid hnodup hun hroom
    obtain ⟨rkgm, k, pair, hrkgm, hk, hpair, hpid, hcnt⟩ := hinv.exists_pair hi
    have hmid : rkgm.memberId = memberId := by
      rw [hrkgm] at hid
      simpa using hid
    subst hmid
    have hp := hun p List.mem_cons_self
    have hroom₁ : rkgm.memberId = pair.memberId ∧
        pair.assignedPartitions.length + 1 + ps.length ≤ rktas.quota := by
      refine ⟨hpid.symm, ?_⟩
      rcases hroom with h | h
      · rw [hcnt, List.length_cons] at h
        omega
      · exact absurd h (List.cons_ne_nil p ps)
    have hinv₁ := hinv.recordPartition hi hrkgm hk hpair hpid hp (by omega)
    have hk' : findMemberAssignedPartitionsPairByMemberId pair.memberId
        rktas.memberToAssignedPartitions = some k := hpid ▸ hk
    have hcnt₁ := TopicAssignmentState.assignedCnt_recordPartition p hk' hpair
    -- the rest of the turn still fits under the quota, which only drops at the last step
    have hroom' : (rktas.recordPartition k pair p).assignedCnt rkgm.memberId + ps.length ≤
        (rktas.recordPartition k pair p).quota ∨ ps = [] := by
      rw [hcnt₁, if_pos hroom₁.1, hcnt]
      by_cases hlt : pair.assignedPartitions.length < rktas.perConsumer
      · rw [hinv.quota_recordPartition p hlt]
        exact Or.inl (by omega)
      · have hquota := rktas.quota_le_succ
        exact Or.inr (List.eq_nil_of_length_eq_zero (by omega))
    have hid₁ : (grantPartition rktas.topicName p i members)[i]?.map (·.memberId) =
        some rkgm.memberId := by
      rw [← List.getElem?_map, map_memberId_grantPartition, List.getElem?_map, hrkgm]
      rfl
    have hun₁ : ∀ p' ∈ ps, (rktas.recordPartition k pair p).unassignedPartitions[p']? =
        some true := by
      intro p' hp'
      have hne : p ≠ p' := fun h => (List.nodup_cons.1 hnodup).1 (h ▸ hp')
      rw [TopicAssignmentState.recordPartition_unassignedPartitions, List.getElem?_set,
        if_neg hne]
      exact hun p' (List.mem_cons_of_mem p hp')
    obtain ⟨members', rktas', hrun, hinv', hadv, hcnt', hother', hleft'⟩ :=
      ih _ _ hinv₁ hi hid₁ (List.nodup_cons.1 hnodup).2 hun₁ hroom'
    have hleft := hinv.left_pos hp
    refine ⟨members', rktas', ?_, hinv', (Advances.recordPartition _ _ _ _ _ _).trans hadv,
      ?_, ?_, ?_⟩
    · rw [assignPartitionList, assignPartition_eq hrkgm hk hpair hp]
      exact hrun
    · rw [hcnt', hcnt₁, if_pos hroom₁.1, List.length_cons]
      omega
    · intro memberId' hne
      rw [hother' memberId' hne, hcnt₁, if_neg (hroom₁.1 ▸ hne), Nat.add_zero]
    · rw [List.length_cons, ← Nat.add_assoc, hleft',
        TopicAssignmentState.recordPartition_unassignedPartitionsLeft]
      omega

/-! ## Choosing the partitions of a turn -/

/-- `unassigned_partitions[j]` read with a default, as the model of the `for (j …)` loop
reads it. -/
theorem getD_eq_true_iff (unassigned : List Bool) (j : ℕ) :
    unassigned.getD j false = true ↔ unassigned[j]? = some true := by
  rw [List.getD_eq_getElem?_getD]
  cases unassigned[j]? <;> simp

section Select

variable (mayAssign : ℕ → Bool) (unassigned : List Bool)

theorem partitionsToAssign_sublist :
    ∀ (js : List ℕ) (maximum : ℤ),
      List.Sublist (partitionsToAssign mayAssign unassigned maximum js) js := by
  intro js
  induction js with
  | nil => intro maximum; simp [partitionsToAssign]
  | cons j js ih =>
    intro maximum
    unfold partitionsToAssign
    split_ifs
    · exact (ih maximum).cons j
    · exact List.nil_sublist _
    · exact (ih maximum).cons j
    · exact (ih (maximum - 1)).cons_cons j

theorem partitionsToAssign_unassigned :
    ∀ (js : List ℕ) (maximum : ℤ), ∀ p ∈ partitionsToAssign mayAssign unassigned maximum js,
      unassigned[p]? = some true := by
  intro js
  induction js with
  | nil => intro maximum p hp; simp [partitionsToAssign] at hp
  | cons j js ih =>
    intro maximum p hp
    unfold partitionsToAssign at hp
    split_ifs at hp with hj hmax hmay
    · exact ih maximum p hp
    · simp at hp
    · exact ih maximum p hp
    · rcases List.mem_cons.1 hp with rfl | hp
      · exact (getD_eq_true_iff unassigned p).1 (by simpa using hj)
      · exact ih (maximum - 1) p hp

theorem length_partitionsToAssign_le :
    ∀ (js : List ℕ) (maximum : ℤ), 0 ≤ maximum →
      ((partitionsToAssign mayAssign unassigned maximum js).length : ℤ) ≤ maximum := by
  intro js
  induction js with
  | nil => intro maximum h; simpa [partitionsToAssign] using h
  | cons j js ih =>
    intro maximum h
    unfold partitionsToAssign
    split_ifs with hj hmax hmay
    · exact ih maximum h
    · simpa using h
    · exact ih maximum h
    · have := ih (maximum - 1) (by omega)
      rw [List.length_cons]
      push_cast
      omega

/-- With `rd_kafka_always`, a turn takes as many partitions as its limit allows or as
remain. -/
theorem length_partitionsToAssign_of_forall (hall : ∀ j, mayAssign j = true) :
    ∀ (js : List ℕ) (maximum : ℤ), 0 ≤ maximum →
      ((partitionsToAssign mayAssign unassigned maximum js).length : ℤ) =
        min maximum (js.countP fun j => unassigned.getD j false) := by
  intro js
  induction js with
  | nil => intro maximum h; simpa [partitionsToAssign] using h
  | cons j js ih =>
    intro maximum h
    rw [List.countP_cons]
    unfold partitionsToAssign
    by_cases hj : unassigned.getD j false = true
    · have hmay := hall j
      by_cases hmax : maximum ≤ 0
      · rw [if_neg (by rw [hj]; decide), if_pos hmax]
        simp only [List.length_nil, Nat.cast_zero]
        omega
      · rw [if_neg (by rw [hj]; decide), if_neg hmax, if_neg (by rw [hmay]; decide),
          List.length_cons,
          if_pos hj]
        have := ih (maximum - 1) (by omega)
        push_cast
        omega
    · rw [if_pos (by simpa using hj), if_neg hj, Nat.add_zero]
      exact ih maximum h

end Select

/-- Over `0 … n-1`, the partitions marked unassigned are those `count` counts. -/
theorem countP_range_getD (unassigned : List Bool) :
    (List.range unassigned.length).countP (fun j => unassigned.getD j false) =
      unassigned.count true := by
  have hmap : (List.range unassigned.length).map (fun j => unassigned.getD j false) =
      unassigned := by
    apply List.ext_getElem
    · simp
    · intro i h₁ h₂
      simp [List.getD_eq_getElem?_getD, List.getElem?_eq_getElem h₂]
  conv_rhs => rw [← hmap]
  rw [List.count, List.countP_map]
  apply List.countP_congr
  intro j _
  simp

end Rdkafka
