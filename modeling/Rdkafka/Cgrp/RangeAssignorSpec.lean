import Rdkafka.Cgrp.RangeAssignorRanges

/-!
# The range assignor's callback

`rd_kafka_range_assignor_assign_cb` keeps one assignment state per eligible topic in a
sorted list and passes over it three times: bucket by bucket (co-partitioned buckets, then
rack-aware ranges for a topic alone in its bucket), then once more over every state with
`rd_kafka_always`.  Every write goes to one state and to the members, so what holds of
the whole list is `StatesInv`: each state keeps `TopicInv`, the topic names stay distinct,
and every assignment entry is of one of the topics.  Each phase keeps it and writes only
the positions of its bucket (`StatesInv.set`); the last phase leaves no partition of any
topic unassigned.  Read back through `TopicInv`, that is the callback's specification
(`RangeAssigned`).
-/

set_option autoImplicit false

namespace Rdkafka

/-! ## The fresh state of a topic -/

theorem TopicAssignmentState.assignedCnt_eq_zero {rktas : TopicAssignmentState}
    (h : ∀ pair ∈ rktas.memberToAssignedPartitions, pair.assignedPartitions = [])
    (memberId : List UInt8) : rktas.assignedCnt memberId = 0 := by
  unfold TopicAssignmentState.assignedCnt TopicAssignmentState.pairOf
  cases findMemberAssignedPartitionsPairByMemberId memberId rktas.memberToAssignedPartitions with
  | none => rfl
  | some k =>
    cases hp : rktas.memberToAssignedPartitions[k]? with
    | none => simp [hp]
    | some pair => simp [hp, h pair (List.mem_of_getElem? hp)]

/-- **The initial state.**  `rd_kafka_topic_assignment_state_new` for a topic with
distinct subscribers, and members with distinct ids and empty assignments, meets the
invariant. -/
theorem topicAssignmentStateNew_inv {members : List GroupMember} {topic : AssignorTopic}
    (hids : (members.map (·.memberId)).Nodup) (hempty : ∀ rkgm ∈ members, rkgm.assignment = [])
    (hne : topic.members ≠ []) (hnodup : topic.members.Nodup)
    (hlt : ∀ i ∈ topic.members, i < members.length) :
    TopicInv members (topicAssignmentStateNew members topic) := by
  have hm : topic.members.length ≠ 0 := by simpa using hne
  have hpairs : ∀ pair ∈ (topicAssignmentStateNew members topic).memberToAssignedPartitions,
      pair.assignedPartitions = [] := by
    intro pair hpair
    have hmem := (List.perm_insertionSort _ _).subset hpair
    obtain ⟨memberId, -, rfl⟩ := List.mem_map.1 hmem
    rfl
  have hassigned : (topicAssignmentStateNew members topic).assigned = [] :=
    List.flatMap_eq_nil_iff.2 hpairs
  refine
    { members_pos := List.length_pos_of_ne_nil hne
      members_lt := hlt
      members_nodup := hnodup
      memberIds_nodup := hids
      pairs_perm := ?_
      perConsumer_eq := by simp [topicAssignmentStateNew, TopicAssignmentState.perConsumer, hm]
      length_unassigned := by simp [topicAssignmentStateNew]
      left_eq := by simp [topicAssignmentStateNew]
      mem_assigned := ?_
      assigned_nodup := by rw [hassigned]; exact List.nodup_nil
      length_le := ?_
      remaining_nonneg := by
        show 0 ≤ if topic.members.length = 0 then 0
          else ((topic.metadata.partitionCnt % topic.members.length : ℕ) : ℤ)
        rw [if_neg hm]
        exact Int.natCast_nonneg _
      count_extra := ?_
      member_cnt := ?_
      entries_perm := ?_ }
  · refine ((List.perm_insertionSort _ _).map _).trans ?_
    simp only [List.map_map, Function.comp_def, List.map_id']
    exact List.Perm.refl _
  · intro p
    rw [hassigned]
    simp [topicAssignmentStateNew, List.getElem?_replicate]
  · intro pair hpair
    rw [hpairs pair hpair]
    simp
  · have hzero : ((topicAssignmentStateNew members topic).memberToAssignedPartitions.map
        (·.assignedPartitions.length)).count
          ((topicAssignmentStateNew members topic).perConsumer + 1) = 0 := by
      rw [List.count_eq_zero]
      intro hmem
      obtain ⟨pair, hpair, hlen⟩ := List.mem_map.1 hmem
      rw [hpairs pair hpair] at hlen
      simp at hlen
    rw [hzero]
    show 0 + (if topic.members.length = 0 then (0 : ℤ)
      else ((topic.metadata.partitionCnt % topic.members.length : ℕ) : ℤ)).toNat =
        topic.metadata.partitionCnt % topic.members.length
    rw [if_neg hm, Int.toNat_natCast, Nat.zero_add]
  · intro i rkgm hi
    rw [hempty rkgm (List.mem_of_getElem? hi),
      TopicAssignmentState.assignedCnt_eq_zero hpairs]
    simp
  · have hentries : topicEntries members (topicAssignmentStateNew members topic).topicName = [] :=
      List.flatMap_eq_nil_iff.2 fun rkgm hrkgm => by simp [hempty rkgm hrkgm]
    rw [hentries, hassigned, List.map_nil]

/-! ## The list of states -/

/-- What the callback keeps true of its list of assignment states. -/
structure StatesInv (members : List GroupMember) (states : List TopicAssignmentState) :
    Prop where
  inv : ∀ s ∈ states, TopicInv members s
  names_nodup : (states.map (·.topicName)).Nodup
  entries_topic : ∀ rkgm ∈ members, ∀ tp ∈ rkgm.assignment,
    tp.topic ∈ states.map (·.topicName)

/-- The invariant holds of any permutation of the states. -/
theorem StatesInv.perm {members : List GroupMember} {states states' : List TopicAssignmentState}
    (hS : StatesInv members states) (hp : List.Perm states states') :
    StatesInv members states' where
  inv s hs := hS.inv s (hp.symm.subset hs)
  names_nodup := (hp.map _).nodup_iff.1 hS.names_nodup
  entries_topic rkgm hrkgm tp htp := (hp.map _).subset (hS.entries_topic rkgm hrkgm tp htp)

theorem map_topicName_eq {states states' : List TopicAssignmentState}
    (h : states'.map (·.topic) = states.map (·.topic)) :
    states'.map (·.topicName) = states.map (·.topicName) := by
  have hname : ∀ l : List TopicAssignmentState,
      l.map (·.topicName) = (l.map (·.topic)).map (·.metadata.topic) := by
    intro l
    rw [List.map_map]
    rfl
  rw [hname, hname, h]

/-- Setting a state to one with the same topic leaves the topics of the list. -/
theorem map_topic_set {states : List TopicAssignmentState} {b : ℕ}
    {s s' : TopicAssignmentState} (hb : states[b]? = some s) (h : s'.topic = s.topic) :
    (states.set b s').map (·.topic) = states.map (·.topic) := by
  apply List.ext_getElem?
  intro j
  rw [List.getElem?_map, List.getElem?_map, List.getElem?_set]
  by_cases hbj : b = j
  · subst hbj
    rw [if_pos rfl, if_pos (List.getElem?_eq_some_iff.1 hb).1, hb]
    simp [h]
  · rw [if_neg hbj]

/-- **One state's phase.**  A run within the state at `b` keeps the list invariant and
the list's topics. -/
theorem StatesInv.set {members members' : List GroupMember}
    {states : List TopicAssignmentState} (hS : StatesInv members states) {b : ℕ}
    {s s' : TopicAssignmentState} (hb : states[b]? = some s) (hinv' : TopicInv members' s')
    (hadv : Advances members s members' s') :
    StatesInv members' (states.set b s') ∧ (states.set b s').map (·.topic) = states.map (·.topic) := by
  have htopics := map_topic_set hb hadv.topic_eq
  have hnames := map_topicName_eq htopics
  refine ⟨⟨?_, hnames ▸ hS.names_nodup, ?_⟩, htopics⟩
  · intro s₂ hs₂
    obtain ⟨j, hj⟩ := List.mem_iff_getElem?.1 hs₂
    rw [List.getElem?_set] at hj
    by_cases hbj : b = j
    · rw [if_pos hbj, if_pos (List.getElem?_eq_some_iff.1 hb).1] at hj
      cases hj
      exact hinv'
    · rw [if_neg hbj] at hj
      have hne : s.topicName ≠ s₂.topicName := by
        intro heq
        have hblt : b < (states.map (·.topicName)).length := by
          simpa using (List.getElem?_eq_some_iff.1 hb).1
        apply hbj
        apply (List.getElem?_inj hblt hS.names_nodup).1
        simp [hb, hj, heq]
      exact (hS.inv s₂ (List.mem_of_getElem? hj)).granted_of_ne hne hadv.granted
  · rw [hnames]
    exact hadv.granted.forall_entries _ (List.mem_map_of_mem (List.mem_of_getElem? hb))
      hS.entries_topic

/-- Members equal up to their assignments have the same ids. -/
theorem map_memberId_of_map_clear {members members' : List GroupMember}
    (h : members'.map (fun rkgm => { rkgm with assignment := [] }) =
      members.map fun rkgm => { rkgm with assignment := [] }) :
    members'.map (·.memberId) = members.map (·.memberId) := by
  have := congrArg (List.map (·.memberId)) h
  simpa [List.map_map, Function.comp_def] using this

/-! ## Co-partitioned buckets -/

/-- With distinct ids, two position lists with the same member ids have the same
members. -/
theorem mem_of_memberIds_eq {members : List GroupMember}
    (hids : (members.map (·.memberId)).Nodup) {ps qs : List ℕ}
    (h : memberIds members ps = memberIds members qs) {j : ℕ} {rkgm : GroupMember}
    (hj : j ∈ qs) (hrkgm : members[j]? = some rkgm) : j ∈ ps := by
  have hmem : rkgm.memberId ∈ memberIds members ps :=
    h ▸ mem_memberIds.2 ⟨j, hj, by simp [hrkgm]⟩
  obtain ⟨j', hj', hid⟩ := mem_memberIds.1 hmem
  obtain ⟨rkgm', hrkgm', hid'⟩ := Option.map_eq_some_iff.1 hid
  rw [eq_of_memberId_eq hids hrkgm' hrkgm hid'] at hj'
  exact hj'

/-- The checks of a consumer over a bucket never fail on a missing pair, and when they pass
the consumer has room in every state of the bucket. -/
theorem coPartitionedFits_spec (rkgm : GroupMember) (i : ℕ) :
    ∀ bs : List TopicAssignmentState,
      (∀ s ∈ bs, ∃ k pair, findMemberAssignedPartitionsPairByMemberId rkgm.memberId
        s.memberToAssignedPartitions = some k ∧ s.memberToAssignedPartitions[k]? = some pair) →
      ∃ fits, coPartitionedFits rkgm i bs = some fits ∧
        (fits = true → ∀ s ∈ bs, ∀ k pair,
          findMemberAssignedPartitionsPairByMemberId rkgm.memberId
            s.memberToAssignedPartitions = some k →
          s.memberToAssignedPartitions[k]? = some pair → 0 < s.maximumAssignable pair) := by
  intro bs
  induction bs with
  | nil => intro _; exact ⟨true, rfl, fun _ s hs => absurd hs List.not_mem_nil⟩
  | cons s bs ih =>
    intro hpairs
    obtain ⟨k, pair, hk, hpair⟩ := hpairs s List.mem_cons_self
    obtain ⟨fits, hfits, hall⟩ := ih fun s' hs' => hpairs s' (List.mem_cons_of_mem s hs')
    unfold coPartitionedFits
    dsimp only
    split_ifs with hrack
    · exact ⟨false, rfl, fun h => absurd h Bool.false_ne_true⟩
    · rw [hk, Option.bind_some, hpair, Option.bind_some]
      split_ifs with hmax
      · exact ⟨false, rfl, fun h => absurd h Bool.false_ne_true⟩
      · refine ⟨fits, hfits, fun hf s' hs' k' pair' hk' hpair' => ?_⟩
        rcases List.mem_cons.1 hs' with rfl | hs'
        · rw [hk] at hk'
          cases hk'
          rw [hpair] at hpair'
          cases hpair'
          omega
        · exact hall hf s' hs' k' pair' hk' hpair'

/-- The consumer search over a bucket never fails on a missing member or pair; a consumer
it picks is one of the candidates, with room in every state of the bucket. -/
theorem coPartitionedConsumer_spec (members : List GroupMember)
    (bs : List TopicAssignmentState) (i : ℕ) :
    ∀ js : List ℕ, (∀ j ∈ js, ∃ rkgm, members[j]? = some rkgm ∧ ∀ s ∈ bs, ∃ k pair,
        findMemberAssignedPartitionsPairByMemberId rkgm.memberId
          s.memberToAssignedPartitions = some k ∧ s.memberToAssignedPartitions[k]? = some pair) →
      ∃ r, coPartitionedConsumer members bs i js = some r ∧ ∀ j, r = some j → j ∈ js ∧
        ∃ rkgm, members[j]? = some rkgm ∧ ∀ s ∈ bs, ∀ k pair,
          findMemberAssignedPartitionsPairByMemberId rkgm.memberId
            s.memberToAssignedPartitions = some k →
          s.memberToAssignedPartitions[k]? = some pair → 0 < s.maximumAssignable pair := by
  intro js
  induction js with
  | nil => intro _; exact ⟨none, rfl, fun _ h => by cases h⟩
  | cons j js ih =>
    intro hjs
    obtain ⟨rkgm, hrkgm, hpairs⟩ := hjs j List.mem_cons_self
    obtain ⟨fits, hfits, hfit⟩ := coPartitionedFits_spec rkgm i bs hpairs
    rw [coPartitionedConsumer, hrkgm, Option.bind_some, hfits, Option.bind_some]
    cases fits with
    | true =>
      rw [if_pos rfl]
      refine ⟨some j, rfl, fun j' h => ?_⟩
      cases h
      exact ⟨List.mem_cons_self, rkgm, hrkgm, hfit rfl⟩
    | false =>
      rw [if_neg Bool.false_ne_true]
      obtain ⟨r, hr, hspec⟩ := ih fun j' hj' => hjs j' (List.mem_cons_of_mem j hj')
      refine ⟨r, hr, fun j' h => ?_⟩
      obtain ⟨hj', hrest⟩ := hspec j' h
      exact ⟨List.mem_cons_of_mem j hj', hrest⟩

/-- **Partition `i` to one consumer in every state of a bucket.**  When the consumer has
room and partition `i` is unassigned in each state, every `rd_kafka_assign_partition`
succeeds; the list invariant holds after, and only the bucket's states change, in the
partition `i` alone. -/
theorem assignPartitionInBucket_spec {j i : ℕ} {memberId : List UInt8} :
    ∀ (bucket : List ℕ) (members : List GroupMember) (states : List TopicAssignmentState),
      StatesInv members states → bucket.Nodup → members[j]?.map (·.memberId) = some memberId →
      (∀ b ∈ bucket, ∃ s, states[b]? = some s ∧ j ∈ s.topic.members ∧
        s.unassignedPartitions[i]? = some true ∧ ∀ k pair,
          findMemberAssignedPartitionsPairByMemberId memberId
            s.memberToAssignedPartitions = some k →
          s.memberToAssignedPartitions[k]? = some pair → 0 < s.maximumAssignable pair) →
      ∃ members' states',
        assignPartitionInBucket j i bucket members states = some (members', states') ∧
        StatesInv members' states' ∧ states'.map (·.topic) = states.map (·.topic) ∧
        members'.map (fun rkgm => { rkgm with assignment := [] }) =
          members.map (fun rkgm => { rkgm with assignment := [] }) ∧
        (∀ k, k ∉ bucket → states'[k]? = states[k]?) ∧
        ∀ b ∈ bucket, ∀ s, states[b]? = some s → ∃ s', states'[b]? = some s' ∧
          s'.topic = s.topic ∧
          ∀ p, p ≠ i → s'.unassignedPartitions[p]? = s.unassignedPartitions[p]? := by
  intro bucket
  induction bucket with
  | nil =>
    intro members states hS _ _ _
    exact ⟨members, states, rfl, hS, rfl, rfl, fun _ _ => rfl,
      fun b hb => absurd hb List.not_mem_nil⟩
  | cons b bucket ih =>
    intro members states hS hnodup hj hb
    obtain ⟨hbnot, hnodup'⟩ := List.nodup_cons.1 hnodup
    obtain ⟨s, hs, hjs, hun, hroom⟩ := hb b List.mem_cons_self
    have hinv := hS.inv s (List.mem_of_getElem? hs)
    obtain ⟨rkgm, k, pair, hrkgm, hk, hpair, hpid, hcnt⟩ := hinv.exists_pair hjs
    have hid : rkgm.memberId = memberId := by
      rw [hrkgm] at hj
      simpa using hj
    have hmax := hroom k pair (hid ▸ hk) hpair
    rw [hinv.maximumAssignable_eq] at hmax
    have hinv₁ := hinv.recordPartition hjs hrkgm hk hpair hpid hun (by omega)
    obtain ⟨hS₁, htop₁⟩ := hS.set hs hinv₁ (Advances.recordPartition members s k pair i j)
    have hj₁ : (grantPartition s.topicName i j members)[j]?.map (·.memberId) = some memberId := by
      rw [← List.getElem?_map, map_memberId_grantPartition, List.getElem?_map, hj]
    have hb₁ : ∀ b' ∈ bucket, ∃ s', (states.set b (s.recordPartition k pair i))[b']? = some s' ∧
        j ∈ s'.topic.members ∧ s'.unassignedPartitions[i]? = some true ∧ ∀ k' pair',
          findMemberAssignedPartitionsPairByMemberId memberId
            s'.memberToAssignedPartitions = some k' →
          s'.memberToAssignedPartitions[k']? = some pair' → 0 < s'.maximumAssignable pair' := by
      intro b' hb'
      have hne : b ≠ b' := fun h => hbnot (h ▸ hb')
      rw [List.getElem?_set_ne hne]
      exact hb b' (List.mem_cons_of_mem b hb')
    obtain ⟨members', states', hrun, hS', htop', hids', hframe', hbucket'⟩ :=
      ih _ _ hS₁ hnodup' hj₁ hb₁
    refine ⟨members', states', ?_, hS', htop'.trans htop₁,
      hids'.trans (map_clear_grantPartition _ _ _ _), ?_, ?_⟩
    · rw [assignPartitionInBucket, hs, Option.bind_some, assignPartition_eq hrkgm hk hpair hun,
        Option.bind_some]
      exact hrun
    · intro k' hk'
      have hne : b ≠ k' := fun h => hk' (h ▸ List.mem_cons_self)
      rw [hframe' k' fun h => hk' (List.mem_cons_of_mem b h), List.getElem?_set_ne hne]
    · intro b' hb' s₀ hs₀
      by_cases hbb : b' = b
      · subst hbb
        rw [hs] at hs₀
        cases hs₀
        refine ⟨s.recordPartition k pair i, ?_, rfl, fun p hp => ?_⟩
        · rw [hframe' b' hbnot, List.getElem?_set_self (List.getElem?_eq_some_iff.1 hs).1]
        · rw [TopicAssignmentState.recordPartition_unassignedPartitions,
            List.getElem?_set_ne (Ne.symm hp)]
      · have hb'' : b' ∈ bucket := (List.mem_cons.1 hb').resolve_left hbb
        apply hbucket' b' hb'' s₀
        rw [List.getElem?_set_ne (Ne.symm hbb), hs₀]

/-- **The co-partitioned loop.**  With every consumer of the bucket subscribed to each of its
topics, and the partitions still to come unassigned in each, every step succeeds: partition
`i` goes to a consumer with room in all the bucket's states, or to none. -/
theorem assignCoPartitionedLoop_spec (bucket consumers : List ℕ) :
    ∀ (is : List ℕ) (members : List GroupMember) (states : List TopicAssignmentState),
      StatesInv members states → bucket.Nodup → is.Nodup →
      (∀ j ∈ consumers, j < members.length) →
      (∀ b ∈ bucket, ∃ s, states[b]? = some s ∧ (∀ j ∈ consumers, j ∈ s.topic.members) ∧
        ∀ p ∈ is, s.unassignedPartitions[p]? = some true) →
      ∃ members' states',
        assignCoPartitionedLoop bucket consumers is members states = some (members', states') ∧
        StatesInv members' states' ∧ states'.map (·.topic) = states.map (·.topic) ∧
        members'.map (fun rkgm => { rkgm with assignment := [] }) =
          members.map (fun rkgm => { rkgm with assignment := [] }) ∧
        ∀ k, k ∉ bucket → states'[k]? = states[k]? := by
  intro is
  induction is with
  | nil =>
    intro members states hS _ _ _ _
    exact ⟨members, states, rfl, hS, rfl, rfl, fun _ _ => rfl⟩
  | cons i is ih =>
    intro members states hS hnodup his hcons hb
    obtain ⟨hinot, his'⟩ := List.nodup_cons.1 his
    have hpairs : ∀ j ∈ consumers, ∃ rkgm, members[j]? = some rkgm ∧
        ∀ s ∈ bucket.filterMap (states[·]?), ∃ k pair,
          findMemberAssignedPartitionsPairByMemberId rkgm.memberId
            s.memberToAssignedPartitions = some k ∧ s.memberToAssignedPartitions[k]? = some pair := by
      intro j hj
      have hjlt := hcons j hj
      refine ⟨members[j], List.getElem?_eq_getElem hjlt, fun s hs => ?_⟩
      obtain ⟨b, hbm, hsb⟩ := List.mem_filterMap.1 hs
      obtain ⟨s', hs', hjs', -⟩ := hb b hbm
      have hss : s' = s := Option.some.inj (hs'.symm.trans hsb)
      subst hss
      obtain ⟨rkgm, k, pair, hrkgm, hk, hpair, -, -⟩ :=
        (hS.inv s' (List.mem_of_getElem? hs')).exists_pair (hjs' j hj)
      rw [List.getElem?_eq_getElem hjlt] at hrkgm
      cases hrkgm
      exact ⟨k, pair, hk, hpair⟩
    have hb' : ∀ b ∈ bucket, ∃ s, states[b]? = some s ∧ (∀ j ∈ consumers, j ∈ s.topic.members) ∧
        ∀ p ∈ is, s.unassignedPartitions[p]? = some true := by
      intro b hbm
      obtain ⟨s, hs, hjs, hun⟩ := hb b hbm
      exact ⟨s, hs, hjs, fun p hp => hun p (List.mem_cons_of_mem i hp)⟩
    obtain ⟨r, hr, hrspec⟩ := coPartitionedConsumer_spec members _ i consumers hpairs
    cases r with
    | none =>
      obtain ⟨members', states', hrun, hrest⟩ := ih members states hS hnodup his' hcons hb'
      refine ⟨members', states', ?_, hrest⟩
      rw [assignCoPartitionedLoop, hr, Option.bind_some]
      exact hrun
    | some j =>
      obtain ⟨hjc, rkgm, hrkgm, hfit⟩ := hrspec j rfl
      obtain ⟨members₁, states₁, hbucket, hS₁, htop₁, hclear₁, hframe₁, hb₁⟩ :=
        assignPartitionInBucket_spec bucket members states hS hnodup (by rw [hrkgm]; rfl)
          fun b hbm => by
            obtain ⟨s, hs, hjs, hun⟩ := hb b hbm
            exact ⟨s, hs, hjs j hjc, hun i List.mem_cons_self,
              hfit s (List.mem_filterMap.2 ⟨b, hbm, hs⟩)⟩
      have hlen₁ : members₁.length = members.length := by
        simpa using congrArg List.length hclear₁
      have hb₂ : ∀ b ∈ bucket, ∃ s, states₁[b]? = some s ∧
          (∀ j ∈ consumers, j ∈ s.topic.members) ∧
          ∀ p ∈ is, s.unassignedPartitions[p]? = some true := by
        intro b hbm
        obtain ⟨s, hs, hjs, hun⟩ := hb b hbm
        obtain ⟨s', hs', htop, hunset⟩ := hb₁ b hbm s hs
        refine ⟨s', hs', fun j' hj' => htop ▸ hjs j' hj', fun p hp => ?_⟩
        rw [hunset p fun h => hinot (h ▸ hp)]
        exact hun p (List.mem_cons_of_mem i hp)
      obtain ⟨members', states', hrun, hS', htop', hclear', hframe'⟩ :=
        ih members₁ states₁ hS₁ hnodup his' (fun j' hj' => hlen₁ ▸ hcons j' hj') hb₂
      refine ⟨members', states', ?_, hS', htop'.trans htop₁, hclear'.trans hclear₁,
        fun k hk => (hframe' k hk).trans (hframe₁ k hk)⟩
      simp only [assignCoPartitionedLoop, hr, Option.bind_some, hbucket]
      exact hrun

/-- **`rd_kafka_assign_co_partitioned`.**  When the consumers of the bucket's first state
subscribe to every topic of the bucket, and its states are fresh up to the first's partition
count, the phase succeeds and touches only the bucket's states. -/
theorem assignCoPartitioned_spec {bucket : List ℕ} {members : List GroupMember}
    {states : List TopicAssignmentState} (hS : StatesInv members states) (hnodup : bucket.Nodup)
    {b₀ : ℕ} {first : TopicAssignmentState} (hhead : bucket.head? = some b₀)
    (hfirst : states[b₀]? = some first)
    (hb : ∀ b ∈ bucket, ∃ s, states[b]? = some s ∧
      (∀ j ∈ first.topic.members, j ∈ s.topic.members) ∧
      ∀ p < first.topic.metadata.partitionCnt, s.unassignedPartitions[p]? = some true) :
    ∃ members' states', assignCoPartitioned bucket members states = some (members', states') ∧
      StatesInv members' states' ∧ states'.map (·.topic) = states.map (·.topic) ∧
      members'.map (fun rkgm => { rkgm with assignment := [] }) =
        members.map (fun rkgm => { rkgm with assignment := [] }) ∧
      ∀ k, k ∉ bucket → states'[k]? = states[k]? := by
  obtain ⟨members', states', hrun, hrest⟩ :=
    assignCoPartitionedLoop_spec bucket first.topic.members
      (List.range first.topic.metadata.partitionCnt) members states hS hnodup List.nodup_range
      (hS.inv first (List.mem_of_getElem? hfirst)).members_lt fun b hbm => by
        obtain ⟨s, hs, hjs, hun⟩ := hb b hbm
        exact ⟨s, hs, hjs, fun p hp => hun p (List.mem_range.1 hp)⟩
  refine ⟨members', states', ?_, hrest⟩
  rw [assignCoPartitioned, hhead, Option.bind_some, hfirst, Option.bind_some]
  exact hrun

/-! ## Buckets -/

theorem memberIdsCmp_eq_iff : ∀ {a b : List (List UInt8)}, memberIdsCmp a b = .eq ↔ a = b := by
  intro a
  induction a with
  | nil => intro b; cases b <;> simp [memberIdsCmp]
  | cons x a ih =>
    intro b
    cases b with
    | nil => simp [memberIdsCmp]
    | cons y b =>
      have hxy : kafkapStrCmp x y = .eq ↔ x = y := strcmp_eq_iff
      rw [memberIdsCmp, List.cons.injEq]
      cases h : kafkapStrCmp x y with
      | eq =>
        simp only [ih]
        exact ⟨fun hab => ⟨hxy.1 h, hab⟩, fun hxab => hxab.2⟩
      | lt =>
        simp only [reduceCtorEq, false_iff, not_and]
        intro he
        rw [hxy.2 he] at h
        cases h
      | gt =>
        simp only [reduceCtorEq, false_iff, not_and]
        intro he
        rw [hxy.2 he] at h
        cases h

/-- States that compare equal have the same subscribers and the same partition count. -/
theorem topicAssignmentStateCmp_eq_eq {members : List GroupMember} {a b : TopicAssignmentState}
    (h : topicAssignmentStateCmp members a b = .eq) :
    memberIds members a.topic.members = memberIds members b.topic.members ∧
      a.topic.metadata.partitionCnt = b.topic.metadata.partitionCnt := by
  unfold topicAssignmentStateCmp at h
  cases hc : memberIdsCmp (memberIds members a.topic.members)
      (memberIds members b.topic.members) with
  | eq =>
    simp only [hc] at h
    exact ⟨memberIdsCmp_eq_iff.1 hc, compare_eq_iff_eq.1 h⟩
  | lt => simp [hc] at h
  | gt => simp [hc] at h

theorem topicAssignmentStateCmp_self (members : List GroupMember) (a : TopicAssignmentState) :
    topicAssignmentStateCmp members a a = .eq := by
  unfold topicAssignmentStateCmp
  rw [memberIdsCmp_eq_iff.2 rfl]
  exact compare_eq_iff_eq.2 rfl

/-- A bucket of positions into `states`: it starts at the state `first`, and every state in
it compares equal to `first`. -/
def BucketOf (members : List GroupMember) (states : List TopicAssignmentState)
    (first : TopicAssignmentState) (bucket : List ℕ) : Prop :=
  ∃ b₀, bucket.head? = some b₀ ∧ states[b₀]? = some first ∧
    ∀ b ∈ bucket, ∃ s, states[b]? = some s ∧ topicAssignmentStateCmp members s first = .eq

theorem bucketsLoop_spec (members : List GroupMember) (states : List TopicAssignmentState) :
    ∀ (rest : List (TopicAssignmentState × ℕ)) (first : TopicAssignmentState)
      (current : List ℕ), BucketOf members states first current →
      (∀ x ∈ rest, states[x.2]? = some x.1) →
      (∀ B ∈ bucketsLoop members first current rest, ∃ first', BucketOf members states first' B) ∧
        (bucketsLoop members first current rest).flatten = current ++ rest.map (·.2) := by
  intro rest
  induction rest with
  | nil =>
    intro first current h _
    refine ⟨fun B hB => ?_, by simp [bucketsLoop]⟩
    rw [bucketsLoop, List.mem_singleton] at hB
    exact ⟨first, hB ▸ h⟩
  | cons x rest ih =>
    obtain ⟨s, k⟩ := x
    intro first current h hrest
    have hk : states[k]? = some s := hrest (s, k) List.mem_cons_self
    have hrest' : ∀ x ∈ rest, states[x.2]? = some x.1 :=
      fun x hx => hrest x (List.mem_cons_of_mem _ hx)
    rw [bucketsLoop]
    split_ifs with hcmp
    · -- the state joins the current bucket
      obtain ⟨b₀, hhead, hfirst, hall⟩ := h
      have h' : BucketOf members states first (current ++ [k]) := by
        refine ⟨b₀, ?_, hfirst, fun b hb => ?_⟩
        · rw [List.head?_append, hhead]
          rfl
        · rcases List.mem_append.1 hb with hb | hb
          · exact hall b hb
          · rw [List.mem_singleton] at hb
            subst hb
            exact ⟨s, hk, hcmp⟩
      obtain ⟨hok, hflat⟩ := ih first (current ++ [k]) h' hrest'
      exact ⟨hok, by rw [hflat]; simp⟩
    · -- the state starts a new bucket
      have h' : BucketOf members states s [k] := by
        refine ⟨k, rfl, hk, fun b hb => ?_⟩
        rw [List.mem_singleton] at hb
        subst hb
        exact ⟨s, hk, topicAssignmentStateCmp_self members s⟩
      obtain ⟨hok, hflat⟩ := ih s [k] h' hrest'
      refine ⟨fun B hB => ?_, by rw [List.flatten_cons, hflat]; simp⟩
      rcases List.mem_cons.1 hB with rfl | hB
      · exact ⟨first, h⟩
      · exact hok B hB

/-- The buckets of the sorted states partition their positions. -/
theorem topicAssignmentStateBuckets_spec (members : List GroupMember)
    (states : List TopicAssignmentState) :
    (∀ B ∈ topicAssignmentStateBuckets members states, ∃ first, BucketOf members states first B) ∧
      (topicAssignmentStateBuckets members states).flatten = List.range states.length := by
  have hmem : ∀ x ∈ states.zipIdx, states[x.2]? = some x.1 :=
    fun x hx => List.mem_zipIdx_iff_getElem?.1 hx
  have hsnd : states.zipIdx.map (·.2) = List.range states.length := by
    rw [List.zipIdx_map_snd, List.range_eq_range']
  unfold topicAssignmentStateBuckets
  split
  · next h =>
    rw [h, List.map_nil] at hsnd
    exact ⟨fun B hB => absurd hB List.not_mem_nil, hsnd⟩
  · next s k rest h =>
    have hk := hmem (s, k) (h ▸ List.mem_cons_self)
    have h₀ : BucketOf members states s [k] := by
      refine ⟨k, rfl, hk, fun b hb => ?_⟩
      rw [List.mem_singleton] at hb
      subst hb
      exact ⟨s, hk, topicAssignmentStateCmp_self members s⟩
    obtain ⟨hok, hflat⟩ := bucketsLoop_spec members states rest s [k] h₀
      fun x hx => hmem x (h ▸ List.mem_cons_of_mem _ hx)
    refine ⟨hok, ?_⟩
    rw [hflat, ← hsnd, h]
    rfl

/-! ## The phases of the callback -/

/-- **The bucket phases.**  Starting from fresh states and the members the states were
sorted with, every bucket's phase succeeds: a lone topic gets its rack-aware ranges when it
needs them, a bucket of several topics its co-partitioned assignment. -/
theorem rangeBucketsLoop_spec {members₀ : List GroupMember}
    {states₀ : List TopicAssignmentState}
    (hfresh : ∀ s ∈ states₀,
      s.unassignedPartitions = List.replicate s.topic.metadata.partitionCnt true) :
    ∀ (buckets : List (List ℕ)) (members : List GroupMember) (states : List TopicAssignmentState),
      StatesInv members states → members.map (·.memberId) = members₀.map (·.memberId) →
      buckets.flatten.Nodup → (∀ B ∈ buckets, ∃ first, BucketOf members₀ states₀ first B) →
      (∀ k ∈ buckets.flatten, states[k]? = states₀[k]?) →
      ∃ members' states', rangeBucketsLoop buckets members states = some (members', states') ∧
        StatesInv members' states' ∧ states'.map (·.topic) = states.map (·.topic) ∧
        members'.map (fun rkgm => { rkgm with assignment := [] }) =
          members.map (fun rkgm => { rkgm with assignment := [] }) := by
  intro buckets
  induction buckets with
  | nil =>
    intro members states hS _ _ _ _
    exact ⟨members, states, rfl, hS, rfl, rfl⟩
  | cons B buckets ih =>
    intro members states hS hids hnodup hok hcur
    rw [List.flatten_cons] at hnodup hcur
    obtain ⟨hBnodup, hrestNodup, hdisj⟩ := List.nodup_append.1 hnodup
    obtain ⟨first, b₀, hhead, hfirst₀, hall⟩ := hok B List.mem_cons_self
    have hcurB : ∀ k ∈ B, states[k]? = states₀[k]? := fun k hk => hcur k (List.mem_append_left _ hk)
    -- what is left to do after this bucket's phase
    have hnext : ∀ (members₁ : List GroupMember) (states₁ : List TopicAssignmentState),
        StatesInv members₁ states₁ →
        members₁.map (fun rkgm => { rkgm with assignment := [] }) =
          members.map (fun rkgm => { rkgm with assignment := [] }) →
        states₁.map (·.topic) = states.map (·.topic) → (∀ k, k ∉ B → states₁[k]? = states[k]?) →
        ∃ members' states', rangeBucketsLoop buckets members₁ states₁ = some (members', states') ∧
          StatesInv members' states' ∧ states'.map (·.topic) = states.map (·.topic) ∧
          members'.map (fun rkgm => { rkgm with assignment := [] }) =
            members.map (fun rkgm => { rkgm with assignment := [] }) := by
      intro members₁ states₁ hS₁ hclear₁ htop₁ hframe₁
      obtain ⟨members', states', hrun, hS', htop', hclear'⟩ :=
        ih members₁ states₁ hS₁ ((map_memberId_of_map_clear hclear₁).trans hids) hrestNodup
          (fun B' hB' => hok B' (List.mem_cons_of_mem B hB'))
          fun k hk => (hframe₁ k fun hkB => hdisj k hkB k hk rfl).trans
            (hcur k (List.mem_append_right _ hk))
      exact ⟨members', states', hrun, hS', htop'.trans htop₁, hclear'.trans hclear₁⟩
    have hstate : ∀ b ∈ B, ∃ s, states[b]? = some s ∧ s ∈ states₀ ∧
        topicAssignmentStateCmp members₀ s first = .eq := by
      intro b hb
      obtain ⟨s, hs₀, hcmp⟩ := hall b hb
      exact ⟨s, (hcurB b hb).trans hs₀, List.mem_of_getElem? hs₀, hcmp⟩
    match B, hhead, hBnodup, hcurB, hstate, hnext with
    | [], hhead, _, _, _, _ => simp at hhead
    | [b], _, _, _, hstate, hnext =>
      -- a topic alone in its bucket
      obtain ⟨s, hs, -, -⟩ := hstate b List.mem_cons_self
      simp only [rangeBucketsLoop, hs, Option.bind_some]
      by_cases hneeds : s.needsRackAwareAssignment = true
      · rw [if_neg (by simp [hneeds])]
        obtain ⟨members₁, s₁, hrun, hinv₁, hadv₁, -⟩ :=
          assignRanges_spec racksMatch (hS.inv s (List.mem_of_getElem? hs))
        obtain ⟨hS₁, htop₁⟩ := hS.set hs hinv₁ hadv₁
        rw [hrun]
        exact hnext members₁ _ hS₁ (hadv₁.granted.map_of_forall _ fun _ _ => rfl) htop₁
          fun k hk => List.getElem?_set_ne fun h => hk (by rw [← h]; exact List.mem_singleton_self b)
      · rw [if_pos (by simpa using hneeds)]
        exact hnext members states hS rfl rfl fun _ _ => rfl
    | b₁ :: b₂ :: rest, hhead, hBnodup, hcurB, hstate, hnext =>
      -- co-partitioned topics
      have hb₀ : b₀ = b₁ := (Option.some.inj hhead).symm
      subst hb₀
      have hfirst : states[b₀]? = some first := (hcurB b₀ List.mem_cons_self).trans hfirst₀
      have hinvFirst := hS.inv first (List.mem_of_getElem? hfirst)
      obtain ⟨members₁, states₁, hco, hS₁, htop₁, hclear₁, hframe₁⟩ :=
        assignCoPartitioned_spec hS hBnodup hhead hfirst fun b hb => by
          obtain ⟨s, hs, hs₀, hcmp⟩ := hstate b hb
          obtain ⟨hmid, hn⟩ := topicAssignmentStateCmp_eq_eq hcmp
          refine ⟨s, hs, fun j hj => ?_, fun p hp => ?_⟩
          · have hjlt := hinvFirst.members_lt j hj
            refine mem_of_memberIds_eq hinvFirst.memberIds_nodup ?_ hj
              (List.getElem?_eq_getElem hjlt)
            rw [memberIds_congr hids, memberIds_congr hids]
            exact hmid
          · rw [hfresh s hs₀, List.getElem?_replicate, if_pos (by omega)]
      simp only [rangeBucketsLoop, hco, Option.bind_some]
      exact hnext members₁ states₁ hS₁ hclear₁ htop₁ hframe₁

/-- **The last phase.**  `rd_kafka_assign_ranges` with `rd_kafka_always` over the states
at `ks` succeeds and leaves none of them with a partition unassigned. -/
theorem rangeLeftoverLoop_spec :
    ∀ (ks : List ℕ) (members : List GroupMember) (states : List TopicAssignmentState),
      StatesInv members states → ks.Nodup → (∀ k ∈ ks, k < states.length) →
      ∃ members' states', rangeLeftoverLoop ks members states = some (members', states') ∧
        StatesInv members' states' ∧ states'.map (·.topic) = states.map (·.topic) ∧
        members'.map (fun rkgm => { rkgm with assignment := [] }) =
          members.map (fun rkgm => { rkgm with assignment := [] }) ∧
        (∀ k, k ∉ ks → states'[k]? = states[k]?) ∧
        ∀ k ∈ ks, ∀ s, states'[k]? = some s → s.unassignedPartitionsLeft = 0 := by
  intro ks
  induction ks with
  | nil =>
    intro members states hS _ _
    exact ⟨members, states, rfl, hS, rfl, rfl, fun _ _ => rfl, fun k hk => absurd hk List.not_mem_nil⟩
  | cons k ks ih =>
    intro members states hS hnodup hlt
    obtain ⟨hknot, hnodup'⟩ := List.nodup_cons.1 hnodup
    have hklt := hlt k List.mem_cons_self
    have hk : states[k]? = some states[k] := List.getElem?_eq_getElem hklt
    obtain ⟨members₁, s₁, hrun, hinv₁, hadv₁, hleft₁⟩ :=
      assignRanges_spec always (hS.inv states[k] (List.getElem_mem _))
    obtain ⟨hS₁, htop₁⟩ := hS.set hk hinv₁ hadv₁
    have hlen₁ : (states.set k s₁).length = states.length := List.length_set
    obtain ⟨members', states', hrun', hS', htop', hclear', hframe', hleft'⟩ :=
      ih members₁ (states.set k s₁) hS₁ hnodup'
        fun k' hk' => hlen₁ ▸ hlt k' (List.mem_cons_of_mem k hk')
    refine ⟨members', states', ?_, hS', htop'.trans htop₁,
      hclear'.trans (hadv₁.granted.map_of_forall _ fun _ _ => rfl), fun k' hk' => ?_,
      fun k' hk' s hs => ?_⟩
    · rw [rangeLeftoverLoop, hk, Option.bind_some, hrun, Option.bind_some]
      exact hrun'
    · rw [hframe' k' fun h => hk' (List.mem_cons_of_mem k h),
        List.getElem?_set_ne fun h => hk' (by rw [← h]; exact List.mem_cons_self)]
    · rcases List.mem_cons.1 hk' with rfl | hk'
      · rw [hframe' k' hknot, List.getElem?_set_self (hlt k' List.mem_cons_self)] at hs
        cases hs
        exact hleft₁ fun _ _ _ => rfl
      · exact hleft' k' hk' s hs

/-! ## The callback -/

/-- An entry of the members' assignments is counted among the entries of its topic. -/
theorem count_flatMap_assignment (members : List GroupMember) (tp : TpKey) :
    (members.flatMap (·.assignment)).count tp = (topicEntries members tp.topic).count tp := by
  simp [topicEntries, List.count_flatMap, Function.comp_def, List.count_filter]

theorem sortGroupMembers_perm (members : List GroupMember) (positions : List ℕ) :
    List.Perm (sortGroupMembers members positions) positions :=
  List.perm_insertionSort _ _

/-- A state set up for an eligible topic, with its subscribers in any order, has the topic's
name, partitions and subscribers. -/
theorem TopicAssignmentState.topic_of_eq_perm {s : TopicAssignmentState} {t : AssignorTopic}
    {ms : List ℕ} (hst : s.topic = { t with members := ms }) (hperm : List.Perm ms t.members) :
    s.topicName = t.metadata.topic ∧
      s.topic.metadata.partitionCnt = t.metadata.partitionCnt ∧
      s.topic.members.length = t.members.length ∧ ∀ i, i ∈ s.topic.members ↔ i ∈ t.members := by
  refine ⟨by rw [TopicAssignmentState.topicName, hst], by rw [hst], ?_, fun i => ?_⟩
  · rw [hst]
    exact hperm.length_eq
  · rw [hst]
    exact hperm.mem_iff

/-- A state with nothing left has each of its partitions in one member's assignment, once. -/
theorem TopicInv.count_eq_one {members : List GroupMember} {rktas : TopicAssignmentState}
    (hinv : TopicInv members rktas) (hleft : rktas.unassignedPartitionsLeft = 0) {p : ℕ}
    (hp : p < rktas.topic.metadata.partitionCnt) :
    (members.flatMap (·.assignment)).count ⟨rktas.topicName, p⟩ = 1 := by
  have hrange := (hinv.assigned_perm_range hleft).map
    fun p : ℕ => (⟨rktas.topicName, p⟩ : TpKey)
  rw [count_flatMap_assignment, hinv.entries_perm.count_eq, hrange.count_eq]
  refine List.count_eq_one_of_mem ?_ ?_
  · exact List.nodup_range.map fun a b h => by simpa using h
  · exact List.mem_map.2 ⟨p, List.mem_range.2 hp, rfl⟩

/-- Each subscriber of a state with nothing left holds `⌊n / m⌋` or `⌈n / m⌉` of the topic's
`n` partitions, `m` the number of subscribers. -/
theorem TopicInv.share_bounds_of_member {members : List GroupMember}
    {rktas : TopicAssignmentState} (hinv : TopicInv members rktas)
    (hleft : rktas.unassignedPartitionsLeft = 0) {i : ℕ} (hi : i ∈ rktas.topic.members)
    {rkgm : GroupMember} (hrkgm : members[i]? = some rkgm) :
    rktas.topic.metadata.partitionCnt / rktas.topic.members.length ≤
      (rkgm.assignment.filter fun tp => tp.topic = rktas.topicName).length ∧
    (rkgm.assignment.filter fun tp => tp.topic = rktas.topicName).length ≤
      (rktas.topic.metadata.partitionCnt + rktas.topic.members.length - 1) /
        rktas.topic.members.length := by
  have hcnt := hinv.member_cnt i rkgm hrkgm
  rw [if_pos hi] at hcnt
  obtain ⟨rkgm', k, pair, hrkgm', -, hpair, -, hpcnt⟩ := hinv.exists_pair hi
  rw [hrkgm] at hrkgm'
  cases hrkgm'
  have hbounds := hinv.share_bounds hleft (List.mem_of_getElem? hpair)
  rw [hcnt, hpcnt, Quota.ceil_div_eq hinv.members_pos]
  exact hbounds

/-- An entry of a member's assignment is a partition of the topic of one of the states,
and the member is one of that topic's subscribers. -/
theorem StatesInv.exists_state_of_mem {members : List GroupMember}
    {states : List TopicAssignmentState} (hS : StatesInv members states) {i : ℕ}
    {rkgm : GroupMember} (hi : members[i]? = some rkgm) {tp : TpKey}
    (htp : tp ∈ rkgm.assignment) :
    ∃ s ∈ states, tp.topic = s.topicName ∧ i ∈ s.topic.members ∧ 0 ≤ tp.partition ∧
      tp.partition < s.topic.metadata.partitionCnt := by
  have hrkgm := List.mem_of_getElem? hi
  obtain ⟨s, hs, hname⟩ := List.mem_map.1 (hS.entries_topic rkgm hrkgm tp htp)
  have hinv := hS.inv s hs
  have hfilter : tp ∈ rkgm.assignment.filter fun tp => tp.topic = s.topicName :=
    List.mem_filter.2 ⟨htp, by simpa using hname.symm⟩
  -- a member outside the topic's subscribers holds none of its partitions
  have hsub : i ∈ s.topic.members := by
    by_contra hnot
    have hcnt := hinv.member_cnt i rkgm hi
    rw [if_neg hnot] at hcnt
    exact List.not_mem_nil (List.eq_nil_of_length_eq_zero hcnt ▸ hfilter)
  have hentry : tp ∈ topicEntries members s.topicName :=
    List.mem_flatMap.2 ⟨rkgm, hrkgm, hfilter⟩
  obtain ⟨p, hp, rfl⟩ := List.mem_map.1 (hinv.entries_perm.subset hentry)
  exact ⟨s, hs, rfl, hsub, by simp, by simpa using hinv.lt_of_mem_assigned hp⟩

section Callback

variable (regexMatch : List UInt8 → List UInt8 → Bool)

/-- What `rd_kafka_range_assignor_assign_cb` leaves as the members `members'`, from
`members` and the eligible topics `ts`. -/
structure RangeAssigned (members : List GroupMember) (ts : List AssignorTopic)
    (members' : List GroupMember) : Prop where
  /-- The same members in the same places, with nothing changed but their assignments. -/
  members_eq : members'.map (fun rkgm => { rkgm with assignment := [] }) =
    members.map (fun rkgm => { rkgm with assignment := [] })
  /-- Every partition of every eligible topic is in one member's assignment, once. -/
  assigned_once : ∀ t ∈ ts, ∀ p < t.metadata.partitionCnt,
    (members'.flatMap (·.assignment)).count ⟨t.metadata.topic, p⟩ = 1
  /-- A member holds only partitions of eligible topics, and only of topics it subscribes
  to. -/
  subscribed : ∀ rkgm ∈ members', ∀ tp ∈ rkgm.assignment,
    (∃ t ∈ ts, tp.topic = t.metadata.topic ∧ 0 ≤ tp.partition ∧
      tp.partition < t.metadata.partitionCnt) ∧
    groupMemberFindSubscription regexMatch rkgm tp.topic = true
  /-- Each subscriber of a topic with `n` partitions and `m` subscribers holds `⌊n / m⌋` or
  `⌈n / m⌉` of them. -/
  balanced : ∀ t ∈ ts, ∀ i ∈ t.members, ∀ rkgm, members'[i]? = some rkgm →
    t.metadata.partitionCnt / t.members.length ≤
      (rkgm.assignment.filter fun tp => tp.topic = t.metadata.topic).length ∧
    (rkgm.assignment.filter fun tp => tp.topic = t.metadata.topic).length ≤
      (t.metadata.partitionCnt + t.members.length - 1) / t.members.length

variable {regexMatch}

/-! `qsort` leaves the order of equal or inconsistently ordered elements undetermined, and
`rd_kafka_group_member_cmp` is not transitive on groups that mix static and dynamic members.
So the two loops are proved for the subscribers of each topic in any order, and for the
states in any order; the callback's own sorts are one instance. -/

/-- The state the callback sets up for an eligible topic, with its subscribers in any order,
meets the invariant. -/
theorem EligibleTopic.inv_topicAssignmentStateNew {blacklisted : List UInt8 → Bool}
    {metadata : List MetadataTopic} {members : List GroupMember} {t : AssignorTopic}
    (hel : EligibleTopic regexMatch blacklisted metadata members t)
    (hids : (members.map (·.memberId)).Nodup)
    (hempty : ∀ rkgm ∈ members, rkgm.assignment = []) {ms : List ℕ}
    (hperm : List.Perm ms t.members) :
    TopicInv members (topicAssignmentStateNew members { t with members := ms }) := by
  have hnodup : ms.Nodup := hperm.nodup_iff.2 hel.members_nodup
  refine topicAssignmentStateNew_inv hids hempty ?_ hnodup fun i hi => ?_
  · intro hnil
    apply hel.members_ne_nil
    have hsnil : ms = [] := hnil
    rw [hsnil] at hperm
    exact hperm.symm.eq_nil
  · obtain ⟨m, hm, -⟩ := (hel.mem_members_iff i).1 (hperm.subset hi)
    exact (List.getElem?_eq_some_iff.1 hm).1

section Loops

variable {blacklisted : List UInt8 → Bool} {metadata : List MetadataTopic}
  {members : List GroupMember} {ts : List AssignorTopic} {ms : AssignorTopic → List ℕ}
  {states₀ : List TopicAssignmentState}

/-- The states the two loops end with, from the states of the eligible topics in any order:
every state meets the invariant with nothing left, and the states are those of the eligible
topics. -/
theorem rangeAssignorLoops_states
    (hel : ∀ t ∈ ts, EligibleTopic regexMatch blacklisted metadata members t)
    (hnames : (ts.map (·.metadata.topic)).Nodup) (hids : (members.map (·.memberId)).Nodup)
    (hempty : ∀ rkgm ∈ members, rkgm.assignment = [])
    (hms : ∀ t ∈ ts, List.Perm (ms t) t.members)
    (hperm₀ : List.Perm states₀
      (ts.map fun t => topicAssignmentStateNew members { t with members := ms t })) :
    ∃ members₁ states₁ members' states',
      rangeBucketsLoop (topicAssignmentStateBuckets members states₀) members states₀ =
        some (members₁, states₁) ∧
      rangeLeftoverLoop (List.range states₁.length) members₁ states₁ = some (members', states') ∧
      StatesInv members' states' ∧
      (∀ s ∈ states', s.unassignedPartitionsLeft = 0) ∧
      List.Perm (states'.map (·.topic)) (ts.map fun t => { t with members := ms t }) ∧
      members'.map (fun rkgm => { rkgm with assignment := [] }) =
        members.map (fun rkgm => { rkgm with assignment := [] }) := by
  have htopics₀ : List.Perm (states₀.map (·.topic))
      (ts.map fun t => { t with members := ms t }) := by
    refine (hperm₀.map _).trans ?_
    rw [List.map_map]
    rfl
  have hS₀ : StatesInv members states₀ := by
    refine StatesInv.perm ⟨fun s hs => ?_, ?_, fun rkgm hrkgm tp htp => ?_⟩ hperm₀.symm
    · obtain ⟨t, ht, rfl⟩ := List.mem_map.1 hs
      exact (hel t ht).inv_topicAssignmentStateNew hids hempty (hms t ht)
    · rw [List.map_map]
      exact hnames
    · simp [hempty rkgm hrkgm] at htp
  have hfresh : ∀ s ∈ states₀,
      s.unassignedPartitions = List.replicate s.topic.metadata.partitionCnt true := by
    intro s hs
    obtain ⟨t, -, rfl⟩ := List.mem_map.1 (hperm₀.subset hs)
    rfl
  obtain ⟨hok, hflat⟩ := topicAssignmentStateBuckets_spec members states₀
  obtain ⟨members₁, states₁, hrun₁, hS₁, htop₁, hclear₁⟩ :=
    rangeBucketsLoop_spec hfresh _ members states₀ hS₀ rfl (hflat ▸ List.nodup_range) hok
      fun _ _ => rfl
  obtain ⟨members', states', hrun₂, hS', htop', hclear', -, hleft'⟩ :=
    rangeLeftoverLoop_spec (List.range states₁.length) members₁ states₁ hS₁ List.nodup_range
      fun k hk => List.mem_range.1 hk
  have hlen : states'.length = states₁.length := by
    simpa using congrArg List.length htop'
  refine ⟨members₁, states₁, members', states', hrun₁, hrun₂, hS', fun s hs => ?_, ?_,
    hclear'.trans hclear₁⟩
  · obtain ⟨k, hk⟩ := List.mem_iff_getElem?.1 hs
    have hklt : k < states₁.length := hlen ▸ (List.getElem?_eq_some_iff.1 hk).1
    exact hleft' k (List.mem_range.2 hklt) s hk
  · rw [htop', htop₁]
    exact htopics₀

/-- **The two loops, for any order.**  From the states of the eligible topics, with each
topic's subscribers in any order and the states in any order, the bucket loop and the
leftover loop of `rd_kafka_range_assignor_assign_cb` leave every partition of every eligible
topic assigned once, to a member that subscribes to the topic, each subscriber holding
`⌊n / m⌋` or `⌈n / m⌉` of the topic's `n` partitions. -/
theorem rangeAssignorLoops_assigned
    (hel : ∀ t ∈ ts, EligibleTopic regexMatch blacklisted metadata members t)
    (hnames : (ts.map (·.metadata.topic)).Nodup) (hids : (members.map (·.memberId)).Nodup)
    (hempty : ∀ rkgm ∈ members, rkgm.assignment = [])
    (hms : ∀ t ∈ ts, List.Perm (ms t) t.members)
    (hperm₀ : List.Perm states₀
      (ts.map fun t => topicAssignmentStateNew members { t with members := ms t })) :
    ∃ members₁ states₁ members' states',
      rangeBucketsLoop (topicAssignmentStateBuckets members states₀) members states₀ =
        some (members₁, states₁) ∧
      rangeLeftoverLoop (List.range states₁.length) members₁ states₁ = some (members', states') ∧
      RangeAssigned regexMatch members ts members' := by
  obtain ⟨members₁, states₁, members', states', hrun₁, hrun₂, hS', hleft', htopics, hclear⟩ :=
    rangeAssignorLoops_states hel hnames hids hempty hms hperm₀
  -- each eligible topic has its state among the final ones, and each state its topic
  have hstateOf : ∀ t ∈ ts, ∃ s ∈ states', s.topic = { t with members := ms t } := by
    intro t ht
    have hmem : { t with members := ms t } ∈ ts.map fun t => { t with members := ms t } :=
      List.mem_map_of_mem ht
    exact List.mem_map.1 (htopics.symm.subset hmem)
  have htopicOf : ∀ s ∈ states', ∃ t ∈ ts, s.topic = { t with members := ms t } := by
    intro s hs
    obtain ⟨t, ht, hst⟩ := List.mem_map.1 (htopics.subset (List.mem_map_of_mem hs))
    exact ⟨t, ht, hst.symm⟩
  refine ⟨members₁, states₁, members', states', hrun₁, hrun₂, ⟨hclear, ?_, ?_, ?_⟩⟩
  · intro t ht p hp
    obtain ⟨s, hs, hst⟩ := hstateOf t ht
    obtain ⟨hname, hn, -, -⟩ := TopicAssignmentState.topic_of_eq_perm hst (hms t ht)
    rw [← hname]
    exact (hS'.inv s hs).count_eq_one (hleft' s hs) (hn ▸ hp)
  · intro rkgm hrkgm tp htp
    obtain ⟨i, hi⟩ := List.mem_iff_getElem?.1 hrkgm
    obtain ⟨s, hs, htopic, hsub, hnonneg, hlt⟩ := hS'.exists_state_of_mem hi htp
    obtain ⟨t, ht, hst⟩ := htopicOf s hs
    obtain ⟨hname, hn, -, hmem⟩ := TopicAssignmentState.topic_of_eq_perm hst (hms t ht)
    rw [hname] at htopic
    refine ⟨⟨t, ht, htopic, hnonneg, by rw [← hn]; exact hlt⟩, ?_⟩
    -- the member subscribes as it did before the assignor ran
    obtain ⟨m, hm, hfound⟩ := ((hel t ht).mem_members_iff i).1 ((hmem i).1 hsub)
    have hsame : { rkgm with assignment := [] } = { m with assignment := [] } := by
      have := congrArg (·[i]?) hclear
      simpa [hi, hm] using this
    have hsubscription : rkgm.subscription = m.subscription := congrArg (·.subscription) hsame
    unfold groupMemberFindSubscription at hfound ⊢
    rw [hsubscription, htopic]
    exact hfound
  · intro t ht i hi rkgm hrkgm
    obtain ⟨s, hs, hst⟩ := hstateOf t ht
    obtain ⟨hname, hn, hm, hmem⟩ := TopicAssignmentState.topic_of_eq_perm hst (hms t ht)
    have hbounds := (hS'.inv s hs).share_bounds_of_member (hleft' s hs) ((hmem i).2 hi) hrkgm
    rw [hname, hn, hm] at hbounds
    exact hbounds

end Loops

/-- **The range assignor.**  For members with distinct ids and empty assignments, any
subscriptions and racks, and metadata topics with distinct names and any partition counts
and replica racks, `rd_kafka_range_assignor_assign_cb` over the topics that
`rd_kafka_member_subscriptions_map` makes eligible returns the members with every partition
of every eligible topic assigned once, to a member that subscribes to the topic, each
subscriber holding `⌊n / m⌋` or `⌈n / m⌉` of the topic's `n` partitions. -/
theorem rangeAssignorAssignCb_spec (blacklisted : List UInt8 → Bool)
    {metadata : List MetadataTopic} {members : List GroupMember}
    (hids : (members.map (·.memberId)).Nodup) (hnames : (metadata.map (·.topic)).Nodup)
    (hempty : ∀ rkgm ∈ members, rkgm.assignment = []) :
    ∃ members', rangeAssignorAssignCb members
        (memberSubscriptionsMap regexMatch blacklisted metadata members) = some members' ∧
      RangeAssigned regexMatch members
        (memberSubscriptionsMap regexMatch blacklisted metadata members) members' := by
  -- the callback's sorts are one order among those the loops are proved for
  obtain ⟨members₁, states₁, members', states', hrun₁, hrun₂, hassigned⟩ :=
    rangeAssignorLoops_assigned (memberSubscriptionsMap_spec regexMatch blacklisted metadata members)
      (memberSubscriptionsMap_nodup regexMatch blacklisted members hnames) hids hempty
      (fun t _ => sortGroupMembers_perm members t.members)
      (List.perm_insertionSort (fun a b => topicAssignmentStateCmp members a b ≠ .gt) _)
  refine ⟨members', ?_, hassigned⟩
  simp only [rangeAssignorAssignCb, hrun₁, Option.bind_some, hrun₂, Option.map_some]

/-- Two members with ids `a` and `b` (the bytes 97 and 98) subscribing to topic `t` (the
byte 116) of three partitions: the assumptions hold and the callback's result meets the
specification. -/
theorem rangeAssignorAssignCb_two_members :
    let members : List GroupMember :=
      [⟨[97], none, none, [[116]], []⟩, ⟨[98], none, none, [[116]], []⟩]
    let metadata : List MetadataTopic := [⟨[116], 3, []⟩]
    ((members.map (·.memberId)).Nodup ∧ (metadata.map (·.topic)).Nodup ∧
      ∀ rkgm ∈ members, rkgm.assignment = []) ∧
    ∃ members', rangeAssignorAssignCb members
        (memberSubscriptionsMap (fun _ _ => false) (fun _ => false) metadata members) =
          some members' ∧
      RangeAssigned (fun _ _ => false) members
        (memberSubscriptionsMap (fun _ _ => false) (fun _ => false) metadata members) members' :=
  ⟨⟨by decide, by decide, by decide⟩,
    rangeAssignorAssignCb_spec (fun _ => false) (by decide) (by decide) (by decide)⟩

/-- **Two members with one id.**  Members `a` and `a` (the byte 97) both subscribe to topic
`t` (the byte 116) of two partitions: each member's lookup finds the first pair of the id,
the first member takes both partitions' quota under it, and partition 1 is assigned to
no one. -/
theorem rangeAssignorAssignCb_duplicate_member_id :
    (rangeAssignorAssignCb [⟨[97], none, none, [[116]], []⟩, ⟨[97], none, none, [[116]], []⟩]
        (memberSubscriptionsMap (fun _ _ => false) (fun _ => false) [⟨[116], 2, []⟩]
          [⟨[97], none, none, [[116]], []⟩, ⟨[97], none, none, [[116]], []⟩])).map
        (fun members => (members.flatMap (·.assignment)).count ⟨[116], 1⟩) = some 0 := by
  decide +kernel

end Callback

end Rdkafka
