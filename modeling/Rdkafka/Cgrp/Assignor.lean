import Rdkafka.Partition.TopicPartition

/-!
# Group members and eligible topics of the client-side assignors

The group leader runs a partition assignor over the members of the group
(`rd_kafka_assignor_run`, `src/rdkafka_assignor.c`).  It first maps every topic of the
metadata that some member subscribes to, by name or by a `^`-regex, to the members that
subscribe to it (`rd_kafka_member_subscriptions_map`); the assignor's callback then fills
in each member's `rkgm_assignment` from these *eligible topics*.

A member is modelled with the fields the range and round-robin assignors read and write.
An eligible topic holds its members as positions in the member array, as the source holds
pointers into it.  Regex matching (`rd_regex_match`) and the topic blacklist
(`rd_kafka_pattern_match`) are parameters: nothing below depends on what they match.

Every eligible topic has a member that subscribes to it, and every member listed under
it does (`memberSubscriptionsMap_spec`); this is what the assignors' loops rely on.
-/

set_option autoImplicit false

namespace Rdkafka

/-- The fields of `rd_kafka_group_member_t` that the range and round-robin assignors read
and write. -/
structure GroupMember where
  /-- `rkgm_member_id`. -/
  memberId : List UInt8
  /-- `rkgm_group_instance_id`, `none` for a NULL string. -/
  groupInstanceId : Option (List UInt8)
  /-- `rkgm_rack_id`, `none` for a NULL string. -/
  rackId : Option (List UInt8)
  /-- The topics of `rkgm_subscription`, names or `^`-regexes. -/
  subscription : List (List UInt8)
  /-- `rkgm_assignment`. -/
  assignment : List TpKey
  deriving DecidableEq, Repr

/-- `rd_kafkap_str_cmp(a, b)`: `memcmp` over the shorter length, then the lengths, which
is the lexicographic order `strcmp` computes on the bytes of the strings. -/
def kafkapStrCmp (a b : List UInt8) : Ordering := strcmp a b

/-- `rd_kafka_group_member_cmp`: by group instance id when both members have one, else by
member id. -/
def groupMemberCmp (a b : GroupMember) : Ordering :=
  match a.groupInstanceId, b.groupInstanceId with
  | some ia, some ib => kafkapStrCmp ia ib
  | _, _ => kafkapStrCmp a.memberId b.memberId

/-- `rd_kafka_topic_partition_list_add(rktparlist, topic, partition)` on the topics and
partitions of a list. -/
def topicPartitionListAdd (l : List TpKey) (topic : List UInt8) (partition : Int) :
    List TpKey :=
  l ++ [⟨topic, partition⟩]

/-- A topic of `rd_kafka_metadata_t` with the partition racks of its internal metadata. -/
structure MetadataTopic where
  /-- `topic`. -/
  topic : List UInt8
  /-- `partition_cnt`; partition `i` has id `i`. -/
  partitionCnt : ℕ
  /-- `partitions[i].racks` of the internal metadata, sorted: the racks of the replicas
  of partition `i`. -/
  partitionRacks : List (List (List UInt8))
  deriving DecidableEq, Repr

/-- `rd_kafka_assignor_topic_t`: a topic and the positions in the member array of the
members that subscribe to it. -/
structure AssignorTopic where
  /-- `metadata`. -/
  metadata : MetadataTopic
  /-- `members`. -/
  members : List ℕ
  deriving DecidableEq, Repr

/-- `rd_kafka_assignor_topic_cmp`: by topic name. -/
def assignorTopicCmp (a b : AssignorTopic) : Ordering := strcmp a.metadata.topic b.metadata.topic

section Match

variable (regexMatch : List UInt8 → List UInt8 → Bool)

/-- `rd_kafka_topic_partition_match(rk, rkgm, rktpar, topic, NULL)`: a subscription that
starts with `^` is a regex, matched by `rd_regex_match` (an invalid regex matches
nothing); any other is compared with `strcmp`. -/
def topicPartitionMatch (subscribed topic : List UInt8) : Bool :=
  if subscribed.head? = some 94 then regexMatch subscribed topic
  else strcmp subscribed topic = .eq

/-- `rd_kafka_group_member_find_subscription(rk, rkgm, topic)`. -/
def groupMemberFindSubscription (rkgm : GroupMember) (topic : List UInt8) : Bool :=
  rkgm.subscription.any fun s => topicPartitionMatch regexMatch s topic

/-- `rd_kafka_member_subscription_match(rkcg, rkgm, topic_metadata, eligible_topic)` as
`rd_kafka_member_subscriptions_map` uses it: the member is added to the topic's members
when at least one of its subscriptions matches. -/
def memberSubscriptionMatch (rkgm : GroupMember) (topic : List UInt8) : Bool :=
  0 < (rkgm.subscription.filter fun s => topicPartitionMatch regexMatch s topic).length

/-- `rd_kafka_member_subscriptions_map(rkcg, eligible_topics, metadata, members,
member_cnt)`: each metadata topic that is not blacklisted, with the positions of the
members that subscribe to it, when there is at least one. -/
def memberSubscriptionsMap (blacklisted : List UInt8 → Bool) (metadata : List MetadataTopic)
    (members : List GroupMember) : List AssignorTopic :=
  metadata.filterMap fun t =>
    if blacklisted t.topic then none
    else
      let subscribers := (List.range members.length).filter fun i =>
        members[i]?.any fun m => memberSubscriptionMatch regexMatch m t.topic
      if subscribers = [] then none else some ⟨t, subscribers⟩

theorem memberSubscriptionMatch_eq (rkgm : GroupMember) (topic : List UInt8) :
    memberSubscriptionMatch regexMatch rkgm topic =
      groupMemberFindSubscription regexMatch rkgm topic := by
  unfold memberSubscriptionMatch groupMemberFindSubscription
  rw [Bool.eq_iff_iff, decide_eq_true_iff, List.length_pos_iff, Ne, List.filter_eq_nil_iff,
    List.any_eq_true]
  constructor
  · intro h
    by_contra hall
    exact h fun s hs hm => hall ⟨s, hs, by simpa using hm⟩
  · rintro ⟨s, hs, hm⟩ hnone
    exact hnone s hs (by simpa using hm)

/-- A position is among the members of a topic exactly when the member there subscribes
to it. -/
theorem mem_subscribers_iff (members : List GroupMember) (topic : List UInt8) (i : ℕ) :
    i ∈ (List.range members.length).filter
        (fun i => members[i]?.any fun m => memberSubscriptionMatch regexMatch m topic) ↔
      ∃ m, members[i]? = some m ∧ groupMemberFindSubscription regexMatch m topic = true := by
  rw [List.mem_filter, List.mem_range]
  constructor
  · rintro ⟨hi, hm⟩
    refine ⟨members[i], by simp [hi], ?_⟩
    simpa [hi, memberSubscriptionMatch_eq] using hm
  · rintro ⟨m, hm, hsub⟩
    have hi : i < members.length := (List.getElem?_eq_some_iff.1 hm).1
    exact ⟨hi, by simp [hm, memberSubscriptionMatch_eq, hsub]⟩

/-- What `rd_kafka_member_subscriptions_map` guarantees of each eligible topic: it is a
metadata topic that is not blacklisted, its members are distinct positions of members
that subscribe to it, every such member is among them, and there is at least one. -/
structure EligibleTopic (blacklisted : List UInt8 → Bool) (metadata : List MetadataTopic)
    (members : List GroupMember) (t : AssignorTopic) : Prop where
  mem_metadata : t.metadata ∈ metadata
  not_blacklisted : blacklisted t.metadata.topic = false
  members_ne_nil : t.members ≠ []
  members_nodup : t.members.Nodup
  mem_members_iff : ∀ i, i ∈ t.members ↔
    ∃ m, members[i]? = some m ∧ groupMemberFindSubscription regexMatch m t.metadata.topic

theorem memberSubscriptionsMap_spec (blacklisted : List UInt8 → Bool)
    (metadata : List MetadataTopic) (members : List GroupMember) :
    ∀ t ∈ memberSubscriptionsMap regexMatch blacklisted metadata members,
      EligibleTopic regexMatch blacklisted metadata members t := by
  intro t ht
  obtain ⟨mt, hmt, hsome⟩ := List.mem_filterMap.1 ht
  by_cases hb : blacklisted mt.topic
  · simp [hb] at hsome
  · rw [if_neg hb] at hsome
    dsimp only at hsome
    split_ifs at hsome with hnil
    cases hsome
    exact ⟨hmt, by simpa using hb, hnil, List.nodup_range.filter _,
      mem_subscribers_iff regexMatch members mt.topic⟩

/-- The eligible topics are metadata topics, in metadata order. -/
theorem memberSubscriptionsMap_sublist (blacklisted : List UInt8 → Bool)
    (metadata : List MetadataTopic) (members : List GroupMember) :
    List.Sublist ((memberSubscriptionsMap regexMatch blacklisted metadata members).map
      (·.metadata)) metadata := by
  unfold memberSubscriptionsMap
  induction metadata with
  | nil => simp
  | cons mt rest ih =>
    rw [List.filterMap_cons]
    split
    · exact ih.cons mt
    · next r hr =>
      have hmeta : r.metadata = mt := by
        dsimp only at hr
        split_ifs at hr
        rw [← Option.some.inj hr]
      rw [List.map_cons, hmeta]
      exact ih.cons_cons mt

/-- Every eligible topic has a member that subscribes to it. -/
theorem memberSubscriptionsMap_subscriber (blacklisted : List UInt8 → Bool)
    (metadata : List MetadataTopic) (members : List GroupMember) :
    ∀ t ∈ memberSubscriptionsMap regexMatch blacklisted metadata members,
      ∃ rkgm ∈ members, groupMemberFindSubscription regexMatch rkgm t.metadata.topic = true := by
  intro t ht
  have hel := memberSubscriptionsMap_spec regexMatch blacklisted metadata members t ht
  obtain ⟨i, hi⟩ := List.exists_mem_of_ne_nil _ hel.members_ne_nil
  obtain ⟨rkgm, hget, hfound⟩ := (hel.mem_members_iff i).1 hi
  exact ⟨rkgm, List.mem_of_getElem? hget, hfound⟩

/-- Metadata topics with distinct names give eligible topics with distinct names. -/
theorem memberSubscriptionsMap_nodup (blacklisted : List UInt8 → Bool)
    {metadata : List MetadataTopic} (members : List GroupMember)
    (h : (metadata.map (·.topic)).Nodup) :
    ((memberSubscriptionsMap regexMatch blacklisted metadata members).map
      (·.metadata.topic)).Nodup := by
  have hsub := (memberSubscriptionsMap_sublist regexMatch blacklisted metadata members).map
    MetadataTopic.topic
  rw [List.map_map] at hsub
  exact h.sublist hsub

end Match

end Rdkafka
