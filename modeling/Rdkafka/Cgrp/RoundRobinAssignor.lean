import Rdkafka.Lib.Quota
import Rdkafka.Lib.ListModify
import Rdkafka.Cgrp.Assignor

/-!
# The round-robin assignor

`rd_kafka_roundrobin_assignor_assign_cb` (`src/rdkafka_roundrobin_assignor.c`) sorts the
eligible topics by name and the members with `rd_kafka_group_member_cmp`, then walks the
partitions of every topic in order and hands each to the next member, cyclically, that
subscribes to the topic.  The cursor `next` carries over from one topic to the next.

The search for a subscribing member is a `do … while` loop that ends only if some member
subscribes to the topic.  `rd_kafka_member_subscriptions_map` lists a topic only if some
member does, and then the loop ends within `member_cnt` steps.  The model tries
`member_cnt` members and returns `none` where the C loop would run forever.

The results are stated through the *grants* of a run, the pairs of a member position and
a partition in the order the callback hands them out (`grantAssignments`).  A run grants
every partition of the eligible topics once, in order, each to a member that subscribes
to its topic (`roundrobinAssignTopics_grants`).  When every member subscribes to every
topic the grants go to positions `0, 1, 2, …` modulo the member count, which balances the
members to within one partition (`roundrobinAssignTopics_cyclic`).
-/

set_option autoImplicit false

namespace Rdkafka

section RoundRobin

variable (regexMatch : List UInt8 → List UInt8 → Bool)

/-- The `do … while` loop of `rd_kafka_roundrobin_assignor_assign_cb`: advance `next`
cyclically until the member at `next` subscribes to `topic`, trying at most `fuel`
members.  `(next + 1) % member_cnt` is computed in `size_t`, which for `next ≥ -1` is the
non-negative remainder. -/
def roundrobinNextMember (members : List GroupMember) (topic : List UInt8) :
    ℕ → ℤ → Option ℤ
  | 0, _ => none
  | fuel + 1, next =>
    let next := (next + 1) % (members.length : ℤ)
    match members[next.toNat]? with
    | none => none
    | some rkgm =>
      if groupMemberFindSubscription regexMatch rkgm topic then some next
      else roundrobinNextMember members topic fuel next

/-- The `for (partition …)` loop over the partitions of one topic: each goes to the next
subscribing member, added to its `rkgm_assignment`. -/
def roundrobinAssignTopic (topic : List UInt8) :
    List ℕ → List GroupMember → ℤ → Option (List GroupMember × ℤ)
  | [], members, next => some (members, next)
  | partition :: partitions, members, next =>
    (roundrobinNextMember regexMatch members topic members.length next).bind fun next =>
      roundrobinAssignTopic topic partitions
        (members.modify next.toNat fun rkgm =>
          { rkgm with assignment := topicPartitionListAdd rkgm.assignment topic partition })
        next

/-- The `for (ti …)` loop over the eligible topics, with the cursor carried over. -/
def roundrobinAssignTopics :
    List AssignorTopic → List GroupMember → ℤ → Option (List GroupMember × ℤ)
  | [], members, next => some (members, next)
  | t :: ts, members, next =>
    (roundrobinAssignTopic regexMatch t.metadata.topic (List.range t.metadata.partitionCnt)
        members next).bind fun (members, next) =>
      roundrobinAssignTopics ts members next

/-- `rd_kafka_roundrobin_assignor_assign_cb(…, members, member_cnt, eligible_topics,
eligible_topic_cnt, …)`: the members, sorted and with their assignments; `none` where the
loop would not end.  `qsort` leaves the order of equal elements open; the model sorts
stably, by insertion. -/
def roundrobinAssignorAssignCb (members : List GroupMember)
    (eligibleTopics : List AssignorTopic) : Option (List GroupMember) :=
  let eligibleTopics := eligibleTopics.insertionSort fun a b => assignorTopicCmp a b ≠ .gt
  let members := members.insertionSort fun a b => groupMemberCmp a b ≠ .gt
  (roundrobinAssignTopics regexMatch eligibleTopics members (-1)).map (·.1)

end RoundRobin

/-! ## Grants -/

/-- Hand out `grants` in order: the partition of each grant is added to the assignment of
the member at its position. -/
def grantAssignments (members : List GroupMember) (grants : List (ℕ × TpKey)) :
    List GroupMember :=
  grants.foldl (fun members g => members.modify g.1 fun rkgm =>
    { rkgm with assignment := rkgm.assignment ++ [g.2] }) members

@[simp] theorem grantAssignments_nil (members : List GroupMember) :
    grantAssignments members [] = members := rfl

theorem grantAssignments_append (members : List GroupMember) (g₁ g₂ : List (ℕ × TpKey)) :
    grantAssignments (grantAssignments members g₁) g₂ = grantAssignments members (g₁ ++ g₂) :=
  (List.foldl_append).symm

@[simp] theorem length_grantAssignments (members : List GroupMember) :
    ∀ g : List (ℕ × TpKey), (grantAssignments members g).length = members.length := by
  intro g
  induction g generalizing members with
  | nil => rfl
  | cons x g ih =>
    show (grantAssignments (members.modify x.1 _) g).length = _
    rw [ih, List.length_modify]

/-- Each member ends with its own grants appended, in order, and keeps everything else. -/
theorem getElem?_grantAssignments (members : List GroupMember) :
    ∀ (g : List (ℕ × TpKey)) (i : ℕ), (grantAssignments members g)[i]? =
      members[i]?.map fun rkgm =>
        { rkgm with assignment := rkgm.assignment ++ (g.filter (·.1 = i)).map (·.2) } := by
  intro g
  induction g generalizing members with
  | nil =>
    intro i
    simp only [grantAssignments_nil, List.filter_nil, List.map_nil, List.append_nil]
    cases members[i]? <;> rfl
  | cons x g ih =>
    intro i
    show (grantAssignments (members.modify x.1 _) g)[i]? = _
    rw [ih, List.getElem?_modify]
    cases members[i]? with
    | none => rfl
    | some rkgm =>
      by_cases hx : x.1 = i
      · simp [hx]
      · simp [hx]

/-- Granting a partition to one member, as the callback does. -/
theorem modify_eq_grantAssignments (members : List GroupMember) (i : ℕ) (topic : List UInt8)
    (partition : ℤ) :
    members.modify i (fun rkgm =>
        { rkgm with assignment := topicPartitionListAdd rkgm.assignment topic partition }) =
      grantAssignments members [(i, ⟨topic, partition⟩)] := rfl

/-- The grants at positions past the members change nothing, so the assignments of a run
hold its grants: all of them, once each, beside what the members held before. -/
theorem flatMap_assignment_grantAssignments (members : List GroupMember) :
    ∀ g : List (ℕ × TpKey), (∀ x ∈ g, x.1 < members.length) →
      List.Perm ((grantAssignments members g).flatMap (·.assignment))
        (members.flatMap (·.assignment) ++ g.map (·.2)) := by
  intro g
  induction g generalizing members with
  | nil => intro _; simp
  | cons x g ih =>
    intro hg
    have hx : x.1 < members.length := hg x List.mem_cons_self
    have hlen : (members.modify x.1 fun rkgm =>
        { rkgm with assignment := rkgm.assignment ++ [x.2] }).length = members.length :=
      List.length_modify _ _ _
    have hstep := ih (members.modify x.1 fun rkgm =>
        { rkgm with assignment := rkgm.assignment ++ [x.2] })
      (fun y hy => hlen ▸ hg y (List.mem_cons_of_mem _ hy))
    refine hstep.trans ?_
    have hgrant : List.Perm ((members.modify x.1 fun rkgm =>
        { rkgm with assignment := rkgm.assignment ++ [x.2] }).flatMap (·.assignment))
        (members.flatMap (·.assignment) ++ [x.2]) :=
      List.perm_flatMap_modify hx rfl
    have hrhs : members.flatMap (·.assignment) ++ (x :: g).map (·.2) =
        members.flatMap (·.assignment) ++ [x.2] ++ g.map (·.2) := by
      rw [List.map_cons, List.append_assoc, List.singleton_append]
    rw [hrhs]
    exact hgrant.append_right _

/-! ## The search for a subscribing member -/

section Search

variable (regexMatch : List UInt8 → List UInt8 → Bool)

/-- The member at position `i` subscribes to `topic`. -/
def Subscribes (members : List GroupMember) (i : ℕ) (topic : List UInt8) : Prop :=
  ∃ rkgm, members[i]? = some rkgm ∧ groupMemberFindSubscription regexMatch rkgm topic = true

/-- Grants change no subscription. -/
theorem subscribes_grantAssignments {members : List GroupMember} {g : List (ℕ × TpKey)}
    {i : ℕ} {topic : List UInt8} :
    Subscribes regexMatch (grantAssignments members g) i topic ↔
      Subscribes regexMatch members i topic := by
  unfold Subscribes
  rw [getElem?_grantAssignments]
  cases members[i]? with
  | none => simp
  | some rkgm => simp [groupMemberFindSubscription]

theorem Subscribes.lt_length {members : List GroupMember} {i : ℕ} {topic : List UInt8}
    (h : Subscribes regexMatch members i topic) : i < members.length := by
  obtain ⟨rkgm, hi, -⟩ := h
  exact (List.getElem?_eq_some_iff.1 hi).1

/-- The member the search stops at subscribes to the topic. -/
theorem roundrobinNextMember_spec (members : List GroupMember) (topic : List UInt8) :
    ∀ (fuel : ℕ) (next n : ℤ), roundrobinNextMember regexMatch members topic fuel next = some n →
      0 ≤ n ∧ Subscribes regexMatch members n.toNat topic := by
  intro fuel
  induction fuel with
  | zero =>
    intro next n h
    cases h
  | succ fuel ih =>
    intro next n h
    simp only [roundrobinNextMember] at h
    split at h
    · cases h
    · next rkgm hget =>
      split at h
      · next hsub =>
        cases h
        have hpos : (members.length : ℤ) ≠ 0 := by
          have := (List.getElem?_eq_some_iff.1 hget).1
          omega
        exact ⟨Int.emod_nonneg _ hpos, rkgm, hget, hsub⟩
      · exact ih _ _ h

/-- The search that may try `fuel` members finds one when the `k`-th member after `next`
subscribes, for some `k < fuel`. -/
theorem roundrobinNextMember_of_subscribes (members : List GroupMember) (topic : List UInt8) :
    ∀ (fuel : ℕ) (next : ℤ) (k : ℕ), k < fuel →
      Subscribes regexMatch members ((next + 1 + k) % members.length).toNat topic →
      ∃ n, roundrobinNextMember regexMatch members topic fuel next = some n := by
  intro fuel
  induction fuel with
  | zero =>
    intro next k hk
    omega
  | succ fuel ih =>
    intro next k hk hsub
    have hlen : 0 < members.length := by
      have := hsub.lt_length
      omega
    have hbound : ((next + 1) % members.length).toNat < members.length := by
      have h0 : 0 ≤ (next + 1) % members.length := Int.emod_nonneg _ (by omega)
      have h1 : (next + 1) % members.length < members.length := Int.emod_lt_of_pos _ (by omega)
      omega
    have hget : members[((next + 1) % members.length).toNat]? =
        some members[((next + 1) % members.length).toNat] := List.getElem?_eq_getElem hbound
    simp only [roundrobinNextMember, hget]
    split_ifs with hfound
    · exact ⟨_, rfl⟩
    · cases k with
      | zero =>
        obtain ⟨rkgm, hrkgm, hsub⟩ := hsub
        rw [Nat.cast_zero, Int.add_zero, hget] at hrkgm
        cases hrkgm
        exact absurd hsub hfound
      | succ k =>
        refine ih _ k (by omega) ?_
        have hstep : ((next + 1) % members.length + 1 + k) % members.length =
            (next + 1 + (k + 1 : ℕ)) % members.length := by
          rw [Int.add_assoc, Int.emod_add_emod]
          push_cast
          ring_nf
        rw [hstep]
        exact hsub

/-- **The search ends.**  With `member_cnt` tries the search finds a member whenever some
member subscribes to the topic. -/
theorem roundrobinNextMember_isSome {members : List GroupMember} {topic : List UInt8} {i : ℕ}
    (hsub : Subscribes regexMatch members i topic) (next : ℤ) :
    ∃ n, roundrobinNextMember regexMatch members topic members.length next = some n := by
  have hi := hsub.lt_length
  -- the member at `i` is the `k`-th after `next`
  let k := ((i - (next + 1)) % members.length).toNat
  have hk0 : 0 ≤ (i - (next + 1)) % members.length := Int.emod_nonneg _ (by omega)
  have hk1 : (i - (next + 1)) % members.length < members.length :=
    Int.emod_lt_of_pos _ (by omega)
  have hpos : (next + 1 + k) % members.length = i := by
    rw [show ((k : ℕ) : ℤ) = (i - (next + 1)) % members.length from Int.toNat_of_nonneg hk0,
      Int.add_emod_emod, show next + 1 + (i - (next + 1)) = i by omega]
    exact Int.emod_eq_of_lt (by omega) (by omega)
  refine roundrobinNextMember_of_subscribes regexMatch members topic _ next k (by omega) ?_
  rw [hpos, Int.toNat_natCast]
  exact hsub

/-- When every member subscribes, the search takes the very next member. -/
theorem roundrobinNextMember_of_forall {members : List GroupMember} {topic : List UInt8}
    (hall : ∀ i < members.length, Subscribes regexMatch members i topic)
    (hlen : 0 < members.length) (next : ℤ) :
    roundrobinNextMember regexMatch members topic members.length next =
      some ((next + 1) % members.length) := by
  have h0 : 0 ≤ (next + 1) % members.length := Int.emod_nonneg _ (by omega)
  have h1 : (next + 1) % members.length < members.length := Int.emod_lt_of_pos _ (by omega)
  obtain ⟨rkgm, hget, hfound⟩ := hall ((next + 1) % members.length).toNat (by omega)
  obtain ⟨fuel, hfuel⟩ : ∃ fuel, members.length = fuel + 1 := ⟨members.length - 1, by omega⟩
  have hstep : roundrobinNextMember regexMatch members topic (fuel + 1) next =
      some ((next + 1) % members.length) := by
    simp only [roundrobinNextMember, hget, hfound, if_true]
  rwa [← hfuel] at hstep

/-! ## One topic -/

/-- The partitions of an eligible topic, in order. -/
def AssignorTopic.partitions (t : AssignorTopic) : List TpKey :=
  (List.range t.metadata.partitionCnt).map fun p : ℕ => (⟨t.metadata.topic, p⟩ : TpKey)

/-- The partitions of the eligible topics, in order. -/
def eligiblePartitions (ts : List AssignorTopic) : List TpKey := ts.flatMap AssignorTopic.partitions

@[simp] theorem length_partitions (t : AssignorTopic) :
    t.partitions.length = t.metadata.partitionCnt := by
  simp [AssignorTopic.partitions]

@[simp] theorem eligiblePartitions_cons (t : AssignorTopic) (ts : List AssignorTopic) :
    eligiblePartitions (t :: ts) = t.partitions ++ eligiblePartitions ts := List.flatMap_cons

/-- **The grants of one topic.**  The partition loop grants its partitions in order, each
to a member that subscribes to the topic. -/
theorem roundrobinAssignTopic_grants (topic : List UInt8) :
    ∀ (ps : List ℕ) (members members' : List GroupMember) (next next' : ℤ),
      roundrobinAssignTopic regexMatch topic ps members next = some (members', next') →
      ∃ g, members' = grantAssignments members g ∧
        g.map (·.2) = ps.map (fun p => ⟨topic, p⟩) ∧
        ∀ x ∈ g, Subscribes regexMatch members x.1 x.2.topic := by
  intro ps
  induction ps with
  | nil =>
    intro members members' next next' h
    obtain ⟨rfl, rfl⟩ := Prod.mk.inj (Option.some.inj h)
    exact ⟨[], rfl, rfl, by simp⟩
  | cons p ps ih =>
    intro members members' next next' h
    simp only [roundrobinAssignTopic, modify_eq_grantAssignments] at h
    obtain ⟨n, hn, h⟩ := Option.bind_eq_some_iff.1 h
    obtain ⟨g, rfl, hg, hgsub⟩ := ih _ _ _ _ h
    obtain ⟨-, hnsub⟩ := roundrobinNextMember_spec regexMatch members topic _ next n hn
    refine ⟨(n.toNat, ⟨topic, p⟩) :: g, grantAssignments_append _ _ _, by simp [hg], ?_⟩
    intro x hx
    rcases List.mem_cons.1 hx with rfl | hx
    · exact hnsub
    · exact (subscribes_grantAssignments regexMatch).1 (hgsub x hx)

/-- The partition loop of a topic that some member subscribes to ends. -/
theorem roundrobinAssignTopic_isSome (topic : List UInt8) :
    ∀ (ps : List ℕ) (members : List GroupMember) (next : ℤ),
      (∃ i, Subscribes regexMatch members i topic) →
      ∃ r, roundrobinAssignTopic regexMatch topic ps members next = some r := by
  intro ps
  induction ps with
  | nil =>
    intro members next _
    exact ⟨_, rfl⟩
  | cons p ps ih =>
    intro members next hsub
    obtain ⟨i, hi⟩ := hsub
    obtain ⟨n, hn⟩ := roundrobinNextMember_isSome regexMatch hi next
    simp only [roundrobinAssignTopic, modify_eq_grantAssignments, hn, Option.bind_some]
    exact ih _ _ ⟨i, (subscribes_grantAssignments regexMatch).2 hi⟩

/-- **A topic every member subscribes to.**  Its partitions go to consecutive positions
modulo the member count, starting after the cursor; `K` counts the partitions granted
before, modulo the member count. -/
theorem roundrobinAssignTopic_cyclic (topic : List UInt8) :
    ∀ (ps : List ℕ) (members : List GroupMember) (next : ℤ) (K : ℕ), 0 < members.length →
      (∀ i < members.length, Subscribes regexMatch members i topic) →
      (next + 1) % members.length = (K : ℤ) % members.length →
      ∃ g next', roundrobinAssignTopic regexMatch topic ps members next =
          some (grantAssignments members g, next') ∧
        g.map (·.1) = (List.range ps.length).map (fun j => (K + j) % members.length) ∧
        (next' + 1) % members.length = ((K + ps.length : ℕ) : ℤ) % members.length := by
  intro ps
  induction ps with
  | nil =>
    intro members next K _ _ hK
    exact ⟨[], next, rfl, rfl, by simpa using hK⟩
  | cons p ps ih =>
    intro members next K hlen hall hK
    -- the cursor moves to the member at `K % member_cnt`
    have hn : ((next + 1) % members.length).toNat = K % members.length := by
      rw [hK, ← Int.natCast_mod, Int.toNat_natCast]
    have hK' : ((next + 1) % members.length + 1) % members.length =
        ((K + 1 : ℕ) : ℤ) % members.length := by
      rw [Int.emod_add_emod, ← Int.emod_add_emod, hK, Int.emod_add_emod]
      push_cast
      rfl
    obtain ⟨g, next', hrun, hg, hnext'⟩ := ih
      (grantAssignments members [(K % members.length, ⟨topic, p⟩)])
      ((next + 1) % members.length) (K + 1) (by simpa using hlen)
      (fun i hi => (subscribes_grantAssignments regexMatch).2 (hall i (by simpa using hi)))
      (by simpa using hK')
    refine ⟨(K % members.length, ⟨topic, p⟩) :: g, next', ?_, ?_, ?_⟩
    · simp only [roundrobinAssignTopic, modify_eq_grantAssignments,
        roundrobinNextMember_of_forall regexMatch hall hlen, Option.bind_some, hn]
      simpa [grantAssignments_append] using hrun
    · rw [List.map_cons, hg, List.length_cons, List.range_succ_eq_map, List.map_cons,
        List.map_map]
      simp only [length_grantAssignments, Nat.add_zero, List.cons.injEq, true_and]
      refine List.map_congr_left fun j _ => ?_
      simp only [Function.comp_apply]
      rw [Nat.add_right_comm, Nat.add_assoc]
    · simp only [length_grantAssignments] at hnext'
      rw [hnext', List.length_cons]
      push_cast
      ring_nf

/-! ## All topics -/

/-- **The grants of a run.**  The callback's loops grant every partition of the eligible
topics once, in order, each to a member that subscribes to its topic. -/
theorem roundrobinAssignTopics_grants :
    ∀ (ts : List AssignorTopic) (members members' : List GroupMember) (next next' : ℤ),
      roundrobinAssignTopics regexMatch ts members next = some (members', next') →
      ∃ g, members' = grantAssignments members g ∧ g.map (·.2) = eligiblePartitions ts ∧
        ∀ x ∈ g, Subscribes regexMatch members x.1 x.2.topic := by
  intro ts
  induction ts with
  | nil =>
    intro members members' next next' h
    obtain ⟨rfl, rfl⟩ := Prod.mk.inj (Option.some.inj h)
    exact ⟨[], rfl, rfl, by simp⟩
  | cons t ts ih =>
    intro members members' next next' h
    obtain ⟨⟨members₁, next₁⟩, h₁, h⟩ := Option.bind_eq_some_iff.1 h
    obtain ⟨g₁, rfl, hg₁, hsub₁⟩ :=
      roundrobinAssignTopic_grants regexMatch _ _ _ _ _ _ h₁
    obtain ⟨g₂, rfl, hg₂, hsub₂⟩ := ih _ _ _ _ h
    refine ⟨g₁ ++ g₂, grantAssignments_append _ _ _, ?_, ?_⟩
    · rw [List.map_append, hg₁, hg₂, eligiblePartitions_cons, AssignorTopic.partitions]
    · intro x hx
      rcases List.mem_append.1 hx with hx | hx
      · exact hsub₁ x hx
      · exact (subscribes_grantAssignments regexMatch).1 (hsub₂ x hx)

/-- **The callback's loops end** when every eligible topic has a subscribing member. -/
theorem roundrobinAssignTopics_isSome :
    ∀ (ts : List AssignorTopic) (members : List GroupMember) (next : ℤ),
      (∀ t ∈ ts, ∃ i, Subscribes regexMatch members i t.metadata.topic) →
      ∃ r, roundrobinAssignTopics regexMatch ts members next = some r := by
  intro ts
  induction ts with
  | nil =>
    intro members next _
    exact ⟨_, rfl⟩
  | cons t ts ih =>
    intro members next hsub
    obtain ⟨⟨members₁, next₁⟩, h₁⟩ :=
      roundrobinAssignTopic_isSome regexMatch _ (List.range t.metadata.partitionCnt) members next
        (hsub t List.mem_cons_self)
    obtain ⟨g₁, rfl, -, -⟩ := roundrobinAssignTopic_grants regexMatch _ _ _ _ _ _ h₁
    simp only [roundrobinAssignTopics, h₁, Option.bind_some]
    refine ih _ _ fun t' ht' => ?_
    obtain ⟨i, hi⟩ := hsub t' (List.mem_cons_of_mem _ ht')
    exact ⟨i, (subscribes_grantAssignments regexMatch).2 hi⟩

/-- **Every member subscribes to every topic.**  The partitions of the eligible topics go
to positions `K, K + 1, …` modulo the member count. -/
theorem roundrobinAssignTopics_cyclic :
    ∀ (ts : List AssignorTopic) (members : List GroupMember) (next : ℤ) (K : ℕ),
      0 < members.length →
      (∀ t ∈ ts, ∀ i < members.length, Subscribes regexMatch members i t.metadata.topic) →
      (next + 1) % members.length = (K : ℤ) % members.length →
      ∃ g next', roundrobinAssignTopics regexMatch ts members next =
          some (grantAssignments members g, next') ∧
        g.map (·.1) =
          (List.range (eligiblePartitions ts).length).map (fun j => (K + j) % members.length) := by
  intro ts
  induction ts with
  | nil =>
    intro members next K _ _ _
    exact ⟨[], next, rfl, rfl⟩
  | cons t ts ih =>
    intro members next K hlen hall hK
    obtain ⟨g₁, next₁, h₁, hg₁, hnext₁⟩ :=
      roundrobinAssignTopic_cyclic regexMatch _ (List.range t.metadata.partitionCnt) members
        next K hlen (hall t List.mem_cons_self) hK
    obtain ⟨g₂, next', h₂, hg₂⟩ := ih (grantAssignments members g₁) next₁
      (K + t.metadata.partitionCnt) (by simpa using hlen)
      (fun t' ht' i hi => (subscribes_grantAssignments regexMatch).2
        (hall t' (List.mem_cons_of_mem _ ht') i (by simpa using hi)))
      (by simpa using hnext₁)
    refine ⟨g₁ ++ g₂, next', ?_, ?_⟩
    · simp only [roundrobinAssignTopics, h₁, Option.bind_some, h₂, grantAssignments_append]
    · simp only [length_grantAssignments, List.length_range] at hg₁ hg₂
      rw [List.map_append, hg₁, hg₂, eligiblePartitions_cons, List.length_append,
        length_partitions, List.range_add, List.map_append, List.map_map]
      congr 1
      refine List.map_congr_left fun j _ => ?_
      simp only [Function.comp_apply, Nat.add_assoc]

end Search

/-! ## The callback -/

/-- A member's share of the grants. -/
theorem length_filter_grants (g : List (ℕ × TpKey)) (i : ℕ) :
    ((g.filter (·.1 = i)).map (·.2)).length = (g.map (·.1)).count i := by
  rw [List.length_map, List.count, List.countP_eq_length_filter, List.filter_map,
    List.length_map]
  congr 1

/-- Grants change nothing but assignments. -/
theorem map_clear_grantAssignments (members : List GroupMember) (g : List (ℕ × TpKey)) :
    (grantAssignments members g).map (fun rkgm => { rkgm with assignment := [] }) =
      members.map fun rkgm => { rkgm with assignment := [] } := by
  refine List.ext_getElem? fun i => ?_
  rw [List.getElem?_map, List.getElem?_map, getElem?_grantAssignments]
  cases members[i]? <;> rfl

theorem eligiblePartitions_perm {ts ts' : List AssignorTopic} (h : List.Perm ts ts') :
    List.Perm (eligiblePartitions ts) (eligiblePartitions ts') :=
  List.Perm.flatMap_right _ h

theorem mem_partitions {t : AssignorTopic} {tp : TpKey} (h : tp ∈ t.partitions) :
    tp.topic = t.metadata.topic := by
  obtain ⟨p, -, rfl⟩ := List.mem_map.1 h
  rfl

/-- Topics with distinct names have distinct partitions. -/
theorem nodup_eligiblePartitions :
    ∀ {ts : List AssignorTopic}, (ts.map (·.metadata.topic)).Nodup →
      (eligiblePartitions ts).Nodup := by
  intro ts hts
  refine List.nodup_flatMap.2 ⟨fun t _ => ?_, ?_⟩
  · refine List.Nodup.map (fun p q hpq => ?_) List.nodup_range
    simpa using hpq
  · refine (List.pairwise_map.1 hts).imp fun {t t'} hne => ?_
    intro tp ht ht'
    exact hne ((mem_partitions ht).symm.trans (mem_partitions ht'))

theorem mem_eligiblePartitions {ts : List AssignorTopic} {t : AssignorTopic} (ht : t ∈ ts)
    {p : ℕ} (hp : p < t.metadata.partitionCnt) :
    (⟨t.metadata.topic, p⟩ : TpKey) ∈ eligiblePartitions ts :=
  List.mem_flatMap.2 ⟨t, ht, List.mem_map.2 ⟨p, List.mem_range.2 hp, rfl⟩⟩

section Callback

variable (regexMatch : List UInt8 → List UInt8 → Bool)

/-- What `rd_kafka_roundrobin_assignor_assign_cb` leaves as the members `members'`, from
`members` and the eligible topics `ts`. -/
structure RoundrobinAssigned (members : List GroupMember) (ts : List AssignorTopic)
    (members' : List GroupMember) : Prop where
  /-- The same members, in the order the member sort left them, with nothing changed but
  their assignments. -/
  members_perm : List.Perm (members'.map fun rkgm => { rkgm with assignment := [] })
    (members.map fun rkgm => { rkgm with assignment := [] })
  /-- Every partition of every eligible topic is in one member's assignment, once. -/
  assigned_once : ∀ t ∈ ts, ∀ p < t.metadata.partitionCnt,
    (members'.flatMap (·.assignment)).count ⟨t.metadata.topic, p⟩ = 1
  /-- A member is assigned only partitions of eligible topics it subscribes to. -/
  subscribed : ∀ rkgm ∈ members', ∀ tp ∈ rkgm.assignment,
    tp ∈ eligiblePartitions ts ∧ groupMemberFindSubscription regexMatch rkgm tp.topic = true
  /-- Members with identical subscriptions get totals within one partition of each other. -/
  balanced : (∀ a ∈ members, ∀ b ∈ members, a.subscription = b.subscription) →
    ∀ a ∈ members', ∀ b ∈ members', a.assignment.length ≤ b.assignment.length + 1

/-- The member at position `i` after a run from empty assignments holds its grants. -/
theorem assignment_grantAssignments {members : List GroupMember} {g : List (ℕ × TpKey)}
    (hempty : ∀ rkgm ∈ members, rkgm.assignment = []) {rkgm : GroupMember} {i : ℕ}
    (hi : (grantAssignments members g)[i]? = some rkgm) :
    ∃ rkgm₀, members[i]? = some rkgm₀ ∧
      rkgm = { rkgm₀ with assignment := (g.filter (·.1 = i)).map (·.2) } := by
  rw [getElem?_grantAssignments] at hi
  obtain ⟨rkgm₀, hi₀, rfl⟩ := Option.map_eq_some_iff.1 hi
  refine ⟨rkgm₀, hi₀, ?_⟩
  rw [hempty rkgm₀ (List.mem_of_getElem? hi₀), List.nil_append]

/-- **Balance.**  When every member subscribes to every eligible topic, a run from empty
assignments deals the partitions out in turn, so two members' totals differ by at most
one. -/
theorem roundrobinAssignTopics_balanced {members : List GroupMember} {ts : List AssignorTopic}
    (hall : ∀ t ∈ ts, ∀ i < members.length, Subscribes regexMatch members i t.metadata.topic)
    (hempty : ∀ rkgm ∈ members, rkgm.assignment = []) {members' : List GroupMember} {next' : ℤ}
    (hrun : roundrobinAssignTopics regexMatch ts members (-1) = some (members', next')) :
    ∀ a ∈ members', ∀ b ∈ members', a.assignment.length ≤ b.assignment.length + 1 := by
  intro a ha b hb
  obtain ⟨i, hai⟩ := List.mem_iff_getElem?.1 ha
  obtain ⟨k, hbk⟩ := List.mem_iff_getElem?.1 hb
  have hlen : 0 < members.length := by
    have hi := (List.getElem?_eq_some_iff.1 hai).1
    obtain ⟨g, rfl, -, -⟩ := roundrobinAssignTopics_grants regexMatch _ _ _ _ _ hrun
    rw [length_grantAssignments] at hi
    omega
  obtain ⟨g, next'', hcyc, hg⟩ :=
    roundrobinAssignTopics_cyclic regexMatch ts members (-1) 0 hlen hall (by simp)
  rw [hcyc] at hrun
  obtain ⟨rfl, -⟩ := Prod.mk.inj (Option.some.inj hrun)
  obtain ⟨a₀, ha₀, rfl⟩ := assignment_grantAssignments hempty hai
  obtain ⟨b₀, hb₀, rfl⟩ := assignment_grantAssignments hempty hbk
  have hi : i < members.length := (List.getElem?_eq_some_iff.1 ha₀).1
  have hk : k < members.length := (List.getElem?_eq_some_iff.1 hb₀).1
  -- each member's share is its count among the positions `j % member_cnt`
  have hshare : ∀ j < members.length, ((g.filter (·.1 = j)).map (·.2)).length =
      (List.range (eligiblePartitions ts).length).countP (fun x => x % members.length = j) := by
    intro j _
    rw [length_filter_grants, hg, List.count, List.countP_map]
    simp only [Nat.zero_add]
    rfl
  simp only
  rw [hshare i hi, hshare k hk]
  exact Quota.countP_range_mod_le hi hk _

/-- **Any order of the members.**  `qsort` with `rd_kafka_group_member_cmp` may leave the
members in any order, since the comparator is not transitive on groups that mix static and
dynamic members.  For every ordering of the members
and of the eligible topics, the loops over the topics end and leave the members as
`RoundrobinAssigned` says. -/
theorem roundrobinAssignTopics_assigned {members sorted : List GroupMember}
    {ts sortedTs : List AssignorTopic} (hperm : List.Perm sorted members)
    (htperm : List.Perm sortedTs ts)
    (hsub : ∀ t ∈ ts, ∃ rkgm ∈ members,
      groupMemberFindSubscription regexMatch rkgm t.metadata.topic = true)
    (htopics : (ts.map (·.metadata.topic)).Nodup)
    (hempty : ∀ rkgm ∈ members, rkgm.assignment = []) :
    ∃ members' next', roundrobinAssignTopics regexMatch sortedTs sorted (-1) = some (members', next') ∧
      RoundrobinAssigned regexMatch members ts members' := by
  have hempty' : ∀ rkgm ∈ sorted, rkgm.assignment = [] := fun rkgm h => hempty rkgm (hperm.subset h)
  have hsub' : ∀ t ∈ sortedTs, ∃ i, Subscribes regexMatch sorted i t.metadata.topic := by
    intro t ht
    obtain ⟨rkgm, hm, hfound⟩ := hsub t (htperm.subset ht)
    obtain ⟨i, hi⟩ := List.mem_iff_getElem?.1 (hperm.symm.subset hm)
    exact ⟨i, rkgm, hi, hfound⟩
  obtain ⟨⟨members', next'⟩, hrun⟩ := roundrobinAssignTopics_isSome regexMatch sortedTs sorted (-1) hsub'
  obtain ⟨g, hmembers', hg, hgsub⟩ := roundrobinAssignTopics_grants regexMatch _ _ _ _ _ hrun
  refine ⟨members', next', hrun, ⟨?_, ?_, ?_, ?_⟩⟩
  · -- the members are those of the ordering
    rw [hmembers', map_clear_grantAssignments]
    exact hperm.map _
  · -- the grants are the eligible partitions, each once
    intro t ht p hp
    have hflat := flatMap_assignment_grantAssignments sorted g fun x hx => (hgsub x hx).lt_length
    have hnil : sorted.flatMap (·.assignment) = [] := List.flatMap_eq_nil_iff.2 hempty'
    rw [hnil, List.nil_append, hg] at hflat
    rw [hmembers', hflat.count_eq, (eligiblePartitions_perm htperm).count_eq]
    exact List.count_eq_one_of_mem (nodup_eligiblePartitions htopics) (mem_eligiblePartitions ht hp)
  · -- each grant goes to a subscriber
    intro rkgm hm tp htp
    obtain ⟨i, hi⟩ := List.mem_iff_getElem?.1 hm
    rw [hmembers'] at hi
    obtain ⟨rkgm₀, hi₀, rfl⟩ := assignment_grantAssignments hempty' hi
    obtain ⟨x, hx, rfl⟩ := List.mem_map.1 htp
    obtain ⟨hxg, hxi⟩ := List.mem_filter.1 hx
    have hxi' : x.1 = i := by simpa using hxi
    refine ⟨(eligiblePartitions_perm htperm).subset (hg ▸ List.mem_map_of_mem hxg), ?_⟩
    obtain ⟨rkgm₁, hi₁, hfound⟩ := hgsub x hxg
    rw [hxi', hi₀] at hi₁
    cases hi₁
    exact hfound
  · -- identical subscriptions: everyone subscribes to everything
    intro hident
    refine roundrobinAssignTopics_balanced regexMatch ?_ hempty' hrun
    intro t ht i hi
    obtain ⟨rkgm, hm, hfound⟩ := hsub t (htperm.subset ht)
    refine ⟨sorted[i], List.getElem?_eq_getElem hi, ?_⟩
    have hsame := hident _ (hperm.subset (List.getElem_mem hi)) rkgm hm
    unfold groupMemberFindSubscription at hfound ⊢
    rw [hsame]
    exact hfound


/-- **The round-robin assignor.**  For any members and any eligible topics with distinct
names, each with a subscribing member, and members that enter with empty assignments,
`rd_kafka_roundrobin_assignor_assign_cb` ends, returns the same members with every
partition of every eligible topic assigned once, to a member that subscribes to its
topic, and with identical subscriptions balances the members to within one partition. -/
theorem roundrobinAssignorAssignCb_spec {members : List GroupMember} {ts : List AssignorTopic}
    (hsub : ∀ t ∈ ts, ∃ rkgm ∈ members,
      groupMemberFindSubscription regexMatch rkgm t.metadata.topic = true)
    (htopics : (ts.map (·.metadata.topic)).Nodup)
    (hempty : ∀ rkgm ∈ members, rkgm.assignment = []) :
    ∃ members', roundrobinAssignorAssignCb regexMatch members ts = some members' ∧
      RoundrobinAssigned regexMatch members ts members' := by
  obtain ⟨members', next', hrun, hassigned⟩ := roundrobinAssignTopics_assigned regexMatch
    (List.perm_insertionSort (fun a b => groupMemberCmp a b ≠ .gt) members)
    (List.perm_insertionSort (fun a b => assignorTopicCmp a b ≠ .gt) ts) hsub htopics hempty
  refine ⟨members', ?_, hassigned⟩
  simp only [roundrobinAssignorAssignCb]
  rw [hrun]
  rfl

/-- Two members subscribing to topic `t` (the byte 116) by name, and topic `t` of three
partitions in the metadata: over the topics `rd_kafka_member_subscriptions_map` makes eligible,
the assumptions hold and the callback ends, its result meeting the specification. -/
theorem roundrobinAssignorAssignCb_two_members :
    let members : List GroupMember :=
      [⟨[97], none, none, [[116]], []⟩, ⟨[98], none, none, [[116]], []⟩]
    let ts := memberSubscriptionsMap (fun _ _ => false) (fun _ => false) [⟨[116], 3, []⟩] members
    ((∀ t ∈ ts, ∃ rkgm ∈ members,
        groupMemberFindSubscription (fun _ _ => false) rkgm t.metadata.topic = true) ∧
      (ts.map (·.metadata.topic)).Nodup ∧ ∀ rkgm ∈ members, rkgm.assignment = []) ∧
    ∃ members', roundrobinAssignorAssignCb (fun _ _ => false) members ts = some members' ∧
      RoundrobinAssigned (fun _ _ => false) members ts members' :=
  ⟨⟨memberSubscriptionsMap_subscriber _ _ _ _,
      memberSubscriptionsMap_nodup _ _ _ (by decide), by decide⟩,
    roundrobinAssignorAssignCb_spec (fun _ _ => false)
      (memberSubscriptionsMap_subscriber _ _ _ _)
      (memberSubscriptionsMap_nodup _ _ _ (by decide)) (by decide)⟩

/-- **A topic listed twice is assigned twice.**  With topic `t` (the byte 116, one
partition) twice among the eligible topics, its partition ends up twice in the one
member's assignment. -/
theorem roundrobinAssignorAssignCb_duplicate_topic :
    (roundrobinAssignorAssignCb (fun _ _ => false) [⟨[97], none, none, [[116]], []⟩]
        [⟨⟨[116], 1, []⟩, [0]⟩, ⟨⟨[116], 1, []⟩, [0]⟩]).map
        (fun members => (members.flatMap (·.assignment)).count ⟨[116], 0⟩) = some 2 := by
  decide

/-- **The order of the members decides the assignment.**  Member `a` with group instance id
`z`, the dynamic member `b` and member `c` with group instance id `a` (all single bytes)
compare `a < b` and `b < c` by member id but `a > c` by instance id, so
`rd_kafka_group_member_cmp` is not transitive.  All three subscribe to topic `t` (the byte 116)
of one partition: given as `[a, b, c]`, the callback hands `t/0` to `a`; given as `[c, a, b]`,
which the sort also leaves as it is, `a` gets nothing. -/
theorem roundrobinAssignorAssignCb_member_order :
    groupMemberCmp ⟨[97], some [122], none, [[116]], []⟩ ⟨[98], none, none, [[116]], []⟩ = .lt ∧
      groupMemberCmp ⟨[98], none, none, [[116]], []⟩ ⟨[99], some [97], none, [[116]], []⟩ = .lt ∧
      groupMemberCmp ⟨[97], some [122], none, [[116]], []⟩ ⟨[99], some [97], none, [[116]], []⟩ =
        .gt ∧
      (roundrobinAssignorAssignCb (fun _ _ => false)
          [⟨[97], some [122], none, [[116]], []⟩, ⟨[98], none, none, [[116]], []⟩,
            ⟨[99], some [97], none, [[116]], []⟩] [⟨⟨[116], 1, []⟩, [0, 1, 2]⟩]).map
          (fun members => (members.find? (·.memberId = [97])).map (·.assignment)) =
        some (some [⟨[116], 0⟩]) ∧
      (roundrobinAssignorAssignCb (fun _ _ => false)
          [⟨[99], some [97], none, [[116]], []⟩, ⟨[97], some [122], none, [[116]], []⟩,
            ⟨[98], none, none, [[116]], []⟩] [⟨⟨[116], 1, []⟩, [0, 1, 2]⟩]).map
          (fun members => (members.find? (·.memberId = [97])).map (·.assignment)) =
        some (some []) := by
  decide

end Callback

end Rdkafka
