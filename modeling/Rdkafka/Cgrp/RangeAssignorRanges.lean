import Rdkafka.Cgrp.RangeAssignorStep

/-!
# `rd_kafka_assign_ranges`: every pass keeps the invariant, and `rd_kafka_always` finishes

A pass of `rd_kafka_assign_ranges` gives each subscriber, in turn, up to its quota of the
partitions its `may_assign` allows.  Whatever `may_assign` is, the pass keeps `TopicInv`
(`assignRanges_spec`).  With `rd_kafka_always` a member's turn ends with the member at its
quota or with no partition left, so after the pass either nothing is left or every
subscriber is at its quota (`Saturated`); the second cannot happen with partitions left,
since the shares would then add up to more than the topic has (`left_eq_zero_of_saturated`).
Once nothing is left, the shares are `n / m` or `n / m + 1`, and exactly `n % m` of them
are `n / m + 1` (`share_bounds`).
-/

set_option autoImplicit false

namespace Rdkafka

/-! ## Member ids of a topic -/

theorem length_memberIds {members : List GroupMember} :
    ∀ {positions : List ℕ}, (∀ i ∈ positions, i < members.length) →
      (memberIds members positions).length = positions.length := by
  intro positions
  induction positions with
  | nil => intro _; rfl
  | cons i positions ih =>
    intro h
    have hlt := h i List.mem_cons_self
    have hi : members[i]? = some members[i] := List.getElem?_eq_getElem hlt
    have hrest := ih fun j hj => h j (List.mem_cons_of_mem i hj)
    simp only [memberIds, List.filterMap_cons, hi, Option.map_some] at hrest ⊢
    rw [List.length_cons, List.length_cons, hrest]

theorem nodup_memberIds {members : List GroupMember} (hids : (members.map (·.memberId)).Nodup)
    {positions : List ℕ} (h : positions.Nodup) : (memberIds members positions).Nodup := by
  apply List.Nodup.filterMap _ h
  intro a a' b hb hb'
  obtain ⟨rkgm, ha, rfl⟩ := Option.map_eq_some_iff.1 hb
  obtain ⟨rkgm', ha', hid⟩ := Option.map_eq_some_iff.1 hb'
  exact eq_of_memberId_eq hids ha ha' hid.symm

theorem memberIds_append_singleton (members : List GroupMember) (positions : List ℕ) (i : ℕ) :
    memberIds members (positions ++ [i]) =
      memberIds members positions ++ (members[i]?.map (·.memberId)).toList := by
  simp only [memberIds, List.filterMap_append, List.filterMap_cons, List.filterMap_nil]
  cases members[i]? <;> rfl

/-! ## What the invariant says once a pass is over -/

namespace TopicInv

variable {members : List GroupMember} {rktas : TopicAssignmentState}

theorem pairs_nodup (hinv : TopicInv members rktas) :
    (rktas.memberToAssignedPartitions.map (·.memberId)).Nodup :=
  hinv.pairs_perm.nodup_iff.2 (nodup_memberIds hinv.memberIds_nodup hinv.members_nodup)

theorem length_pairs (hinv : TopicInv members rktas) :
    rktas.memberToAssignedPartitions.length = rktas.topic.members.length := by
  rw [← List.length_map (f := (·.memberId)), hinv.pairs_perm.length_eq,
    length_memberIds hinv.members_lt]

/-- With distinct ids, the lookup of a pair's id finds that pair. -/
theorem assignedCnt_of_mem (hinv : TopicInv members rktas)
    {pair : MemberAssignedPartitionsPair} (hpair : pair ∈ rktas.memberToAssignedPartitions) :
    rktas.assignedCnt pair.memberId = pair.assignedPartitions.length := by
  obtain ⟨j, hj, rfl⟩ := List.mem_iff_getElem.1 hpair
  have hsome : (findMemberAssignedPartitionsPairByMemberId
      rktas.memberToAssignedPartitions[j].memberId rktas.memberToAssignedPartitions).isSome := by
    rw [findMemberAssignedPartitionsPairByMemberId, List.findIdx?_isSome, List.any_eq_true]
    exact ⟨_, hpair, by simp⟩
  obtain ⟨k, hk⟩ := Option.isSome_iff_exists.1 hsome
  obtain ⟨hklt, hkid, -⟩ := List.findIdx?_eq_some_iff_getElem.1 hk
  have hkj : k = j := by
    have hlt : k < (rktas.memberToAssignedPartitions.map (·.memberId)).length := by simpa using hklt
    apply (List.getElem?_inj hlt hinv.pairs_nodup).1
    simp only [List.getElem?_map, List.getElem?_eq_getElem hklt, List.getElem?_eq_getElem hj]
    simpa using hkid
  subst hkj
  simp [TopicAssignmentState.assignedCnt, TopicAssignmentState.pairOf, hk,
    List.getElem?_eq_getElem hklt]

theorem lt_of_mem_assigned (hinv : TopicInv members rktas) {p : ℕ} (hp : p ∈ rktas.assigned) :
    p < rktas.topic.metadata.partitionCnt := by
  have h := (hinv.mem_assigned p).1 hp
  rw [← hinv.length_unassigned]
  exact (List.getElem?_eq_some_iff.1 h).1

theorem length_assigned_le (hinv : TopicInv members rktas) :
    rktas.assigned.length ≤ rktas.topic.metadata.partitionCnt := by
  have hsub := hinv.assigned_nodup.subperm fun p hp => List.mem_range.2 (hinv.lt_of_mem_assigned hp)
  simpa using hsub.length_le

/-- Nothing is left exactly when every partition is taken. -/
theorem left_eq_zero_iff (hinv : TopicInv members rktas) :
    rktas.unassignedPartitionsLeft = 0 ↔
      ∀ p < rktas.topic.metadata.partitionCnt, p ∈ rktas.assigned := by
  rw [hinv.left_eq, List.count_eq_zero]
  constructor
  · intro htrue p hp
    have hlt : p < rktas.unassignedPartitions.length := hinv.length_unassigned ▸ hp
    rw [hinv.mem_assigned, List.getElem?_eq_getElem hlt]
    cases hb : rktas.unassignedPartitions[p]
    · rfl
    · exact absurd (hb ▸ List.getElem_mem hlt) htrue
  · intro hall htrue
    obtain ⟨p, hlt, hp⟩ := List.mem_iff_getElem.1 htrue
    have hfalse := (hinv.mem_assigned p).1 (hall p (hinv.length_unassigned ▸ hlt))
    rw [List.getElem?_eq_getElem hlt, hp] at hfalse
    simp at hfalse

/-- Once nothing is left, the taken partitions are the topic's partitions. -/
theorem assigned_perm_range (hinv : TopicInv members rktas)
    (hleft : rktas.unassignedPartitionsLeft = 0) :
    List.Perm rktas.assigned (List.range rktas.topic.metadata.partitionCnt) := by
  rw [List.perm_ext_iff_of_nodup hinv.assigned_nodup List.nodup_range]
  intro p
  rw [List.mem_range]
  exact ⟨hinv.lt_of_mem_assigned, (hinv.left_eq_zero_iff.1 hleft) p⟩

end TopicInv

theorem TopicAssignmentState.sum_shares (rktas : TopicAssignmentState) :
    (rktas.memberToAssignedPartitions.map (·.assignedPartitions.length)).sum =
      rktas.assigned.length := by
  simp [TopicAssignmentState.assigned, List.length_flatMap]

theorem TopicAssignmentState.partitionCnt_eq (rktas : TopicAssignmentState) :
    rktas.topic.members.length * rktas.perConsumer + rktas.extraCnt =
      rktas.topic.metadata.partitionCnt :=
  Nat.div_add_mod _ _

/-! ## A pass -/

/-- No partition is left, or every member of `done` is at its quota. -/
def TopicAssignmentState.Saturated (members : List GroupMember) (rktas : TopicAssignmentState)
    (done : List ℕ) : Prop :=
  rktas.unassignedPartitionsLeft = 0 ∨
    ∀ memberId ∈ memberIds members done, rktas.quota ≤ rktas.assignedCnt memberId

namespace TopicInv

variable {members : List GroupMember} {rktas : TopicAssignmentState}

/-- **Completeness of a pass.**  Subscribers all at their quota leave no partition: their
shares would add up to more than the `n` partitions there are, or, with the counter of
extra partitions at zero, to all `n` of them. -/
theorem left_eq_zero_of_saturated (hinv : TopicInv members rktas)
    (h : rktas.Saturated members rktas.topic.members) : rktas.unassignedPartitionsLeft = 0 := by
  rcases h with h | hall
  · exact h
  have hfloor : ∀ c ∈ rktas.memberToAssignedPartitions.map (·.assignedPartitions.length),
      rktas.quota ≤ c := by
    intro c hc
    obtain ⟨pair, hpair, rfl⟩ := List.mem_map.1 hc
    rw [← hinv.assignedCnt_of_mem hpair]
    exact hall _ (hinv.pairs_perm.mem_iff.1 (List.mem_map_of_mem hpair))
  have hsum := rktas.sum_shares
  have hle := hinv.length_assigned_le
  have hn := rktas.partitionCnt_eq
  have hlen : (rktas.memberToAssignedPartitions.map (·.assignedPartitions.length)).length =
      rktas.topic.members.length := by
    rw [List.length_map, hinv.length_pairs]
  have hmod : rktas.extraCnt < rktas.topic.members.length := Nat.mod_lt _ hinv.members_pos
  have hextra := hinv.count_extra
  by_cases hrem : 0 < rktas.remainingConsumersWithExtraPartition
  · -- every share is at least `n / m + 1`: more than `n` in all
    exfalso
    have hfloor' : ∀ c ∈ rktas.memberToAssignedPartitions.map (·.assignedPartitions.length),
        rktas.perConsumer + 1 ≤ c := by
      intro c hc
      have := hfloor c hc
      rw [TopicAssignmentState.quota, if_pos hrem] at this
      exact this
    have hbound := Quota.le_sum_of_le hfloor'
    rw [hlen, Nat.mul_succ] at hbound
    omega
  · -- every share is at least `n / m`, and `n % m` of them are at `n / m + 1`
    have hfloor' : ∀ c ∈ rktas.memberToAssignedPartitions.map (·.assignedPartitions.length),
        rktas.perConsumer ≤ c := by
      intro c hc
      have := hfloor c hc
      rw [TopicAssignmentState.quota, if_neg hrem, Nat.add_zero] at this
      exact this
    have hbound := Quota.le_sum_of_le hfloor'
    rw [hlen] at hbound
    have hall' : ∀ p < rktas.topic.metadata.partitionCnt, p ∈ rktas.assigned := by
      have hsub := hinv.assigned_nodup.subperm fun p hp =>
        List.mem_range.2 (hinv.lt_of_mem_assigned hp)
      have hperm := hsub.perm_of_length_le (by rw [List.length_range]; omega)
      intro p hp
      exact hperm.mem_iff.2 (List.mem_range.2 hp)
    exact hinv.left_eq_zero_iff.2 hall'

/-- **Balance.**  With every partition taken, each share is `n / m` or, when `m` does not
divide `n`, `n / m + 1`. -/
theorem share_bounds (hinv : TopicInv members rktas) (hleft : rktas.unassignedPartitionsLeft = 0)
    {pair : MemberAssignedPartitionsPair} (hpair : pair ∈ rktas.memberToAssignedPartitions) :
    rktas.perConsumer ≤ pair.assignedPartitions.length ∧
      pair.assignedPartitions.length ≤
        rktas.perConsumer + if 0 < rktas.extraCnt then 1 else 0 := by
  have hsum := rktas.sum_shares
  rw [(hinv.assigned_perm_range hleft).length_eq, List.length_range] at hsum
  have hn := rktas.partitionCnt_eq
  have hextra := hinv.count_extra
  have hlen : (rktas.memberToAssignedPartitions.map (·.assignedPartitions.length)).length =
      rktas.topic.members.length := by
    rw [List.length_map, hinv.length_pairs]
  have hcap : ∀ c ∈ rktas.memberToAssignedPartitions.map (·.assignedPartitions.length),
      c ≤ rktas.perConsumer + 1 := by
    intro c hc
    obtain ⟨pair, hpair, rfl⟩ := List.mem_map.1 hc
    exact hinv.length_le pair hpair
  have hupper := Quota.sum_le_of_le_succ hcap
  rw [hlen] at hupper
  -- the shares reach the bound, so none is below `n / m`
  have hreach : (rktas.memberToAssignedPartitions.map (·.assignedPartitions.length)).length *
        rktas.perConsumer +
      (rktas.memberToAssignedPartitions.map (·.assignedPartitions.length)).count
        (rktas.perConsumer + 1) ≤
      (rktas.memberToAssignedPartitions.map (·.assignedPartitions.length)).sum := by
    rw [hlen]
    omega
  have hmem : pair.assignedPartitions.length ∈
      rktas.memberToAssignedPartitions.map (·.assignedPartitions.length) :=
    List.mem_map_of_mem hpair
  refine ⟨Quota.le_of_sum_ge hcap hreach _ hmem, ?_⟩
  have hc := hcap _ hmem
  split_ifs with hr
  · exact hc
  · -- with `m ∣ n` no share is at `n / m + 1`
    have hzero : (rktas.memberToAssignedPartitions.map (·.assignedPartitions.length)).count
        (rktas.perConsumer + 1) = 0 := by omega
    have hne : pair.assignedPartitions.length ≠ rktas.perConsumer + 1 := by
      intro heq
      rw [← heq] at hzero
      exact List.count_eq_zero.1 hzero hmem
    omega

end TopicInv

/-- **A pass of `rd_kafka_assign_ranges`' member loop.**  It succeeds and keeps the
invariant; with a `may_assign` that allows everything, the members it went through are at
their quota or nothing is left. -/
theorem assignRangesLoop_spec (mayAssign : GroupMember → TopicAssignmentState → ℕ → Bool) :
    ∀ (is done : List ℕ) (members : List GroupMember) (rktas : TopicAssignmentState),
      TopicInv members rktas → (∀ i ∈ is, i ∈ rktas.topic.members) →
      ∃ members' rktas', assignRangesLoop mayAssign is members rktas = some (members', rktas') ∧
        TopicInv members' rktas' ∧ Advances members rktas members' rktas' ∧
        ((∀ rkgm s j, mayAssign rkgm s j = true) → rktas.Saturated members done →
          rktas'.Saturated members' (done ++ is)) := by
  intro is
  induction is with
  | nil =>
    intro done members rktas hinv _
    exact ⟨members, rktas, rfl, hinv, Advances.refl members rktas, fun _ h => by simpa using h⟩
  | cons i is ih =>
    intro done members rktas hinv his
    have hi := his i List.mem_cons_self
    have his' : ∀ j ∈ is, j ∈ rktas.topic.members := fun j hj => his j (List.mem_cons_of_mem i hj)
    have happ : done ++ i :: is = (done ++ [i]) ++ is := by simp
    by_cases hleft : rktas.unassignedPartitionsLeft = 0
    · exact ⟨members, rktas, by rw [assignRangesLoop, if_pos hleft], hinv,
        Advances.refl members rktas, fun _ _ => Or.inl hleft⟩
    obtain ⟨rkgm, k, pair, hrkgm, hk, hpair, hpid, hcnt⟩ := hinv.exists_pair hi
    have hmax := hinv.maximumAssignable_eq pair
    have hids : memberIds members (done ++ [i]) = memberIds members done ++ [rkgm.memberId] := by
      rw [memberIds_append_singleton, hrkgm]
      rfl
    have hloop : assignRangesLoop mayAssign (i :: is) members rktas =
        if rktas.maximumAssignable pair ≤ 0 then assignRangesLoop mayAssign is members rktas
        else (assignPartitionList i (partitionsToAssign (mayAssign rkgm rktas)
            rktas.unassignedPartitions (rktas.maximumAssignable pair)
            (List.range rktas.topic.metadata.partitionCnt)) members rktas).bind
          fun r => assignRangesLoop mayAssign is r.1 r.2 := by
      rw [assignRangesLoop, if_neg hleft, hrkgm, Option.bind_some, hk, Option.bind_some, hpair,
        Option.bind_some]
    by_cases hmaxle : rktas.maximumAssignable pair ≤ 0
    · obtain ⟨members', rktas', hrun, hinv', hadv, hsat⟩ := ih (done ++ [i]) members rktas hinv his'
      refine ⟨members', rktas', by rw [hloop, if_pos hmaxle]; exact hrun, hinv', hadv, ?_⟩
      intro hall hsat₀
      rw [happ]
      apply hsat hall
      rcases hsat₀ with h | h
      · exact absurd h hleft
      · right
        intro memberId hmem
        rw [hids, List.mem_append, List.mem_singleton] at hmem
        rcases hmem with hmem | rfl
        · exact h memberId hmem
        · rw [hcnt]
          omega
    · set ps := partitionsToAssign (mayAssign rkgm rktas) rktas.unassignedPartitions
        (rktas.maximumAssignable pair) (List.range rktas.topic.metadata.partitionCnt) with hps
      have hmaxpos : 0 ≤ rktas.maximumAssignable pair := by omega
      have hnodup : ps.Nodup :=
        (partitionsToAssign_sublist _ _ _ _).nodup List.nodup_range
      have hlen : (ps.length : ℤ) ≤ rktas.maximumAssignable pair :=
        length_partitionsToAssign_le (mayAssign rkgm rktas) rktas.unassignedPartitions
          (List.range rktas.topic.metadata.partitionCnt) _ hmaxpos
      have hroom : rktas.assignedCnt rkgm.memberId + ps.length ≤ rktas.quota := by
        rw [hcnt]
        omega
      obtain ⟨members₁, rktas₁, hturn, hinv₁, hadv₁, hcnt₁, hother₁, hleft₁⟩ :=
        assignPartitionList_spec ps members rktas hinv hi (by rw [hrkgm]; rfl) hnodup
          (partitionsToAssign_unassigned _ _ _ _) (Or.inl hroom)
      obtain ⟨members', rktas', hrun, hinv', hadv', hsat'⟩ :=
        ih (done ++ [i]) members₁ rktas₁ hinv₁ fun j hj => hadv₁.topic_eq ▸ his' j hj
      refine ⟨members', rktas', ?_, hinv', hadv₁.trans hadv', ?_⟩
      · rw [hloop, if_neg hmaxle, hturn, Option.bind_some]
        exact hrun
      intro hall hsat₀
      rw [happ]
      apply hsat' hall
      rcases hsat₀ with h | h
      · exact absurd h hleft
      -- the turn took the member's whole room, or every partition left
      have htook : (ps.length : ℤ) = min (rktas.maximumAssignable pair)
          ((List.range rktas.topic.metadata.partitionCnt).countP
            fun j => rktas.unassignedPartitions.getD j false) :=
        length_partitionsToAssign_of_forall _ rktas.unassignedPartitions
          (fun j => hall rkgm rktas j) (List.range rktas.topic.metadata.partitionCnt) _ hmaxpos
      have hcountP : (List.range rktas.topic.metadata.partitionCnt).countP
          (fun j => rktas.unassignedPartitions.getD j false) = rktas.unassignedPartitionsLeft := by
        rw [← hinv.length_unassigned, countP_range_getD, hinv.left_eq]
      rw [hcountP] at htook
      have hquota := hadv₁.quota_le
      by_cases hfull : (ps.length : ℤ) = rktas.maximumAssignable pair
      · right
        intro memberId hmem
        rw [memberIds_congr hadv₁.granted.map_memberId, hids, List.mem_append,
          List.mem_singleton] at hmem
        by_cases hself : memberId = rkgm.memberId
        · rw [hself, hcnt₁, hcnt]
          omega
        · rcases hmem with hmem | hmem
          · rw [hother₁ memberId hself]
            exact hquota.trans (h memberId hmem)
          · exact absurd hmem hself
      · left
        omega

/-- **`rd_kafka_assign_ranges`.**  It succeeds and keeps the invariant; with
`rd_kafka_always` it leaves no partition unassigned. -/
theorem assignRanges_spec (mayAssign : GroupMember → TopicAssignmentState → ℕ → Bool)
    {members : List GroupMember} {rktas : TopicAssignmentState} (hinv : TopicInv members rktas) :
    ∃ members' rktas', assignRanges mayAssign members rktas = some (members', rktas') ∧
      TopicInv members' rktas' ∧ Advances members rktas members' rktas' ∧
      ((∀ rkgm s j, mayAssign rkgm s j = true) → rktas'.unassignedPartitionsLeft = 0) := by
  obtain ⟨members', rktas', hrun, hinv', hadv, hsat⟩ :=
    assignRangesLoop_spec mayAssign rktas.topic.members [] members rktas hinv fun i hi => hi
  refine ⟨members', rktas', hrun, hinv', hadv, fun hall => ?_⟩
  have h := hsat hall (Or.inr (by simp [memberIds]))
  rw [List.nil_append, ← hadv.topic_eq] at h
  exact hinv'.left_eq_zero_of_saturated h

end Rdkafka
