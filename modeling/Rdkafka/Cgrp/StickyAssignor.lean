import Rdkafka.Partition.TopicPartition

/-!
# The balance test of the sticky assignor

This file models `isBalanced` of `src/rdkafka_sticky_assignor.c`, which the sticky assignor
runs to decide whether an assignment needs more moves.  An assignment is balanced when the
smallest and the largest number of partitions a consumer holds differ by at most one;
otherwise `isBalanced` walks the consumers in the order of `sortedCurrentSubscriptions` and
looks for one that could take over a partition of its potential set from a consumer holding
more partitions.

The walk over the consumers and the walk over a consumer's potential partitions share the
index `i`.  After a consumer whose `p` potential partitions were all looked at, the outer loop
goes on at index `p + 1`, not at the next consumer (`isBalancedLoop_jump`).  It can skip
consumers, and it can come back to the same consumer for ever (`isBalancedLoop_cycle`).  What
it returns is still sound when it is `false` (`isBalanced_false`).

The maps of the source (`map_str_toppar_list_t`, `map_toppar_str_t`) are lists of entries in
the order `RD_MAP_FOREACH` visits them, and `RD_MAP_GET` finds an entry by its key.
-/

set_option autoImplicit false

namespace Rdkafka

/-- `RD_MAP_GET(map, key)`: the value of the entry with the key, `none` for `NULL`. -/
def rdMapGet {κ α : Type} [DecidableEq κ] (m : List (κ × α)) (k : κ) : Option α :=
  (m.find? fun e => e.1 = k).map Prod.snd

/-- The map `allPartitions` that `isBalanced` builds with `RD_MAP_SET`, from each partition of
`currentAssignment` to its consumer: the newest entry first, so that a later set of a
partition replaces an earlier one.  The log line for a partition set twice is left out. -/
def isBalancedAllPartitions (currentAssignment : List (List UInt8 × List TopicPartition)) :
    List (TpKey × List UInt8) :=
  currentAssignment.foldl (fun acc e => e.2.foldl (fun acc p => (p.key, e.1) :: acc) acc) []

/-- The inner loop of `isBalanced`, over the partitions a consumer holding `consumerPartitions`
could get: `some false` at the first one it does not hold whose consumer holds more
partitions, `some true` when there is none, `none` for a `NULL` from `RD_MAP_GET`. -/
def isBalancedPotential (currentAssignment : List (List UInt8 × List TopicPartition))
    (allPartitions : List (TpKey × List UInt8)) (consumerPartitions : List TopicPartition) :
    List TopicPartition → Option Bool
  | [] => some true
  | partition :: rest =>
    if (tpListFind consumerPartitions partition.key).isSome then
      isBalancedPotential currentAssignment allPartitions consumerPartitions rest
    else
      match rdMapGet allPartitions partition.key with
      | none => none
      | some otherConsumer =>
        match rdMapGet currentAssignment otherConsumer with
        | none => none
        | some otherPartitions =>
          if consumerPartitions.length < otherPartitions.length then some false
          else isBalancedPotential currentAssignment allPartitions consumerPartitions rest

/-- The `RD_LIST_FOREACH(elem, sortedCurrentSubscriptions, i)` loop of `isBalanced` at index
`i`.  A consumer holding all it could get is passed with `i++`; after the inner loop over the
`p` partitions of another, `i` is `p`, and the outer `i++` goes on at `p + 1`.  `none` also
when `fuel` runs out, as the loop need not end. -/
def isBalancedLoop
    (currentAssignment sortedCurrentSubscriptions consumer2AllPotentialPartitions :
      List (List UInt8 × List TopicPartition))
    (allPartitions : List (TpKey × List UInt8)) : ℕ → ℕ → Option Bool
  | 0, _ => none
  | fuel + 1, i =>
    match sortedCurrentSubscriptions[i]? with
    | none => some true
    | some (consumer, consumerPartitions) =>
      match rdMapGet consumer2AllPotentialPartitions consumer with
      | none => none
      | some potentialTopicPartitions =>
        if consumerPartitions.length = potentialTopicPartitions.length then
          isBalancedLoop currentAssignment sortedCurrentSubscriptions
            consumer2AllPotentialPartitions allPartitions fuel (i + 1)
        else
          match isBalancedPotential currentAssignment allPartitions consumerPartitions
              potentialTopicPartitions with
          | some true =>
            isBalancedLoop currentAssignment sortedCurrentSubscriptions
              consumer2AllPotentialPartitions allPartitions fuel
              (potentialTopicPartitions.length + 1)
          | r => r

/-- `isBalanced(rk, currentAssignment, sortedCurrentSubscriptions,
consumer2AllPotentialPartitions, partition2AllPotentialConsumers)`: the last argument only
sizes `allPartitions` and is left out.  `none` for an empty `sortedCurrentSubscriptions`, whose
first element is `NULL`. -/
def isBalanced
    (currentAssignment sortedCurrentSubscriptions consumer2AllPotentialPartitions :
      List (List UInt8 × List TopicPartition)) (fuel : ℕ) : Option Bool :=
  match sortedCurrentSubscriptions.head?, sortedCurrentSubscriptions.getLast? with
  | some (_, first), some (_, last) =>
    let minimum : ℤ := first.length
    let maximum : ℤ := last.length
    if minimum ≥ maximum - 1 then some true
    else
      isBalancedLoop currentAssignment sortedCurrentSubscriptions consumer2AllPotentialPartitions
        (isBalancedAllPartitions currentAssignment) fuel 0
  | _, _ => none

/-- `sort_by_map_elem_val_toppar_list_cnt(a, b)`, which orders `sortedCurrentSubscriptions`:
by the number of partitions, then by the member id. -/
def sortByMapElemValTopparListCnt (a b : List UInt8 × List TopicPartition) : Ordering :=
  if a.2.length < b.2.length then .lt
  else if b.2.length < a.2.length then .gt
  else strcmp a.1 b.1

/-! ## What `isBalanced` is for -/

/-- The inputs the sticky assignor calls `isBalanced` with: every partition a consumer could
get is held by exactly one consumer, `sortedCurrentSubscriptions` holds the entries of
`currentAssignment` sorted by `sort_by_map_elem_val_toppar_list_cnt`, and every consumer has
an entry in `consumer2AllPotentialPartitions` that holds the partitions it holds. -/
def IsBalancedInput
    (currentAssignment sortedCurrentSubscriptions consumer2AllPotentialPartitions :
      List (List UInt8 × List TopicPartition)) : Prop :=
  (∀ c ∈ consumer2AllPotentialPartitions, ∀ partition ∈ c.2,
    (currentAssignment.filter fun d => partition.key ∈ keys d.2).length = 1) ∧
  sortedCurrentSubscriptions.Perm currentAssignment ∧
  sortedCurrentSubscriptions.Pairwise (fun a b => sortByMapElemValTopparListCnt a b = .lt) ∧
  ∀ c ∈ currentAssignment, (rdMapGet consumer2AllPotentialPartitions c.1).isSome ∧
    ∀ partition ∈ c.2, partition.key ∈ keys ((rdMapGet consumer2AllPotentialPartitions c.1).getD [])

instance (currentAssignment sortedCurrentSubscriptions consumer2AllPotentialPartitions :
    List (List UInt8 × List TopicPartition)) :
    Decidable (IsBalancedInput currentAssignment sortedCurrentSubscriptions
      consumer2AllPotentialPartitions) := by
  unfold IsBalancedInput; infer_instance

/-- What `isBalanced` is documented to decide: the numbers of partitions the consumers hold
differ by at most one, or no consumer holds fewer partitions than a consumer holding a
partition the first could get and does not hold. -/
def IsBalancedSpec
    (currentAssignment sortedCurrentSubscriptions consumer2AllPotentialPartitions :
      List (List UInt8 × List TopicPartition)) : Prop :=
  (∀ a ∈ sortedCurrentSubscriptions, ∀ b ∈ sortedCurrentSubscriptions,
    b.2.length ≤ a.2.length + 1) ∨
  ∀ c ∈ sortedCurrentSubscriptions,
    ∀ partition ∈ (rdMapGet consumer2AllPotentialPartitions c.1).getD [],
      partition.key ∉ keys c.2 →
        ∀ d ∈ currentAssignment, partition.key ∈ keys d.2 → d.2.length ≤ c.2.length

instance (currentAssignment sortedCurrentSubscriptions consumer2AllPotentialPartitions :
    List (List UInt8 × List TopicPartition)) :
    Decidable (IsBalancedSpec currentAssignment sortedCurrentSubscriptions
      consumer2AllPotentialPartitions) := by
  unfold IsBalancedSpec; infer_instance

/-! ## The walk over the consumers -/

theorem rdMapGet_mem {κ α : Type} [DecidableEq κ] {m : List (κ × α)} {k : κ} {v : α}
    (h : rdMapGet m k = some v) : (k, v) ∈ m := by
  unfold rdMapGet at h
  obtain ⟨e, he, rfl⟩ := Option.map_eq_some_iff.1 h
  have hk : e.1 = k := by simpa using List.find?_some he
  rw [← hk]
  exact List.mem_of_find?_eq_some he

section Loop

variable {currentAssignment sortedCurrentSubscriptions consumer2AllPotentialPartitions :
    List (List UInt8 × List TopicPartition)} {allPartitions : List (TpKey × List UInt8)}
  {i : ℕ} {consumer : List UInt8} {consumerPartitions potentialTopicPartitions : List TopicPartition}

/-- One round of the walk, at a consumer with an entry in `consumer2AllPotentialPartitions`. -/
theorem isBalancedLoop_succ (fuel : ℕ)
    (hi : sortedCurrentSubscriptions[i]? = some (consumer, consumerPartitions))
    (hpot : rdMapGet consumer2AllPotentialPartitions consumer = some potentialTopicPartitions) :
    isBalancedLoop currentAssignment sortedCurrentSubscriptions consumer2AllPotentialPartitions
        allPartitions (fuel + 1) i =
      if consumerPartitions.length = potentialTopicPartitions.length then
        isBalancedLoop currentAssignment sortedCurrentSubscriptions
          consumer2AllPotentialPartitions allPartitions fuel (i + 1)
      else
        match isBalancedPotential currentAssignment allPartitions consumerPartitions
            potentialTopicPartitions with
        | some true =>
          isBalancedLoop currentAssignment sortedCurrentSubscriptions
            consumer2AllPotentialPartitions allPartitions fuel
            (potentialTopicPartitions.length + 1)
        | r => r := by
  rw [isBalancedLoop, hi]
  dsimp only
  rw [hpot]

/-- A consumer that holds every partition it could get is passed for the next index. -/
theorem isBalancedLoop_skip (fuel : ℕ)
    (hi : sortedCurrentSubscriptions[i]? = some (consumer, consumerPartitions))
    (hpot : rdMapGet consumer2AllPotentialPartitions consumer = some potentialTopicPartitions)
    (hall : consumerPartitions.length = potentialTopicPartitions.length) :
    isBalancedLoop currentAssignment sortedCurrentSubscriptions consumer2AllPotentialPartitions
        allPartitions (fuel + 1) i =
      isBalancedLoop currentAssignment sortedCurrentSubscriptions consumer2AllPotentialPartitions
        allPartitions fuel (i + 1) := by
  rw [isBalancedLoop_succ fuel hi hpot, if_pos hall]

/-- **The shared index.**  After the inner loop has looked at all `p` partitions a consumer
could get, the walk goes on at index `p + 1`, wherever that consumer stood. -/
theorem isBalancedLoop_jump (fuel : ℕ)
    (hi : sortedCurrentSubscriptions[i]? = some (consumer, consumerPartitions))
    (hpot : rdMapGet consumer2AllPotentialPartitions consumer = some potentialTopicPartitions)
    (hne : consumerPartitions.length ≠ potentialTopicPartitions.length)
    (hinner : isBalancedPotential currentAssignment allPartitions consumerPartitions
      potentialTopicPartitions = some true) :
    isBalancedLoop currentAssignment sortedCurrentSubscriptions consumer2AllPotentialPartitions
        allPartitions (fuel + 1) i =
      isBalancedLoop currentAssignment sortedCurrentSubscriptions consumer2AllPotentialPartitions
        allPartitions fuel (potentialTopicPartitions.length + 1) := by
  rw [isBalancedLoop_succ fuel hi hpot, if_neg hne, hinner]

/-- **A walk that never ends.**  When the inner loop sends the walk back to the consumer it was
at, the walk comes back to it for ever, and no fuel is enough. -/
theorem isBalancedLoop_cycle
    (hi : sortedCurrentSubscriptions[i]? = some (consumer, consumerPartitions))
    (hpot : rdMapGet consumer2AllPotentialPartitions consumer = some potentialTopicPartitions)
    (hne : consumerPartitions.length ≠ potentialTopicPartitions.length)
    (hinner : isBalancedPotential currentAssignment allPartitions consumerPartitions
      potentialTopicPartitions = some true)
    (hback : potentialTopicPartitions.length + 1 = i) :
    ∀ fuel, isBalancedLoop currentAssignment sortedCurrentSubscriptions
      consumer2AllPotentialPartitions allPartitions fuel i = none := by
  intro fuel
  -- every round comes back to index `i`, one unit of fuel less
  induction fuel with
  | zero => rfl
  | succ fuel ih => rw [isBalancedLoop_jump fuel hi hpot hne hinner, hback, ih]

/-- A consumer passed with `i++` adds nothing to a walk that never ends from the next index. -/
theorem isBalancedLoop_none_of_skip
    (hi : sortedCurrentSubscriptions[i]? = some (consumer, consumerPartitions))
    (hpot : rdMapGet consumer2AllPotentialPartitions consumer = some potentialTopicPartitions)
    (hall : consumerPartitions.length = potentialTopicPartitions.length)
    (hnext : ∀ fuel, isBalancedLoop currentAssignment sortedCurrentSubscriptions
      consumer2AllPotentialPartitions allPartitions fuel (i + 1) = none) :
    ∀ fuel, isBalancedLoop currentAssignment sortedCurrentSubscriptions
      consumer2AllPotentialPartitions allPartitions fuel i = none
  | 0 => rfl
  | fuel + 1 => by rw [isBalancedLoop_skip fuel hi hpot hall, hnext]

/-- The inner loop answers `false` only at a partition the consumer does not hold, held by a
consumer with more partitions. -/
theorem isBalancedPotential_false :
    ∀ {potentialTopicPartitions : List TopicPartition},
      isBalancedPotential currentAssignment allPartitions consumerPartitions
        potentialTopicPartitions = some false →
      ∃ partition ∈ potentialTopicPartitions, partition.key ∉ keys consumerPartitions ∧
        ∃ otherConsumer otherPartitions, (partition.key, otherConsumer) ∈ allPartitions ∧
          (otherConsumer, otherPartitions) ∈ currentAssignment ∧
          consumerPartitions.length < otherPartitions.length
  | [], h => by simp [isBalancedPotential] at h
  | partition :: rest, h => by
    rw [isBalancedPotential] at h
    by_cases hfind : (tpListFind consumerPartitions partition.key).isSome
    · obtain ⟨q, hq, hfound⟩ := isBalancedPotential_false (by rwa [if_pos hfind] at h)
      exact ⟨q, List.mem_cons_of_mem _ hq, hfound⟩
    rw [if_neg hfind] at h
    -- the two `RD_MAP_GET`s found the owner of the partition and its partitions
    cases howner : rdMapGet allPartitions partition.key with
    | none => rw [howner] at h; cases h
    | some otherConsumer =>
      cases hother : rdMapGet currentAssignment otherConsumer with
      | none => rw [howner] at h; dsimp only at h; rw [hother] at h; cases h
      | some otherPartitions =>
        rw [howner] at h; dsimp only at h; rw [hother] at h; dsimp only at h
        by_cases hlt : consumerPartitions.length < otherPartitions.length
        · exact ⟨partition, List.mem_cons_self, mt tpListFind_isSome_iff.2 hfind, otherConsumer,
            otherPartitions, rdMapGet_mem howner, rdMapGet_mem hother, hlt⟩
        · obtain ⟨q, hq, hfound⟩ := isBalancedPotential_false (by rwa [if_neg hlt] at h)
          exact ⟨q, List.mem_cons_of_mem _ hq, hfound⟩

/-- The walk answers `false` only where the inner loop did, for a consumer of
`sortedCurrentSubscriptions` and its entry in `consumer2AllPotentialPartitions`. -/
theorem isBalancedLoop_false :
    ∀ {fuel i : ℕ}, isBalancedLoop currentAssignment sortedCurrentSubscriptions
        consumer2AllPotentialPartitions allPartitions fuel i = some false →
      ∃ consumer consumerPartitions potentialTopicPartitions,
        (consumer, consumerPartitions) ∈ sortedCurrentSubscriptions ∧
        rdMapGet consumer2AllPotentialPartitions consumer = some potentialTopicPartitions ∧
        isBalancedPotential currentAssignment allPartitions consumerPartitions
          potentialTopicPartitions = some false
  | 0, _, h => by cases h
  | fuel + 1, i, h => by
    -- the walk answers only at a consumer with an entry
    cases hi : sortedCurrentSubscriptions[i]? with
    | none => rw [isBalancedLoop, hi] at h; cases h
    | some entry =>
      obtain ⟨consumer, consumerPartitions⟩ := entry
      cases hpot : rdMapGet consumer2AllPotentialPartitions consumer with
      | none => rw [isBalancedLoop, hi] at h; dsimp only at h; rw [hpot] at h; cases h
      | some potentialTopicPartitions =>
        rw [isBalancedLoop_succ fuel hi hpot] at h
        by_cases hall : consumerPartitions.length = potentialTopicPartitions.length
        · exact isBalancedLoop_false (by rwa [if_pos hall] at h)
        rw [if_neg hall] at h
        -- the walk goes on only after an inner loop that answered `true`
        cases hinner : isBalancedPotential currentAssignment allPartitions consumerPartitions
            potentialTopicPartitions with
        | none => rw [hinner] at h; cases h
        | some b =>
          cases b with
          | true => rw [hinner] at h; exact isBalancedLoop_false h
          | false => exact ⟨consumer, consumerPartitions, potentialTopicPartitions,
              List.mem_of_getElem? hi, hpot, hinner⟩

end Loop

/-! ## The map from partitions to their consumers -/

theorem isBalancedAllPartitions_inner (consumer : List UInt8) :
    ∀ (partitions : List TopicPartition) (acc : List (TpKey × List UInt8)),
      partitions.foldl (fun acc p => (p.key, consumer) :: acc) acc =
        (partitions.map fun p => (p.key, consumer)).reverse ++ acc
  | [], _ => rfl
  | p :: partitions, acc => by
    rw [List.foldl_cons, isBalancedAllPartitions_inner consumer partitions]
    simp

theorem mem_isBalancedAllPartitions_foldl {k : TpKey} {owner : List UInt8} :
    ∀ (currentAssignment : List (List UInt8 × List TopicPartition))
      (acc : List (TpKey × List UInt8)),
      (k, owner) ∈ currentAssignment.foldl
          (fun acc e => e.2.foldl (fun acc p => (p.key, e.1) :: acc) acc) acc →
        (k, owner) ∈ acc ∨ ∃ partitions, (owner, partitions) ∈ currentAssignment ∧ k ∈ keys partitions
  | [], _, h => .inl h
  | (consumer, partitions) :: rest, acc, h => by
    rw [List.foldl_cons] at h
    rcases mem_isBalancedAllPartitions_foldl rest _ h with h | ⟨ps, hps, hk⟩
    · rw [isBalancedAllPartitions_inner, List.mem_append, List.mem_reverse, List.mem_map] at h
      rcases h with ⟨p, hp, hpk⟩ | h
      · -- an entry of this consumer
        obtain ⟨rfl, rfl⟩ := Prod.mk.inj hpk
        exact .inr ⟨partitions, List.mem_cons_self, List.mem_map_of_mem hp⟩
      · exact .inl h
    · exact .inr ⟨ps, List.mem_cons_of_mem _ hps, hk⟩

/-- Every entry of `allPartitions` names a consumer that holds the partition. -/
theorem mem_isBalancedAllPartitions {currentAssignment : List (List UInt8 × List TopicPartition)}
    {k : TpKey} {owner : List UInt8} (h : (k, owner) ∈ isBalancedAllPartitions currentAssignment) :
    ∃ partitions, (owner, partitions) ∈ currentAssignment ∧ k ∈ keys partitions :=
  (mem_isBalancedAllPartitions_foldl currentAssignment [] h).resolve_left List.not_mem_nil

/-! ## What `isBalanced` answers -/

section Answer

variable {currentAssignment sortedCurrentSubscriptions consumer2AllPotentialPartitions :
    List (List UInt8 × List TopicPartition)} {fuel : ℕ}

/-- The start of the walk: when the first consumer holds at least two partitions fewer than
the last, `isBalanced` is the walk from index `0`. -/
theorem isBalanced_eq_loop {firstConsumer lastConsumer : List UInt8}
    {first last : List TopicPartition}
    (hfirst : sortedCurrentSubscriptions.head? = some (firstConsumer, first))
    (hlast : sortedCurrentSubscriptions.getLast? = some (lastConsumer, last))
    (hgap : first.length + 1 < last.length) :
    isBalanced currentAssignment sortedCurrentSubscriptions consumer2AllPotentialPartitions fuel =
      isBalancedLoop currentAssignment sortedCurrentSubscriptions consumer2AllPotentialPartitions
        (isBalancedAllPartitions currentAssignment) fuel 0 := by
  rw [isBalanced, hfirst, hlast]
  dsimp only
  rw [if_neg (by omega)]

/-- **`false` is sound.**  When the member ids of `currentAssignment` are unique, an answer
`false` of `isBalanced` is right: its assignment is not balanced. -/
theorem isBalanced_false (hkeys : (currentAssignment.map Prod.fst).Nodup)
    (h : isBalanced currentAssignment sortedCurrentSubscriptions consumer2AllPotentialPartitions
      fuel = some false) :
    ¬IsBalancedSpec currentAssignment sortedCurrentSubscriptions
      consumer2AllPotentialPartitions := by
  rw [isBalanced] at h
  -- a `false` comes from the walk, after the test of the first and the last consumer
  obtain ⟨⟨firstConsumer, first⟩, hfirst⟩ := Option.isSome_iff_exists.1
    (show sortedCurrentSubscriptions.head?.isSome by
      cases hh : sortedCurrentSubscriptions.head? <;> simp_all)
  obtain ⟨⟨lastConsumer, last⟩, hlast⟩ := Option.isSome_iff_exists.1
    (show sortedCurrentSubscriptions.getLast?.isSome by
      cases hh : sortedCurrentSubscriptions.getLast? <;> simp_all)
  rw [hfirst, hlast] at h
  dsimp only at h
  by_cases hgap : (first.length : ℤ) ≥ (last.length : ℤ) - 1
  · rw [if_pos hgap] at h; cases h
  rw [if_neg hgap] at h
  obtain ⟨consumer, consumerPartitions, potentialTopicPartitions, hmem, hpot, hinner⟩ :=
    isBalancedLoop_false h
  obtain ⟨partition, hp, hnot, otherConsumer, otherPartitions, hall, hother, hlt⟩ :=
    isBalancedPotential_false hinner
  obtain ⟨ps, hps, hk⟩ := mem_isBalancedAllPartitions hall
  -- the owner of the partition is the one entry of its member id
  have hsame : ps = otherPartitions :=
    (Prod.mk.inj (List.inj_on_of_nodup_map hkeys hps hother rfl)).2
  rintro (hspread | hmoves)
  · have hle : last.length ≤ first.length + 1 :=
      hspread _ (List.mem_of_mem_head? hfirst) _ (List.mem_of_getLast? hlast)
    omega
  · have hle : ps.length ≤ consumerPartitions.length :=
      hmoves _ hmem partition (by rw [hpot]; exact hp) hnot _ hps hk
    rw [hsame] at hle
    omega

end Answer

/-- Consumer `A` holds nothing and `B` both partitions of topic `t`, which either could hold:
`isBalanced` answers `false`, and rightly so. -/
theorem isBalanced_false_two_consumers :
    ¬IsBalancedSpec [([65], []), ([66], [⟨[116], 0, 0, .noError⟩, ⟨[116], 1, 0, .noError⟩])]
      [([65], []), ([66], [⟨[116], 0, 0, .noError⟩, ⟨[116], 1, 0, .noError⟩])]
      [([65], [⟨[116], 0, 0, .noError⟩, ⟨[116], 1, 0, .noError⟩]),
        ([66], [⟨[116], 0, 0, .noError⟩, ⟨[116], 1, 0, .noError⟩])] :=
  isBalanced_false (by decide) (show isBalanced
      [([65], []), ([66], [⟨[116], 0, 0, .noError⟩, ⟨[116], 1, 0, .noError⟩])]
      [([65], []), ([66], [⟨[116], 0, 0, .noError⟩, ⟨[116], 1, 0, .noError⟩])]
      [([65], [⟨[116], 0, 0, .noError⟩, ⟨[116], 1, 0, .noError⟩]),
        ([66], [⟨[116], 0, 0, .noError⟩, ⟨[116], 1, 0, .noError⟩])] 2 = some false by decide)

/-- Consumers `A`, `B`, `W`, `Z` and `M` hold `0`, `0`, `1`, `1` and `2` partitions of topic
`t`, each could get what it holds, and `Z` could also get `W`'s partition.  The assignment is
balanced as documented, but after passing `A`, `B` and `W` the walk reaches `Z` at index `3`,
whose inner loop over its two partitions sends it back to index `3`: `isBalanced` does not
return, whatever its fuel. -/
theorem isBalanced_shared_index_diverges :
    ∃ assignment potential,
      assignment =
        [([65], []), ([66], []), ([87], [⟨[116], 0, 0, .noError⟩]),
          ([90], [⟨[116], 1, 0, .noError⟩]),
          ([77], [⟨[116], 2, 0, .noError⟩, ⟨[116], 3, 0, .noError⟩])] ∧
      potential =
        [([65], []), ([66], []), ([87], [⟨[116], 0, 0, .noError⟩]),
          ([90], [⟨[116], 1, 0, .noError⟩, ⟨[116], 0, 0, .noError⟩]),
          ([77], [⟨[116], 2, 0, .noError⟩, ⟨[116], 3, 0, .noError⟩])] ∧
      IsBalancedInput assignment assignment potential ∧
      IsBalancedSpec assignment assignment potential ∧
      ∀ fuel, isBalanced assignment assignment potential fuel = none := by
  refine ⟨_, _, rfl, rfl, by decide, by decide, fun fuel => ?_⟩
  rw [isBalanced_eq_loop rfl rfl (by decide)]
  -- `A`, `B` and `W` hold all they could get; `Z` at index `3` comes back to itself
  refine isBalancedLoop_none_of_skip rfl (by decide) rfl ?_ fuel
  refine isBalancedLoop_none_of_skip rfl (by decide) rfl ?_
  refine isBalancedLoop_none_of_skip rfl (by decide) rfl ?_
  exact isBalancedLoop_cycle rfl rfl (by decide) (by decide) rfl

end Rdkafka
