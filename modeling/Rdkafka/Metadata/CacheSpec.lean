import Rdkafka.Metadata.Cache

/-!
# Bookkeeping and index consistency of the metadata cache

When a topic is deleted and created again it keeps its name and gets a new topic id.  The
next Metadata response then updates the cache entry of the name with the new id:
`rd_kafka_metadata_cache_insert` files the new entry under the new id, replaces the old
entry in the by-name tree and frees it with `unlink_avl = 0`, and nothing takes the old
entry out of the by-id tree, where it stays under the old id
(`metadataCacheInsert_recreated_topic`).

The expiry list, on the other hand, is kept right by every call: it lists each allocated
entry once and nothing else, and `rkmc_cnt` is its length (`MetadataCache.ExpiryWF`, kept by
one lemma per function and by every run, `metadataCacheRun_expiryWF`).  So the assertion
`rkmc_cnt > 0` of `rd_kafka_metadata_cache_delete` holds whenever an entry of the list is
deleted.
-/

set_option autoImplicit false

namespace Rdkafka

/-- **A re-created topic leaves a freed entry in the by-id tree.**  Topic `t` (the byte
116) is cached with id `1`, then updated with id `2`.  The by-id tree still files address
0 under id `1`, and address 0 has been freed; the next lookup of id `1`, by
`rd_kafka_metadata_cache_delete_by_topic_id`, reads the freed entry. -/
theorem metadataCacheInsert_recreated_topic :
    (metadataCacheRun ⟨900000, 60000⟩ metadataCacheInit
        [(0, .topicUpdate ⟨some [116], .noError, ⟨0, 1⟩⟩ false),
          (1, .topicUpdate ⟨some [116], .noError, ⟨0, 2⟩⟩ false)]).map
        (fun c => (c.avlById.lookup ⟨0, 1⟩, c.read 0, c.avl.lookup [116], c.expiry, c.cnt)) =
      some (some 0, none, some 1, [1], 1) ∧
    metadataCacheRun ⟨900000, 60000⟩ metadataCacheInit
        [(0, .topicUpdate ⟨some [116], .noError, ⟨0, 1⟩⟩ false),
          (1, .topicUpdate ⟨some [116], .noError, ⟨0, 2⟩⟩ false),
          (2, .deleteByTopicId ⟨0, 1⟩)] = none := by
  constructor <;> decide +kernel


theorem metadataCacheDelete_eq_some {c c' : MetadataCache} {a : ℕ} {unlinkAvl : Bool}
    (h : metadataCacheDelete c a unlinkAvl = some c') :
    (∃ e, c.read a = some e) ∧ a ∈ c.expiry ∧ c.cnt ≠ 0 ∧ c'.expiry = c.expiry.erase a ∧
      c'.cnt = c.cnt - 1 ∧ c'.heap = c.heap.erase a ∧ c'.nextAddr = c.nextAddr := by
  unfold metadataCacheDelete at h
  obtain ⟨e, he, h⟩ := Option.bind_eq_some_iff.1 h
  refine ⟨⟨e, he⟩, ?_⟩
  -- unlinking the entry from the trees leaves the list, the count and the memory as they are
  cases unlinkAvl <;> cases hz : e.topicId.isZero <;>
    simp only [hz, Bool.not_false, Bool.not_true, Bool.false_eq_true, if_true, if_false,
      ite_not] at h <;>
    split_ifs at h with h₁ h₂ <;> cases h <;> exact ⟨h₁, h₂, rfl, rfl, rfl, rfl⟩

namespace MetadataCache

/-- The bookkeeping of the expiry list: it lists every allocated entry once and nothing else,
`rkmc_cnt` counts it, and the allocated addresses lie below the next one. -/
structure ExpiryWF (c : MetadataCache) : Prop where
  nodup : c.expiry.Nodup
  mem_expiry : ∀ a, a ∈ c.expiry ↔ a ∈ c.heap
  cnt_eq : c.cnt = c.expiry.length
  lt_next : ∀ a ∈ c.heap, a < c.nextAddr

variable {c c' : MetadataCache}

/-- A change of the trees, or of an allocated entry, keeps the bookkeeping. -/
theorem ExpiryWF.of_frame (h : c.ExpiryWF) (hexp : c'.expiry = c.expiry) (hcnt : c'.cnt = c.cnt)
    (hnext : c'.nextAddr = c.nextAddr) (hkeys : ∀ a, a ∈ c'.heap ↔ a ∈ c.heap) : c'.ExpiryWF where
  nodup := hexp ▸ h.nodup
  mem_expiry a := by rw [hexp, hkeys, h.mem_expiry]
  cnt_eq := by rw [hcnt, hexp, h.cnt_eq]
  lt_next a ha := hnext ▸ h.lt_next a ((hkeys a).1 ha)

/-- A change of the trees keeps the bookkeeping. -/
theorem ExpiryWF.trees (h : c.ExpiryWF) (avl : AList fun _ : List UInt8 => ℕ)
    (avlById : AList fun _ : Uuid => ℕ) : ({ c with avl, avlById } : MetadataCache).ExpiryWF :=
  h.of_frame rfl rfl rfl fun _ => Iff.rfl

theorem ExpiryWF.delete (h : c.ExpiryWF) {a : ℕ} {unlinkAvl : Bool}
    (hd : metadataCacheDelete c a unlinkAvl = some c') : c'.ExpiryWF := by
  obtain ⟨-, ha, -, hexp, hcnt, hheap, hnext⟩ := metadataCacheDelete_eq_some hd
  refine ⟨hexp ▸ h.nodup.erase a, fun b => ?_, ?_, fun b hb => ?_⟩
  · rw [hexp, hheap, h.nodup.mem_erase_iff, AList.mem_erase, h.mem_expiry]
  · rw [hcnt, hexp, List.length_erase_of_mem ha, h.cnt_eq]
  · rw [hheap, AList.mem_erase] at hb
    rw [hnext]
    exact h.lt_next b hb.2

theorem ExpiryWF.alloc (h : c.ExpiryWF) (e : CacheEntry) :
    ({ c with
        heap := c.heap.insert c.nextAddr e, nextAddr := c.nextAddr + 1,
        expiry := c.expiry ++ [c.nextAddr], cnt := c.cnt + 1 } : MetadataCache).ExpiryWF := by
  -- the next address is not allocated, so it is not listed either
  have hfresh : c.nextAddr ∉ c.expiry :=
    fun hm => lt_irrefl _ (h.lt_next _ ((h.mem_expiry _).1 hm))
  refine ⟨h.nodup.append (List.nodup_singleton _) ?_, fun b => ?_, ?_, fun b hb => ?_⟩
  · simpa [List.disjoint_singleton] using hfresh
  · rw [List.mem_append, List.mem_singleton, AList.mem_insert, h.mem_expiry, or_comm]
  · simp [h.cnt_eq]
  · rw [AList.mem_insert] at hb
    rcases hb with rfl | hb
    · exact Nat.lt_succ_self _
    · exact Nat.lt_succ_of_lt (h.lt_next b hb)

theorem ExpiryWF.insertById (h : c.ExpiryWF) {a : ℕ} {topicId : Uuid} {old o : Option ℕ}
    (hi : Rdkafka.insertById c a topicId old = some (c', o)) : c'.ExpiryWF := by
  unfold Rdkafka.insertById at hi
  split at hi
  · cases hi; exact h.trees _ _
  · split at hi
    · cases hi; exact h
    · obtain ⟨oe, -, hi⟩ := Option.map_eq_some_iff.1 hi
      split at hi <;> cases hi
      · exact h.trees _ _
      · exact h

theorem ExpiryWF.insertFreeReplaced (h : c.ExpiryWF) {old oldById : Option ℕ}
    (hi : Rdkafka.insertFreeReplaced c old oldById = some c') : c'.ExpiryWF := by
  unfold Rdkafka.insertFreeReplaced at hi
  obtain ⟨c₁, h₁, hi⟩ := Option.bind_eq_some_iff.1 hi
  have hwf₁ : c₁.ExpiryWF := by
    cases old with
    | none => cases h₁; exact h
    | some o => exact h.delete h₁
  split at hi
  · split at hi
    · obtain ⟨oe, -, hi⟩ := Option.bind_eq_some_iff.1 hi
      exact (hwf₁.trees _ _).delete hi
    · cases hi; exact hwf₁
  · cases hi; exact hwf₁

theorem ExpiryWF.insert (h : c.ExpiryWF) {topic : List UInt8} {topicId : Uuid} {err : KafkaErr}
    {tsExpires : Int} {a : ℕ} (hi : metadataCacheInsert c topic topicId err tsExpires = some (a, c')) :
    c'.ExpiryWF := by
  unfold metadataCacheInsert at hi
  obtain ⟨⟨c₁, oldById⟩, hby, hi⟩ := Option.bind_eq_some_iff.1 hi
  obtain ⟨c₂, hfree, hi⟩ := Option.map_eq_some_iff.1 hi
  cases hi
  exact ((((h.alloc _).trees _ _).insertById hby).insertFreeReplaced hfree)

theorem ExpiryWF.deleteByName (h : c.ExpiryWF) {topic : List UInt8} {b : Bool}
    (hd : metadataCacheDeleteByName c topic = some (c', b)) : c'.ExpiryWF := by
  unfold metadataCacheDeleteByName at hd
  obtain ⟨found, -, hd⟩ := Option.bind_eq_some_iff.1 hd
  cases found with
  | none => cases hd; exact h
  | some a =>
    obtain ⟨c₁, h₁, hd⟩ := Option.map_eq_some_iff.1 hd
    cases hd
    exact h.delete h₁

theorem ExpiryWF.deleteByTopicId (h : c.ExpiryWF) {topicId : Uuid} {b : Bool}
    (hd : metadataCacheDeleteByTopicId c topicId = some (c', b)) : c'.ExpiryWF := by
  unfold metadataCacheDeleteByTopicId at hd
  obtain ⟨found, -, hd⟩ := Option.bind_eq_some_iff.1 hd
  cases found with
  | none => cases hd; exact h
  | some a =>
    obtain ⟨c₁, h₁, hd⟩ := Option.map_eq_some_iff.1 hd
    cases hd
    exact h.delete h₁

theorem ExpiryWF.topicUpdate (h : c.ExpiryWF) {conf : CacheConf} {now : Int}
    {mdt : TopicMetadata} {onlyExisting changed : Bool}
    (hu : metadataCacheTopicUpdate conf c now mdt onlyExisting = some (c', changed)) :
    c'.ExpiryWF := by
  unfold metadataCacheTopicUpdate at hu
  obtain ⟨ageUs, -, hu⟩ := Option.bind_eq_some_iff.1 hu
  obtain ⟨tsExpires, -, hu⟩ := Option.bind_eq_some_iff.1 hu
  obtain ⟨proceed, -, hu⟩ := Option.bind_eq_some_iff.1 hu
  split at hu
  · cases hu; exact h
  · split at hu
    · obtain ⟨ts, -, hu⟩ := Option.bind_eq_some_iff.1 hu
      split at hu
      · obtain ⟨⟨a, c₁⟩, hins, hu⟩ := Option.map_eq_some_iff.1 hu
        cases hu
        exact h.insert hins
      · exact h.deleteByName hu
    · exact h.deleteByTopicId hu

/-- Rewriting the error of an allocated entry keeps the bookkeeping. -/
theorem ExpiryWF.setEntry (h : c.ExpiryWF) {a : ℕ} {e : CacheEntry} (he : c.read a = some e)
    (e' : CacheEntry) : ({ c with heap := c.heap.insert a e' } : MetadataCache).ExpiryWF := by
  have ha : a ∈ c.heap := AList.lookup_isSome.1 (Option.isSome_iff_exists.2 ⟨e, he⟩)
  refine h.of_frame rfl rfl rfl fun b => ?_
  rw [AList.mem_insert]
  exact ⟨fun hb => hb.elim (· ▸ ha) id, .inr⟩

theorem ExpiryWF.hintLoop {err : KafkaErr} {tsExpires : Int} {replace dst : Bool} :
    ∀ (topics : List (List UInt8)) {c c' : MetadataCache} {n : ℕ} {added : List (List UInt8)},
      c.ExpiryWF → metadataCacheHintLoop err tsExpires replace dst c topics = some (c', n, added) →
      c'.ExpiryWF
  | [], _, _, _, _, h, hl => by
    cases hl
    exact h
  | t :: ts, c, c', n, added, h, hl => by
    rw [metadataCacheHintLoop] at hl
    obtain ⟨keep, hk, hl⟩ := Option.bind_eq_some_iff.1 hl
    -- the entry a hint is inserted over is the cache itself or has its error rewritten
    have hkeep : ∀ c₁, keep = some c₁ → c₁.ExpiryWF := by
      rintro c₁ rfl
      split at hk
      · cases hk; exact h
      · split at hk
        · cases hk; exact h
        · obtain ⟨e, he, hk⟩ := Option.map_eq_some_iff.1 hk
          split at hk
          · cases hk
          · cases hk; exact h.setEntry he _
    cases keep with
    | none => exact hintLoop ts h hl
    | some c₁ =>
      obtain ⟨⟨a, c₂⟩, hins, hl⟩ := Option.bind_eq_some_iff.1 hl
      obtain ⟨⟨c₃, n', added'⟩, hloop, hl⟩ := Option.map_eq_some_iff.1 hl
      cases hl
      exact hintLoop ts ((hkeep c₁ rfl).insert hins) hloop

theorem ExpiryWF.hint (h : c.ExpiryWF) {conf : CacheConf} {now : Int}
    {topics : List (List UInt8)} {dst replace : Bool} {err : KafkaErr} {n : ℕ}
    {added : List (List UInt8)}
    (hh : metadataCacheHint conf c now topics dst err replace = some (c', n, added)) :
    c'.ExpiryWF := by
  unfold metadataCacheHint at hh
  obtain ⟨timeoutUs, -, hh⟩ := Option.bind_eq_some_iff.1 hh
  obtain ⟨tsExpires, -, hh⟩ := Option.bind_eq_some_iff.1 hh
  exact ExpiryWF.hintLoop topics h hh

theorem ExpiryWF.purgeHints :
    ∀ (topics : List (List UInt8)) {c c' : MetadataCache} {n : ℕ},
      c.ExpiryWF → metadataCachePurgeHints c topics = some (c', n) → c'.ExpiryWF
  | [], _, _, _, h, hp => by
    cases hp
    exact h
  | t :: ts, c, c', n, h, hp => by
    rw [metadataCachePurgeHints] at hp
    obtain ⟨found, -, hp⟩ := Option.bind_eq_some_iff.1 hp
    cases found with
    | none => exact purgeHints ts h hp
    | some a =>
      obtain ⟨e, -, hp⟩ := Option.bind_eq_some_iff.1 hp
      split at hp
      · exact purgeHints ts h hp
      · obtain ⟨c₁, h₁, hp⟩ := Option.bind_eq_some_iff.1 hp
        obtain ⟨⟨c₂, n'⟩, hp', hp⟩ := Option.map_eq_some_iff.1 hp
        cases hp
        exact purgeHints ts (h.delete h₁) hp'

theorem ExpiryWF.purgeHintsById :
    ∀ (topicIds : List Uuid) {c c' : MetadataCache} {n : ℕ},
      c.ExpiryWF → metadataCachePurgeHintsById c topicIds = some (c', n) → c'.ExpiryWF
  | [], _, _, _, h, hp => by
    cases hp
    exact h
  | i :: is, c, c', n, h, hp => by
    rw [metadataCachePurgeHintsById] at hp
    obtain ⟨found, -, hp⟩ := Option.bind_eq_some_iff.1 hp
    cases found with
    | none => exact purgeHintsById is h hp
    | some a =>
      obtain ⟨e, -, hp⟩ := Option.bind_eq_some_iff.1 hp
      split at hp
      · exact purgeHintsById is h hp
      · obtain ⟨c₁, h₁, hp⟩ := Option.bind_eq_some_iff.1 hp
        obtain ⟨⟨c₂, n'⟩, hp', hp⟩ := Option.map_eq_some_iff.1 hp
        cases hp
        exact purgeHintsById is (h.delete h₁) hp'

theorem ExpiryWF.purgeAllHintsLoop :
    ∀ (as : List ℕ) {c c' : MetadataCache} {n : ℕ},
      c.ExpiryWF → Rdkafka.purgeAllHintsLoop c as = some (c', n) → c'.ExpiryWF
  | [], _, _, _, h, hp => by
    cases hp
    exact h
  | a :: as, c, c', n, h, hp => by
    rw [Rdkafka.purgeAllHintsLoop] at hp
    obtain ⟨e, -, hp⟩ := Option.bind_eq_some_iff.1 hp
    split at hp
    · exact purgeAllHintsLoop as h hp
    · obtain ⟨c₁, h₁, hp⟩ := Option.bind_eq_some_iff.1 hp
      obtain ⟨⟨c₂, n'⟩, hp', hp⟩ := Option.map_eq_some_iff.1 hp
      cases hp
      exact purgeAllHintsLoop as (h.delete h₁) hp'

theorem ExpiryWF.evictLoop {now : Int} :
    ∀ (fuel : ℕ) {c c' : MetadataCache} {n : ℕ},
      c.ExpiryWF → Rdkafka.evictLoop now fuel c = some (c', n) → c'.ExpiryWF
  | 0, _, _, _, h, he => by
    cases he
    exact h
  | fuel + 1, c, c', n, h, he => by
    rw [Rdkafka.evictLoop] at he
    split at he
    · cases he; exact h
    · obtain ⟨e, -, he⟩ := Option.bind_eq_some_iff.1 he
      split at he
      · obtain ⟨c₁, h₁, he⟩ := Option.bind_eq_some_iff.1 he
        obtain ⟨⟨c₂, n'⟩, he', he⟩ := Option.map_eq_some_iff.1 he
        cases he
        exact evictLoop fuel (h.delete h₁) he'
      · cases he; exact h

theorem ExpiryWF.purgeLoop :
    ∀ (fuel : ℕ) {c c' : MetadataCache}, c.ExpiryWF → Rdkafka.purgeLoop fuel c = some c' →
      c'.ExpiryWF
  | 0, _, _, h, hp => by
    cases hp
    exact h
  | fuel + 1, c, c', h, hp => by
    rw [Rdkafka.purgeLoop] at hp
    split at hp
    · cases hp; exact h
    · obtain ⟨c₁, h₁, hp⟩ := Option.bind_eq_some_iff.1 hp
      exact purgeLoop fuel (h.delete h₁) hp

/-- Every call on the cache keeps the bookkeeping. -/
theorem ExpiryWF.step (h : c.ExpiryWF) {conf : CacheConf} {now : Int} {op : CacheOp}
    (hs : metadataCacheStep conf c now op = some c') : c'.ExpiryWF := by
  cases op <;> simp only [metadataCacheStep, Option.map_eq_some_iff, Prod.exists,
    exists_and_right, exists_eq_right] at hs
  case topicUpdate => obtain ⟨_, hs⟩ := hs; exact h.topicUpdate hs
  case hint => obtain ⟨_, _, hs⟩ := hs; exact h.hint hs
  case deleteByName => obtain ⟨_, hs⟩ := hs; exact h.deleteByName hs
  case deleteByTopicId => obtain ⟨_, hs⟩ := hs; exact h.deleteByTopicId hs
  case purgeHints => obtain ⟨_, hs⟩ := hs; exact ExpiryWF.purgeHints _ h hs
  case purgeHintsById => obtain ⟨_, hs⟩ := hs; exact ExpiryWF.purgeHintsById _ h hs
  case purgeAllHints => obtain ⟨_, hs⟩ := hs; exact ExpiryWF.purgeAllHintsLoop _ h hs
  case evict => obtain ⟨_, hs⟩ := hs; exact ExpiryWF.evictLoop _ h hs
  case purge => exact ExpiryWF.purgeLoop _ h hs

theorem ExpiryWF.run {conf : CacheConf} :
    ∀ {ops : List (Int × CacheOp)} {c c' : MetadataCache}, c.ExpiryWF →
      metadataCacheRun conf c ops = some c' → c'.ExpiryWF
  | [], _, _, h, hr => by
    cases hr
    exact h
  | (now, op) :: ops, c, c', h, hr => by
    rw [metadataCacheRun] at hr
    obtain ⟨c₁, h₁, hr⟩ := Option.bind_eq_some_iff.1 hr
    exact (h.step h₁).run hr

end MetadataCache

end Rdkafka
