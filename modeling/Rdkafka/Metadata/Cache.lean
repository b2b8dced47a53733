import Mathlib.Data.List.AList
import Rdkafka.Lib.CInt
import Rdkafka.Kafka.Err

/-!
# The metadata cache

This file models the metadata cache of `src/rdkafka_metadata_cache.c`: its entries
`rd_kafka_metadata_cache_entry`, the expiry list `rkmc_expiry` with the count `rkmc_cnt`,
and the two AVL trees that index the entries, `rkmc_avl` by topic name and
`rkmc_avl_by_id` by topic id; and the functions that change them.

Entries live in memory.  An entry is an address; the heap maps the addresses that are
allocated to their entries, `rd_free` removes an address from it, and reading or writing
through an address that is not allocated is undefined (`none`).  Addresses are not reused.

An AVL tree is modelled by what it stores, a map from keys to element addresses
(`AList`): `RD_AVL_INSERT` replaces the element with an equal key and returns it,
`RD_AVL_FIND` looks a key up, and `RD_AVL_REMOVE_ELM` removes the element whose key equals
that of the element it is given, which it reads.  The nodes are embedded in the entries;
the map keeps each node's key with it, which is what the memory of a freed entry still
holds, and does not follow the comparisons along a path of the tree.

Of an entry the model keeps the fields these functions read: the topic name, the topic id,
the error and the expiry time.  The partitions, brokers and racks that
`rd_kafka_metadata_cache_insert` copies in are not read here, nor are the timers and the
observers woken by `rd_kafka_metadata_cache_propagate_changes`.
-/

set_option autoImplicit false

namespace Rdkafka

/-! ## Entries -/

/-- `rd_kafka_Uuid_t`: the two halves `rd_kafka_Uuid_cmp` compares. -/
structure Uuid where
  /-- `most_significant_bits`. -/
  mostSignificantBits : Int
  /-- `least_significant_bits`. -/
  leastSignificantBits : Int
  deriving DecidableEq, Repr

/-- `RD_KAFKA_UUID_ZERO`. -/
def Uuid.zero : Uuid := ⟨0, 0⟩

/-- `RD_KAFKA_UUID_IS_ZERO(uuid)`: `rd_kafka_Uuid_cmp` is zero exactly when both halves
agree. -/
def Uuid.isZero (u : Uuid) : Bool := u == Uuid.zero

/-- The fields of `rd_kafka_metadata_cache_entry` the cache code reads. -/
structure CacheEntry where
  /-- `rkmce_mtopic.topic`. -/
  topic : List UInt8
  /-- `rkmce_metadata_internal_topic.topic_id`. -/
  topicId : Uuid
  /-- `rkmce_mtopic.err`. -/
  err : KafkaErr
  /-- `rkmce_ts_expires`. -/
  tsExpires : Int
  deriving DecidableEq, Repr

/-- `RD_KAFKA_METADATA_CACHE_VALID(rkmce)`: the entry is not a hint, whose error is
`__WAIT_CACHE` or `__NOENT`. -/
def CacheEntry.valid (e : CacheEntry) : Bool := !(e.err == .waitCache || e.err == .noent)

/-- `rk->rk_metadata_cache`, with the memory of its entries. -/
structure MetadataCache where
  /-- The allocated entries, by address. -/
  heap : AList fun _ : ℕ => CacheEntry
  /-- The address the next allocation returns. -/
  nextAddr : ℕ
  /-- `rkmc_expiry`, the `TAILQ` of entries in insertion order. -/
  expiry : List ℕ
  /-- `rkmc_avl`, by topic name. -/
  avl : AList fun _ : List UInt8 => ℕ
  /-- `rkmc_avl_by_id`, by topic id. -/
  avlById : AList fun _ : Uuid => ℕ
  /-- `rkmc_cnt`. -/
  cnt : ℕ

/-- `rd_kafka_metadata_cache_init`. -/
def metadataCacheInit : MetadataCache := ⟨∅, 0, [], ∅, ∅, 0⟩

/-- The configuration the cache reads: `metadata.max.age.ms` and `socket.timeout.ms`. -/
structure CacheConf where
  /-- `metadata_max_age_ms`, an `int`. -/
  metadataMaxAgeMs : Int
  /-- `socket_timeout_ms`, an `int`. -/
  socketTimeoutMs : Int
  deriving DecidableEq, Repr

/-- Reading the entry at an address. -/
def MetadataCache.read (c : MetadataCache) (a : ℕ) : Option CacheEntry := c.heap.lookup a

/-! ## Removing, finding and inserting -/

/-- `rd_kafka_metadata_cache_delete(rk, rkmce, unlink_avl)`: unlink the entry from the trees
if asked, `TAILQ_REMOVE` it from the expiry list (which relinks its neighbours through its
links), `rd_kafka_assert(rkmc_cnt > 0)`, decrement the count and free it. -/
def metadataCacheDelete (c : MetadataCache) (a : ℕ) (unlinkAvl : Bool) : Option MetadataCache :=
  (c.read a).bind fun e =>
    let c :=
      if unlinkAvl then
        let c := { c with avl := c.avl.erase e.topic }
        if !e.topicId.isZero then { c with avlById := c.avlById.erase e.topicId } else c
      else c
    if a ∉ c.expiry then none
    else if c.cnt = 0 then none
    else some { c with expiry := c.expiry.erase a, cnt := c.cnt - 1, heap := c.heap.erase a }

/-- `rd_kafka_metadata_cache_find(rk, topic, valid)`: the entry with the name, `NULL` if there
is none or `valid` is asked of a hint. -/
def metadataCacheFind (c : MetadataCache) (topic : List UInt8) (valid : Bool) :
    Option (Option ℕ) :=
  match c.avl.lookup topic with
  | none => some none
  | some a =>
    if !valid then some (some a)
    else (c.read a).map fun e => if e.valid then some a else none

/-- `rd_kafka_metadata_cache_find_by_id(rk, topic_id, valid)`. -/
def metadataCacheFindById (c : MetadataCache) (topicId : Uuid) (valid : Bool) :
    Option (Option ℕ) :=
  match c.avlById.lookup topicId with
  | none => some none
  | some a =>
    if !valid then some (some a)
    else (c.read a).map fun e => if e.valid then some a else none

/-- The by-id step of `rd_kafka_metadata_cache_insert` after the by-name insert returned
`old`: file the new entry `a` under a non-zero id, which returns the entry it replaces;
under a zero id, take `old` out of the by-id tree if it had an id. -/
def insertById (c : MetadataCache) (a : ℕ) (topicId : Uuid) (old : Option ℕ) :
    Option (MetadataCache × Option ℕ) :=
  if !topicId.isZero then
    some ({ c with avlById := c.avlById.insert topicId a }, c.avlById.lookup topicId)
  else
    match old with
    | none => some (c, none)
    | some o =>
      (c.read o).map fun oe =>
        if !oe.topicId.isZero then ({ c with avlById := c.avlById.erase oe.topicId }, none)
        else (c, none)

/-- The end of `rd_kafka_metadata_cache_insert`: free the entry the by-name insert replaced,
with `unlink_avl = 0`; then, if the by-id insert replaced another entry, remove that one
from the by-name tree (by its name, which is read) and free it. -/
def insertFreeReplaced (c : MetadataCache) (old oldById : Option ℕ) : Option MetadataCache :=
  (match old with
    | none => some c
    | some o => metadataCacheDelete c o false).bind fun c =>
  match oldById with
  | some o =>
    if some o ≠ old then
      (c.read o).bind fun oe => metadataCacheDelete { c with avl := c.avl.erase oe.topic } o false
    else some c
  | none => some c

/-- `rd_kafka_metadata_cache_insert(rk, mtopic, metadata_internal_topic, now, ts_expires,
...)`: allocate the entry, append it to the expiry list, and insert it into both trees,
replacing and freeing the entries it displaces. -/
def metadataCacheInsert (c : MetadataCache) (topic : List UInt8) (topicId : Uuid)
    (err : KafkaErr) (tsExpires : Int) : Option (ℕ × MetadataCache) :=
  let a := c.nextAddr
  let c := { c with
    heap := c.heap.insert a ⟨topic, topicId, err, tsExpires⟩, nextAddr := a + 1,
    expiry := c.expiry ++ [a], cnt := c.cnt + 1 }
  let old := c.avl.lookup topic
  let c := { c with avl := c.avl.insert topic a }
  (insertById c a topicId old).bind fun (c, oldById) =>
    (insertFreeReplaced c old oldById).map fun c => (a, c)

/-- `rd_kafka_metadata_cache_delete_by_name(rk, topic)`: whether an entry was removed. -/
def metadataCacheDeleteByName (c : MetadataCache) (topic : List UInt8) :
    Option (MetadataCache × Bool) :=
  (metadataCacheFind c topic true).bind fun
    | none => some (c, false)
    | some a => (metadataCacheDelete c a true).map fun c => (c, true)

/-- `rd_kafka_metadata_cache_delete_by_topic_id(rk, topic_id)`. -/
def metadataCacheDeleteByTopicId (c : MetadataCache) (topicId : Uuid) :
    Option (MetadataCache × Bool) :=
  (metadataCacheFindById c topicId true).bind fun
    | none => some (c, false)
    | some a => (metadataCacheDelete c a true).map fun c => (c, true)

/-! ## Updates from Metadata responses -/

/-- The fields of a topic in a Metadata response that `rd_kafka_metadata_cache_topic_update`
reads: the name (`NULL` for a topic known by id only), the error and the topic id. -/
structure TopicMetadata where
  /-- `mdt->topic`. -/
  topic : Option (List UInt8)
  /-- `mdt->err`. -/
  err : KafkaErr
  /-- `mdit->topic_id`. -/
  topicId : Uuid
  deriving DecidableEq, Repr

/-- `rd_kafka_metadata_cache_topic_update(rk, mdt, mdit, propagate, include_racks, brokers,
broker_cnt, only_existing)` at time `now`: the cache and whether it changed. -/
def metadataCacheTopicUpdate (conf : CacheConf) (c : MetadataCache) (now : Int)
    (mdt : TopicMetadata) (onlyExisting : Bool) : Option (MetadataCache × Bool) :=
  -- `metadata_max_age_ms * 1000` is computed in `int`
  (CInt.mul 32 conf.metadataMaxAgeMs 1000).bind fun ageUs =>
  (CInt.add 64 now ageUs).bind fun tsExpires =>
  let existing : Option Bool :=
    if onlyExisting then
      (match mdt.topic with
        | some t => metadataCacheFind c t false
        | none => metadataCacheFindById c mdt.topicId true).map Option.isSome
    else some true
  existing.bind fun proceed =>
  if !proceed then some (c, false)
  else
    match mdt.topic with
    | some t =>
      -- unknown topics are cached for 100 ms only
      (if mdt.err = .unknownTopicOrPart then (CInt.add 64 now (100 * 1000)).map (min tsExpires)
        else some tsExpires).bind fun tsExpires =>
      if mdt.err = .noError ∨ mdt.err = .topicAuthorizationFailed ∨
          mdt.err = .unknownTopicOrPart then
        (metadataCacheInsert c t mdt.topicId mdt.err tsExpires).map fun (_, c) => (c, true)
      else metadataCacheDeleteByName c t
    | none => metadataCacheDeleteByTopicId c mdt.topicId

/-- The loop of `rd_kafka_metadata_cache_hint` over the topics, with the hint error `err` and
expiry `tsExpires`: without `replace` a valid entry is kept, and so is a hint whose error
is not `__NOENT` when `dst` is asked for; another hint gets the error and is replaced.  The
cache, the number of hints inserted and the topics added to `dst`. -/
def metadataCacheHintLoop (err : KafkaErr) (tsExpires : Int) (replace dst : Bool) :
    MetadataCache → List (List UInt8) → Option (MetadataCache × ℕ × List (List UInt8))
  | c, [] => some (c, 0, [])
  | c, t :: ts =>
    let keep : Option (Option MetadataCache) :=
      if replace then some (some c)
      else
        match c.avl.lookup t with
        | none => some (some c)
        | some a =>
          (c.read a).map fun e =>
            if e.valid || (dst && e.err != .noent) then none
            else some { c with heap := c.heap.insert a { e with err } }
    keep.bind fun
      | none => metadataCacheHintLoop err tsExpires replace dst c ts
      | some c =>
        (metadataCacheInsert c t Uuid.zero err tsExpires).bind fun (_, c) =>
          (metadataCacheHintLoop err tsExpires replace dst c ts).map fun (c, cnt, added) =>
            (c, cnt + 1, if dst then t :: added else added)

/-- `rd_kafka_metadata_cache_hint(rk, topics, dst, err, replace)` at time `now`. -/
def metadataCacheHint (conf : CacheConf) (c : MetadataCache) (now : Int)
    (topics : List (List UInt8)) (dst : Bool) (err : KafkaErr) (replace : Bool) :
    Option (MetadataCache × ℕ × List (List UInt8)) :=
  (CInt.mul 32 conf.socketTimeoutMs 1000).bind fun timeoutUs =>
  (CInt.add 64 now timeoutUs).bind fun tsExpires =>
  metadataCacheHintLoop err tsExpires replace dst c topics

/-! ## Purging -/

/-- `rd_kafka_metadata_cache_purge_hints(rk, topics)`: delete the hints among the topics. -/
def metadataCachePurgeHints : MetadataCache → List (List UInt8) → Option (MetadataCache × ℕ)
  | c, [] => some (c, 0)
  | c, t :: ts =>
    (metadataCacheFind c t false).bind fun
      | none => metadataCachePurgeHints c ts
      | some a =>
        (c.read a).bind fun e =>
          if e.valid then metadataCachePurgeHints c ts
          else (metadataCacheDelete c a true).bind fun c =>
            (metadataCachePurgeHints c ts).map fun (c, n) => (c, n + 1)

/-- `rd_kafka_metadata_cache_purge_hints_by_id(rk, topic_ids)`. -/
def metadataCachePurgeHintsById : MetadataCache → List Uuid → Option (MetadataCache × ℕ)
  | c, [] => some (c, 0)
  | c, i :: is =>
    (metadataCacheFindById c i false).bind fun
      | none => metadataCachePurgeHintsById c is
      | some a =>
        (c.read a).bind fun e =>
          if e.valid then metadataCachePurgeHintsById c is
          else (metadataCacheDelete c a true).bind fun c =>
            (metadataCachePurgeHintsById c is).map fun (c, n) => (c, n + 1)

/-- The `TAILQ_FOREACH_SAFE` loop of `rd_kafka_metadata_cache_purge_all_hints` over the
entries of the expiry list as it was when the loop started. -/
def purgeAllHintsLoop : MetadataCache → List ℕ → Option (MetadataCache × ℕ)
  | c, [] => some (c, 0)
  | c, a :: as =>
    (c.read a).bind fun e =>
      if e.valid then purgeAllHintsLoop c as
      else (metadataCacheDelete c a true).bind fun c =>
        (purgeAllHintsLoop c as).map fun (c, n) => (c, n + 1)

/-- `rd_kafka_metadata_cache_purge_all_hints(rk)`. -/
def metadataCachePurgeAllHints (c : MetadataCache) : Option (MetadataCache × ℕ) :=
  purgeAllHintsLoop c c.expiry

/-- The loop of `rd_kafka_metadata_cache_evict` at time `now`: delete the first entry of the
expiry list while it has expired.  Each round removes the first entry, so `fuel`, the
length of the list, is enough. -/
def evictLoop (now : Int) : ℕ → MetadataCache → Option (MetadataCache × ℕ)
  | 0, c => some (c, 0)
  | fuel + 1, c =>
    match c.expiry.head? with
    | none => some (c, 0)
    | some a =>
      (c.read a).bind fun e =>
        if e.tsExpires ≤ now then
          (metadataCacheDelete c a true).bind fun c =>
            (evictLoop now fuel c).map fun (c, n) => (c, n + 1)
        else some (c, 0)

/-- `rd_kafka_metadata_cache_evict(rk)` at time `now`: the cache and the number of entries
evicted. -/
def metadataCacheEvict (c : MetadataCache) (now : Int) : Option (MetadataCache × ℕ) :=
  evictLoop now c.expiry.length c

/-- What `rd_kafka_metadata_cache_evict` leaves the expiry timer `rkmc_expiry_tmr` doing. -/
inductive ExpiryTimer where
  /-- `rd_kafka_timer_start(..., interval, ...)`: fire `interval` microseconds from now. -/
  | start (interval : Int)
  /-- `rd_kafka_timer_stop`. -/
  | stop
  deriving DecidableEq, Repr

/-- The end of `rd_kafka_metadata_cache_evict` after its loop: the timer is started for the
expiry of the first entry of the expiry list, the one the loop stopped at, or stopped when
the list is empty. -/
def evictRearm (c : MetadataCache) (now : Int) : Option ExpiryTimer :=
  match c.expiry.head? with
  | none => some .stop
  | some a => (c.read a).map fun e => .start (e.tsExpires - now)

/-- `rd_kafka_metadata_cache_evict(rk)` at time `now` with its timer: the cache, the number of
entries evicted and what the expiry timer does. -/
def metadataCacheEvictTmr (c : MetadataCache) (now : Int) :
    Option (MetadataCache × ℕ × ExpiryTimer) :=
  (metadataCacheEvict c now).bind fun (c, n) => (evictRearm c now).map fun t => (c, n, t)

/-- The loop of `rd_kafka_metadata_cache_purge`: delete the first entry of the expiry list
until there is none. -/
def purgeLoop : ℕ → MetadataCache → Option MetadataCache
  | 0, c => some c
  | fuel + 1, c =>
    match c.expiry.head? with
    | none => some c
    | some a => (metadataCacheDelete c a true).bind (purgeLoop fuel)

/-- `rd_kafka_metadata_cache_purge(rk, purge_observers)`. -/
def metadataCachePurge (c : MetadataCache) : Option MetadataCache := purgeLoop c.expiry.length c

/-! ## Runs -/

/-- A call on the cache. -/
inductive CacheOp where
  | topicUpdate (mdt : TopicMetadata) (onlyExisting : Bool)
  | hint (topics : List (List UInt8)) (dst : Bool) (err : KafkaErr) (replace : Bool)
  | deleteByName (topic : List UInt8)
  | deleteByTopicId (topicId : Uuid)
  | purgeHints (topics : List (List UInt8))
  | purgeHintsById (topicIds : List Uuid)
  | purgeAllHints
  | evict
  | purge
  deriving DecidableEq, Repr

/-- One call at time `now`. -/
def metadataCacheStep (conf : CacheConf) (c : MetadataCache) (now : Int) :
    CacheOp → Option MetadataCache
  | .topicUpdate mdt onlyExisting => (metadataCacheTopicUpdate conf c now mdt onlyExisting).map (·.1)
  | .hint topics dst err replace => (metadataCacheHint conf c now topics dst err replace).map (·.1)
  | .deleteByName topic => (metadataCacheDeleteByName c topic).map (·.1)
  | .deleteByTopicId topicId => (metadataCacheDeleteByTopicId c topicId).map (·.1)
  | .purgeHints topics => (metadataCachePurgeHints c topics).map (·.1)
  | .purgeHintsById topicIds => (metadataCachePurgeHintsById c topicIds).map (·.1)
  | .purgeAllHints => (metadataCachePurgeAllHints c).map (·.1)
  | .evict => (metadataCacheEvict c now).map (·.1)
  | .purge => metadataCachePurge c

/-- A run of calls, each with its time; `none` once one was undefined. -/
def metadataCacheRun (conf : CacheConf) (c : MetadataCache) : List (Int × CacheOp) →
    Option MetadataCache
  | [] => some c
  | (now, op) :: ops => (metadataCacheStep conf c now op).bind fun c => metadataCacheRun conf c ops

end Rdkafka
