import Rdkafka.Metadata.CacheSpec

/-!
# Eviction from the metadata cache

`rd_kafka_metadata_cache_evict` deletes entries from the head of the expiry list while they
have expired, then arms the expiry timer for the first entry left, or stops it.  From every
cache a run reaches, eviction is defined and does exactly that: it removes the longest
prefix of the expiry list whose entries have expired, counts it, and arms the timer for the
first entry after it, which has not expired (`metadataCacheEvictTmr_spec`, for the caches
that keep `ExpiryWF`, which every run keeps: `metadataCacheEvictTmr_reachable`).

That removes every expired entry when the list is ordered by expiry time, and the timer is
then armed for the smallest expiry time left (`metadataCacheEvictTmr_sorted`).  But the list
is in insertion order while the entries get different lifetimes (`metadata.max.age.ms`,
100 ms for an unknown topic, `socket.timeout.ms` for a hint), so two updates can put an
entry that expires later in front of one that expires sooner; eviction then keeps the
expired entry and arms the timer for the later one (`metadataCacheEvict_keeps_expired`).
-/

set_option autoImplicit false

namespace Rdkafka

namespace MetadataCache

variable {c c' : MetadataCache}

end MetadataCache

open MetadataCache

/-- **Eviction keeps an expired entry.**  With `metadata.max.age.ms` 900000 and
`socket.timeout.ms` 60000, topic `a` (the byte 97) is cached at time 0 until 900 s, then the
unknown topic `b` (98) until 100 ms.  At 200 ms eviction removes nothing, since the head of
the list, `a`, has not expired: `b` stays cached 100 ms after it expired, and the timer is
armed for the expiry of `a`, 899.8 s later, instead of at once. -/
theorem metadataCacheEvict_keeps_expired :
    ((metadataCacheRun ⟨900000, 60000⟩ metadataCacheInit
        [(0, .topicUpdate ⟨some [97], .noError, Uuid.zero⟩ false),
          (0, .topicUpdate ⟨some [98], .unknownTopicOrPart, Uuid.zero⟩ false)]).bind
        fun c => metadataCacheEvictTmr c 200000).map
      (fun r => (r.2.1, r.1.expiry.map fun a => (r.1.read a).map (·.tsExpires), r.2.2)) =
    some (0, [some 900000000, some 100000], ExpiryTimer.start 899800000) := by
  decide +kernel

end Rdkafka
