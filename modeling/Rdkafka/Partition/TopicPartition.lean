import Mathlib.Data.List.Nodup
import Mathlib.Data.List.Sort
import Rdkafka.Kafka.Err

/-!
# Topic partitions and topic partition lists

This file models `rd_kafka_topic_partition_t` and the list operations of
`src/rdkafka_partition.c` that the consumer assignment code uses on
`rd_kafka_topic_partition_list_t`: search by topic and partition, delete the first match,
append, and sort.

A list is its array `elems[0 .. cnt)`, modelled as a list.  Topic names are the bytes of the
C strings and are compared as `strcmp` compares them; a partition is its `int32_t` id.  An
element keeps the fields the modelled code reads: the start or committed `offset` and the
per-partition error `err`.

`rd_kafka_topic_partition_list_sort` is `qsort` with `rd_kafka_topic_partition_cmp`, which
leaves the order of elements with the same topic and partition open; the model sorts
stably, by insertion.  Every property below is stated through the keys of a list, which that choice does
not affect.
-/

set_option autoImplicit false

namespace Rdkafka

/-! ## `strcmp` -/

/-- `strcmp(a, b)` on the bytes of two C strings, compared as `unsigned char`. -/
def strcmp : List UInt8 → List UInt8 → Ordering
  | [], [] => .eq
  | [], _ :: _ => .lt
  | _ :: _, [] => .gt
  | a :: as, b :: bs => if a < b then .lt else if b < a then .gt else strcmp as bs

theorem strcmp_eq_iff : ∀ {a b : List UInt8}, strcmp a b = .eq ↔ a = b
  | [], [] => by simp [strcmp]
  | [], _ :: _ => by simp [strcmp]
  | _ :: _, [] => by simp [strcmp]
  | x :: xs, y :: ys => by
    by_cases hxy : x < y
    · have hne : x ≠ y := fun h => by subst h; exact UInt8.lt_irrefl x hxy
      simp [strcmp, hxy, hne]
    · by_cases hyx : y < x
      · have hne : x ≠ y := fun h => by subst h; exact UInt8.lt_irrefl x hyx
        simp [strcmp, hxy, hyx, hne]
      · have hxy' : x = y := by
          rw [UInt8.lt_iff_toNat_lt] at hxy hyx
          exact UInt8.toNat_inj.mp (by omega)
        simp [strcmp, hxy', strcmp_eq_iff]

/-! ## Topic partitions -/

/-- What `rd_kafka_topic_partition_cmp` compares: the topic name and the partition id. -/
structure TpKey where
  /-- `topic`. -/
  topic : List UInt8
  /-- `partition`. -/
  partition : Int
  deriving DecidableEq, Repr

/-- The fields of `rd_kafka_topic_partition_t` the modelled code reads. -/
structure TopicPartition where
  /-- `topic`. -/
  topic : List UInt8
  /-- `partition`. -/
  partition : Int
  /-- `offset`: a start offset, a committed offset, or a logical offset. -/
  offset : Int
  /-- `err`. -/
  err : KafkaErr
  deriving DecidableEq, Repr

/-- The topic and partition of an element. -/
def TopicPartition.key (e : TopicPartition) : TpKey := ⟨e.topic, e.partition⟩

@[simp] theorem TopicPartition.key_topic (e : TopicPartition) : e.key.topic = e.topic := rfl

@[simp] theorem TopicPartition.key_partition (e : TopicPartition) :
    e.key.partition = e.partition := rfl

/-- `rd_kafka_topic_partition_cmp`: by topic name, then by partition id (`RD_CMP`). -/
def tpKeyCmp (a b : TpKey) : Ordering :=
  match strcmp a.topic b.topic with
  | .eq => compare a.partition b.partition
  | r => r

theorem tpKeyCmp_eq_iff {a b : TpKey} : tpKeyCmp a b = .eq ↔ a = b := by
  obtain ⟨ta, pa⟩ := a
  obtain ⟨tb, pb⟩ := b
  unfold tpKeyCmp
  cases h : strcmp ta tb with
  | eq =>
    rw [strcmp_eq_iff] at h
    simp [h]
  | lt =>
    have hne : ta ≠ tb := fun e => by rw [e, strcmp_eq_iff.2 rfl] at h; cases h
    simp [hne]
  | gt =>
    have hne : ta ≠ tb := fun e => by rw [e, strcmp_eq_iff.2 rfl] at h; cases h
    simp [hne]

/-- `rd_kafka_topic_partition_cmp` on two elements. -/
def topicPartitionCmp (a b : TopicPartition) : Ordering := tpKeyCmp a.key b.key

/-! ## Lists -/

/-- The topics and partitions of a list, in order. -/
def keys (l : List TopicPartition) : List TpKey := l.map TopicPartition.key

@[simp] theorem keys_nil : keys [] = [] := rfl

@[simp] theorem keys_cons (e : TopicPartition) (l : List TopicPartition) :
    keys (e :: l) = e.key :: keys l := rfl

/-- `rd_kafka_topic_partition_list_find0(list, topic, partition,
rd_kafka_topic_partition_cmp)`: the index of the first element with the topic and
partition, `none` for `-1`. -/
def tpListFindIdx : List TopicPartition → TpKey → Option ℕ
  | [], _ => none
  | e :: l, k => if tpKeyCmp k e.key = .eq then some 0 else (tpListFindIdx l k).map (· + 1)

/-- `rd_kafka_topic_partition_list_find(list, topic, partition)`: the first element with
the topic and partition, `none` for `NULL`. -/
def tpListFind (l : List TopicPartition) (k : TpKey) : Option TopicPartition :=
  (tpListFindIdx l k).bind fun i => l[i]?

/-- `rd_kafka_topic_partition_list_del_by_idx(list, idx)`: the list without element `idx`,
and whether there was one. -/
def tpListDelByIdx (l : List TopicPartition) (idx : ℕ) : List TopicPartition × Bool :=
  if idx < l.length then (l.eraseIdx idx, true) else (l, false)

/-- `rd_kafka_topic_partition_list_del(list, topic, partition)`: the list without the first
element with the topic and partition, and whether there was one. -/
def tpListDel (l : List TopicPartition) (k : TpKey) : List TopicPartition × Bool :=
  match tpListFindIdx l k with
  | none => (l, false)
  | some i => tpListDelByIdx l i

/-- `rd_kafka_topic_partition_list_add_copy(list, rktpar)`. -/
def tpListAddCopy (l : List TopicPartition) (e : TopicPartition) : List TopicPartition := l ++ [e]

/-- `rd_kafka_topic_partition_list_sort(list, NULL, NULL)`. -/
def tpListSort (l : List TopicPartition) : List TopicPartition :=
  l.insertionSort fun a b => topicPartitionCmp a b ≠ .gt

theorem tpListFindIdx_cons (e : TopicPartition) (l : List TopicPartition) (k : TpKey) :
    tpListFindIdx (e :: l) k = if e.key = k then some 0 else (tpListFindIdx l k).map (· + 1) := by
  rw [tpListFindIdx]
  by_cases h : e.key = k
  · rw [if_pos (tpKeyCmp_eq_iff.2 h.symm), if_pos h]
  · rw [if_neg (fun h' => h (tpKeyCmp_eq_iff.1 h').symm), if_neg h]

theorem tpListFindIdx_eq_none_iff {l : List TopicPartition} {k : TpKey} :
    tpListFindIdx l k = none ↔ k ∉ keys l := by
  induction l with
  | nil => simp [tpListFindIdx]
  | cons e l ih =>
    rw [tpListFindIdx_cons]
    by_cases h : e.key = k
    · simp [h]
    · simp [h, ih, Ne.symm h]

/-- The element found is one with the key, and the index is where it stands. -/
theorem tpListFindIdx_eq_some {l : List TopicPartition} {k : TpKey} {i : ℕ}
    (h : tpListFindIdx l k = some i) :
    ∃ hi : i < l.length, l[i].key = k ∧ keys (l.eraseIdx i) = (keys l).erase k := by
  induction l generalizing i with
  | nil => simp [tpListFindIdx] at h
  | cons e l ih =>
    rw [tpListFindIdx_cons] at h
    by_cases hk : e.key = k
    · rw [if_pos hk] at h
      cases h
      refine ⟨by simp, hk, ?_⟩
      simp [keys, hk]
    · rw [if_neg hk] at h
      obtain ⟨j, hj, rfl⟩ := Option.map_eq_some_iff.1 h
      obtain ⟨hlt, hkey, hkeys⟩ := ih hj
      refine ⟨by simpa using hlt, by simpa using hkey, ?_⟩
      rw [List.eraseIdx_cons_succ, keys_cons, hkeys, keys_cons,
        List.erase_cons_tail (by simpa using hk)]

theorem tpListFind_isSome_iff {l : List TopicPartition} {k : TpKey} :
    (tpListFind l k).isSome ↔ k ∈ keys l := by
  unfold tpListFind
  cases h : tpListFindIdx l k with
  | none =>
    rw [tpListFindIdx_eq_none_iff] at h
    simp [h]
  | some i =>
    obtain ⟨hi, hkey, -⟩ := tpListFindIdx_eq_some h
    simp only [Option.bind_some, List.getElem?_eq_getElem hi, Option.isSome_some, true_iff]
    exact hkey ▸ List.mem_map_of_mem (List.getElem_mem hi)

end Rdkafka
