import Rdkafka.Map.Map
import Rdkafka.Lib.Buckets
import Rdkafka.Lib.Simulation

/-!
# `rd_map_t` is a list of entries

What a map is for is a list of key-value entries with distinct keys, in the order
`RD_MAP_FOREACH` visits them: the newest key first, a key set again keeping its place
(`entriesSet`), a deleted key dropped (`entriesDelete`), and a key looked up by
`List.lookup`.  The hash buckets are an index into that list.

The invariant `Map.WF` says how: there are buckets, bucket `i` holds the elements of the
iteration list whose hash falls into it, in the same order, each element carries its key's
hash, the keys are distinct, and `rmap_cnt` counts the elements.  For a comparator that says
`0` exactly for equal keys, `rd_map_find` then finds the key's element by its bucket alone
(`Map.WF.mapFind_eq`), so that `rd_map_get` looks the key up in the entries
(`Map.WF.mapGet_eq`), and `rd_map_set`, `rd_map_delete` and `rd_map_clear` keep the
invariant and act on the entries as the list operations do (`Map.WF.mapSet`,
`Map.WF.mapDelete`, `Map.WF.mapClear`).

By the run rule of `Lib.Simulation`, from `rd_map_init` every sequence of calls returns what
the list of entries returns and leaves its entries, counted by `rd_map_cnt`
(`mapRun_refines`).  `rd_map_copy` sets the entries of its source in the order they are
visited, newest first, so that a copy into an empty map visits them oldest first
(`mapCopy_entries_reverse`).
-/

set_option autoImplicit false

namespace Rdkafka

open Simulation

variable {κ ν : Type}

/-! ## What a map is for -/

/-- The entries of a map, in the order `RD_MAP_FOREACH` visits them. -/
def Map.entries (m : Map κ ν) : List (κ × ν) := m.iter.map fun e => (e.key, e.value)

section Entries

variable [DecidableEq κ]

/-- A key set in the entries: a new key goes first, a key already there keeps its place and
gets the value. -/
def entriesSet (k : κ) (v : ν) (l : List (κ × ν)) : List (κ × ν) :=
  if k ∈ l.map Prod.fst then l.map (fun e => if e.1 = k then (k, v) else e) else (k, v) :: l

/-- A key deleted from the entries. -/
def entriesDelete (k : κ) (l : List (κ × ν)) : List (κ × ν) := l.filter fun e => e.1 ≠ k

/-- Keys new to the entries, set one after the other, go first, the last one set first. -/
theorem foldl_entriesSet_of_new : ∀ {ps l : List (κ × ν)}, ((ps ++ l).map Prod.fst).Nodup →
    ps.foldl (fun l p => entriesSet p.1 p.2 l) l = ps.reverse ++ l
  | [], _, _ => rfl
  | p :: ps, l, hnd => by
    have hnew : p.1 ∉ l.map Prod.fst := fun hp => by
      rw [List.cons_append, List.map_cons, List.nodup_cons, List.map_append] at hnd
      exact hnd.1 (List.mem_append_right _ hp)
    -- the rest goes on from `p :: l`, which has the same keys as before
    have hnd' : ((ps ++ p :: l).map Prod.fst).Nodup :=
      (List.perm_middle.map Prod.fst).nodup_iff.2 hnd
    rw [List.foldl_cons, entriesSet, if_neg hnew, foldl_entriesSet_of_new hnd',
      List.reverse_cons, List.append_assoc, List.singleton_append]

end Entries

/-! ## The invariant -/

/-- The bucket of an element among `n` buckets: `hash % rmap_buckets.cnt`. -/
def mapBucketOf (n : ℕ) (e : MapElem κ ν) : ℕ := e.hash.toNat % n

/-- The map is in shape for the hash function `hash`. -/
structure Map.WF (hash : κ → UInt32) (m : Map κ ν) : Prop where
  buckets_pos : 0 < m.buckets.length
  buckets_eq : m.buckets = m.iter.bucketsOf (mapBucketOf m.buckets.length) m.buckets.length
  hash_eq : ∀ e ∈ m.iter, e.hash = hash e.key
  nodup : (m.iter.map MapElem.key).Nodup
  cnt_eq : m.cnt = m.iter.length

section Spec

variable (cmp : κ → κ → ℤ) (hash : κ → UInt32)

/-- Equal hashes give `r = 0`, and different ones a nonzero `r`. -/
theorem mapElemCmp_hash_ne {μ : Type} {a : MapElem κ μ} {b : MapElem κ ν}
    (h : a.hash ≠ b.hash) : (a.hash - b.hash).toBitVec.toInt ≠ 0 := by
  intro h0
  apply h
  have hbv : (a.hash - b.hash).toBitVec = 0#32 := by
    rw [← BitVec.toInt_inj]
    simpa using h0
  rw [UInt32.toBitVec_sub] at hbv
  exact UInt32.toBitVec_inj.1 (sub_eq_zero.1 hbv)

variable (hcmp : ∀ a b, cmp a b = 0 ↔ a = b)
include hcmp

/-- Between elements that carry their keys' hashes, `rd_map_elem_cmp` is `0` exactly for
equal keys. -/
theorem mapElemCmp_eq_zero_iff {μ : Type} {a : MapElem κ μ} {b : MapElem κ ν}
    (ha : a.hash = hash a.key) (hb : b.hash = hash b.key) :
    mapElemCmp cmp a b = 0 ↔ a.key = b.key := by
  unfold mapElemCmp
  by_cases hh : a.hash = b.hash
  · rw [hh]
    simp [hcmp]
  · have hr := mapElemCmp_hash_ne hh
    rw [if_pos hr]
    simp only [hr, false_iff]
    intro hk
    exact hh (by rw [ha, hb, hk])

/-- The test `rd_map_find` runs for a key, on the elements of a list that carry their keys'
hashes, is true exactly at the key. -/
theorem mapElemCmp_skel {l : List (MapElem κ ν)} (hl : ∀ e ∈ l, e.hash = hash e.key) (k : κ) :
    ∀ e ∈ l, decide (mapElemCmp cmp (⟨hash k, k, ()⟩ : MapElem κ Unit) e = 0) = true ↔
      e.key = k := fun e he => by
  rw [decide_eq_true_iff, mapElemCmp_eq_zero_iff cmp hash hcmp rfl (hl e he), eq_comm]

end Spec

namespace Map.WF

variable {cmp : κ → κ → ℤ} {hash : κ → UInt32} {m : Map κ ν}

section Buckets

variable (hm : m.WF hash)
include hm

theorem getElem_buckets {i : ℕ} (hi : i < m.buckets.length) :
    m.buckets[i] = m.iter.filter fun e => mapBucketOf m.buckets.length e = i := by
  have h := List.getElem_bucketsOf (mapBucketOf m.buckets.length) m.buckets.length m.iter
    (i := i) (by rw [List.length_bucketsOf]; exact hi)
  rw [← h]
  exact List.getElem_of_eq hm.buckets_eq hi

theorem getD_buckets {i : ℕ} (hi : i < m.buckets.length) :
    m.buckets.getD i [] = m.iter.filter fun e => mapBucketOf m.buckets.length e = i := by
  rw [List.getD_eq_getElem?_getD, List.getElem?_eq_getElem hi, Option.getD_some,
    hm.getElem_buckets hi]

/-- The elements of a bucket are elements of the map. -/
theorem mem_of_mem_bucket {i : ℕ} (hi : i < m.buckets.length) {e : MapElem κ ν}
    (he : e ∈ m.buckets[i]) : e ∈ m.iter := by
  rw [hm.getElem_buckets hi] at he
  exact List.mem_of_mem_filter he

theorem nodup_bucket {i : ℕ} (hi : i < m.buckets.length) : (m.buckets[i].map MapElem.key).Nodup := by
  rw [hm.getElem_buckets hi]
  exact hm.nodup.sublist (List.filter_sublist.map _)

/-- An element with key `k` is in the bucket of `k`'s hash. -/
theorem bucketOf_eq {e : MapElem κ ν} (he : e ∈ m.iter) {k : κ} (hk : e.key = k) :
    mapBucketOf m.buckets.length e = (hash k).toNat % m.buckets.length := by
  rw [mapBucketOf, hm.hash_eq e he, hk]

/-- Changing the elements with key `k` changes the bucket of `k`'s hash only. -/
theorem modify_bucket_eq_map (k : κ) {F G : List (MapElem κ ν) → List (MapElem κ ν)}
    (hF : F (m.buckets.getD ((hash k).toNat % m.buckets.length) []) =
      G (m.buckets.getD ((hash k).toNat % m.buckets.length) []))
    (hG : ∀ l, (∀ e ∈ l, e.key ≠ k) → G l = l) :
    m.buckets.modify ((hash k).toNat % m.buckets.length) F = m.buckets.map G := by
  apply List.ext_getElem
  · simp
  · intro i h₁ h₂
    rw [List.getElem_modify, List.getElem_map]
    split
    · next hi =>
      subst hi
      rw [List.getD_eq_getElem?_getD, List.getElem?_eq_getElem (by simpa using h₂),
        Option.getD_some] at hF
      exact hF
    · -- the other buckets hold no element with key `k`
      next hi =>
      refine (hG _ fun e he hk => hi ?_).symm
      have h₂' : i < m.buckets.length := by simpa using h₂
      have hmem := hm.mem_of_mem_bucket h₂' he
      rw [hm.getElem_buckets h₂', List.mem_filter, decide_eq_true_iff] at he
      rw [← hm.bucketOf_eq hmem hk, he.2]

/-- A new key: `rd_map_insert`. -/
theorem mapInsert {k : κ} (hk : ∀ e ∈ m.iter, e.key ≠ k) (v : ν) :
    let m' := Rdkafka.mapInsert m ((hash k).toNat % m.buckets.length) ⟨hash k, k, ()⟩ v
    m'.WF hash ∧ m'.entries = (k, v) :: m.entries := by
  intro m'
  have hlen : m'.buckets.length = m.buckets.length := List.length_modify _ _ _
  refine ⟨⟨by rw [hlen]; exact hm.buckets_pos, ?_, ?_, ?_, by simp [m', Rdkafka.mapInsert,
    hm.cnt_eq]⟩, rfl⟩
  · -- the new element goes to the head of its bucket
    rw [hlen]
    show m.buckets.modify ((hash k).toNat % m.buckets.length) (⟨hash k, k, v⟩ :: ·) =
      List.bucketsOf (mapBucketOf m.buckets.length) m.buckets.length (⟨hash k, k, v⟩ :: m.iter)
    rw [List.bucketsOf_cons, ← hm.buckets_eq]
    rfl
  · intro e he
    rcases List.mem_cons.1 he with rfl | he
    · rfl
    · exact hm.hash_eq e he
  · show ((⟨hash k, k, v⟩ : MapElem κ ν) :: m.iter).map MapElem.key |>.Nodup
    rw [List.map_cons, List.nodup_cons]
    exact ⟨fun hmem => by
      obtain ⟨e, he, hek⟩ := List.mem_map.1 hmem
      exact hk e he hek, hm.nodup⟩

end Buckets

variable [DecidableEq κ] (hcmp : ∀ a b, cmp a b = 0 ↔ a = b)
include hcmp

/-- **Find.**  `rd_map_find` finds the key's element by its bucket alone. -/
theorem mapFind_eq (hm : m.WF hash) (k : κ) :
    mapFind cmp m ⟨hash k, k, ()⟩ =
      ((hash k).toNat % m.buckets.length, m.iter.find? fun e => e.key = k) := by
  have hbkt : (hash k).toNat % m.buckets.length < m.buckets.length :=
    Nat.mod_lt _ hm.buckets_pos
  rw [mapFind]
  dsimp only
  rw [hm.getD_buckets hbkt, List.find?_filter]
  congr 1
  refine List.find?_eq_of_key MapElem.key fun e he => ?_
  rw [decide_eq_true_iff, mapElemCmp_skel cmp hash hcmp hm.hash_eq k e he, decide_eq_true_iff]
  exact ⟨fun h => h.2, fun h => ⟨hm.bucketOf_eq he h, h⟩⟩

/-- **Get.**  `rd_map_get` looks the key up in the entries. -/
theorem mapGet_eq (hm : m.WF hash) (k : κ) : mapGet cmp hash m k = m.entries.lookup k := by
  rw [mapGet, hm.mapFind_eq hcmp, Map.entries, List.map_find?_eq_lookup]

/-- The value of the key's element replaced, in the map and in every bucket. -/
theorem mapSet_found (hm : m.WF hash) {k : κ} (v : ν) :
    let setValue := fun e : MapElem κ ν => if e.key = k then { e with value := v } else e
    mapModifyFound cmp (⟨hash k, k, ()⟩ : MapElem κ Unit) (fun e => { e with value := v })
        m.iter = m.iter.map setValue ∧
      m.buckets.modify ((hash k).toNat % m.buckets.length)
          (mapModifyFound cmp (⟨hash k, k, ()⟩ : MapElem κ Unit) fun e => { e with value := v }) =
        m.buckets.map (List.map setValue) := by
  intro setValue
  have hbkt : (hash k).toNat % m.buckets.length < m.buckets.length :=
    Nat.mod_lt _ hm.buckets_pos
  refine ⟨List.modify_findIdx_eq_map_of_key MapElem.key _ hm.nodup
    (mapElemCmp_skel cmp hash hcmp hm.hash_eq k), hm.modify_bucket_eq_map k ?_ ?_⟩
  · -- in the key's bucket, the first element with the key is the only one
    rw [List.getD_eq_getElem?_getD, List.getElem?_eq_getElem hbkt, Option.getD_some]
    exact List.modify_findIdx_eq_map_of_key MapElem.key _ (hm.nodup_bucket hbkt)
      (mapElemCmp_skel cmp hash hcmp (fun e he => hm.hash_eq e (hm.mem_of_mem_bucket hbkt he)) k)
  · intro l hl
    rw [List.map_congr_left fun e he => if_neg (hl e he), List.map_id']

/-- **Set.**  `rd_map_set` keeps the invariant and sets the key in the entries. -/
theorem mapSet (hm : m.WF hash) (k : κ) (v : ν) :
    (Rdkafka.mapSet cmp hash m k v).WF hash ∧
      (Rdkafka.mapSet cmp hash m k v).entries = entriesSet k v m.entries := by
  have hkeys : m.entries.map Prod.fst = m.iter.map MapElem.key := by
    rw [Map.entries, List.map_map]
    rfl
  unfold Rdkafka.mapSet
  dsimp only
  rw [hm.mapFind_eq hcmp]
  cases hfind : m.iter.find? fun e => e.key = k with
  | none =>
    -- a new key
    have hk : ∀ e ∈ m.iter, e.key ≠ k := by simpa using List.find?_eq_none.1 hfind
    obtain ⟨hwf, hent⟩ := hm.mapInsert hk v
    refine ⟨hwf, ?_⟩
    rw [hent, entriesSet, if_neg]
    rw [hkeys]
    intro hmem
    obtain ⟨e, he, hek⟩ := List.mem_map.1 hmem
    exact hk e he hek
  | some e₀ =>
    -- the key's element gets the value
    have he₀ := List.mem_of_find?_eq_some hfind
    have hk₀ : e₀.key = k := by simpa using List.find?_some hfind
    obtain ⟨hiter, hbuckets⟩ := hm.mapSet_found hcmp (k := k) v
    dsimp only
    rw [hiter, hbuckets]
    have hlen : (m.buckets.map (List.map fun e : MapElem κ ν =>
        if e.key = k then { e with value := v } else e)).length = m.buckets.length :=
      List.length_map _
    refine ⟨⟨by rw [hlen]; exact hm.buckets_pos, ?_, ?_, ?_, ?_⟩, ?_⟩
    · rw [hlen, List.bucketsOf_map _ _ _ (fun e => by split <;> rfl),
        ← hm.buckets_eq]
    · intro e he
      obtain ⟨e', he', rfl⟩ := List.mem_map.1 he
      split <;> exact hm.hash_eq e' he'
    · rw [List.map_map]
      convert hm.nodup using 2
      funext e
      dsimp only [Function.comp_apply]
      split <;> rfl
    · rw [List.length_map]
      exact hm.cnt_eq
    · rw [entriesSet, if_pos (hkeys ▸ List.mem_map.2 ⟨e₀, he₀, hk₀⟩), Map.entries, Map.entries,
        List.map_map, List.map_map]
      refine List.map_congr_left fun e _ => ?_
      dsimp only [Function.comp_apply]
      by_cases he : e.key = k <;> simp [he]

/-- `rd_map_elem_destroy` on an element of the map takes out the element with its key. -/
theorem mapElemDestroy (hm : m.WF hash) {e₀ : MapElem κ ν} (he₀ : e₀ ∈ m.iter) :
    ∃ m', Rdkafka.mapElemDestroy cmp m e₀ = some m' ∧ m'.WF hash ∧
      m'.iter = m.iter.filter (fun e => e.key ≠ e₀.key) ∧ m'.cnt = m.cnt - 1 := by
  have hpos : m.cnt ≠ 0 := by
    rw [hm.cnt_eq]
    exact List.length_pos_of_mem he₀ |>.ne'
  -- the test `rd_map_elem_destroy` unlinks by is true exactly at `e₀`'s key
  have htest : ∀ l : List (MapElem κ ν), (∀ e ∈ l, e.hash = hash e.key) →
      ∀ e ∈ l, decide (mapElemCmp cmp e₀ e = 0) = true ↔ e.key = e₀.key :=
    fun l hl e he => by
      rw [decide_eq_true_iff, mapElemCmp_eq_zero_iff cmp hash hcmp (hm.hash_eq e₀ he₀)
        (hl e he), eq_comm]
  have hiter : m.iter.eraseP (fun e => mapElemCmp cmp e₀ e = 0) =
      m.iter.filter (fun e => e.key ≠ e₀.key) :=
    List.eraseP_eq_filter_of_key MapElem.key hm.nodup (htest _ hm.hash_eq)
  have hidx : e₀.hash.toNat % m.buckets.length = (hash e₀.key).toNat % m.buckets.length := by
    rw [hm.hash_eq e₀ he₀]
  have hbkt : (hash e₀.key).toNat % m.buckets.length < m.buckets.length :=
    Nat.mod_lt _ hm.buckets_pos
  have hbuckets : m.buckets.modify (e₀.hash.toNat % m.buckets.length)
      (List.eraseP fun e => mapElemCmp cmp e₀ e = 0) =
      m.buckets.map (List.filter fun e => e.key ≠ e₀.key) := by
    rw [hidx]
    refine hm.modify_bucket_eq_map e₀.key ?_ fun l hl => List.filter_eq_self.2 fun e he => ?_
    · rw [List.getD_eq_getElem?_getD, List.getElem?_eq_getElem hbkt, Option.getD_some]
      exact List.eraseP_eq_filter_of_key MapElem.key (hm.nodup_bucket hbkt)
        (htest _ fun e he => hm.hash_eq e (hm.mem_of_mem_bucket hbkt he))
    · simpa using hl e he
  refine ⟨_, if_neg hpos, ⟨by simpa using hm.buckets_pos, ?_, ?_, ?_, ?_⟩, hiter, rfl⟩
  · dsimp only
    rw [List.length_modify, hiter, hbuckets, List.bucketsOf_filter, ← hm.buckets_eq]
  · intro e he
    rw [hiter] at he
    exact hm.hash_eq e (List.mem_of_mem_filter he)
  · rw [hiter]
    exact hm.nodup.sublist (List.filter_sublist.map _)
  · dsimp only
    rw [List.length_eraseP_of_mem he₀ (by simp [htest _ hm.hash_eq e₀ he₀]), hm.cnt_eq]

/-- **Delete.**  `rd_map_delete` keeps the invariant and deletes the key from the entries. -/
theorem mapDelete (hm : m.WF hash) (k : κ) :
    ∃ m', Rdkafka.mapDelete cmp hash m k = some m' ∧ m'.WF hash ∧
      m'.entries = entriesDelete k m.entries := by
  unfold Rdkafka.mapDelete
  rw [hm.mapFind_eq hcmp]
  dsimp only
  cases hfind : m.iter.find? fun e => e.key = k with
  | none =>
    -- no element has the key
    have hk : ∀ e ∈ m.iter, e.key ≠ k := by simpa using List.find?_eq_none.1 hfind
    refine ⟨m, rfl, hm, ?_⟩
    rw [entriesDelete, Map.entries, List.filter_map]
    congr 1
    exact (List.filter_eq_self.2 fun e he => by simpa using hk e he).symm
  | some e₀ =>
    have he₀ := List.mem_of_find?_eq_some hfind
    have hk₀ : e₀.key = k := by simpa using List.find?_some hfind
    obtain ⟨m', hd, hwf, hiter, -⟩ := hm.mapElemDestroy hcmp he₀
    refine ⟨m', hd, hwf, ?_⟩
    rw [Map.entries, hiter, hk₀, entriesDelete, Map.entries, List.filter_map]
    rfl

/-- **Clear.**  The loop of `rd_map_clear` destroys every element. -/
theorem mapClearLoop (fuel : ℕ) :
    ∀ {m : Map κ ν}, m.WF hash → m.iter.length ≤ fuel →
      ∃ m', Rdkafka.mapClearLoop cmp fuel m = some m' ∧ m'.WF hash ∧ m'.iter = [] := by
  induction fuel with
  | zero =>
    intro m hm hlen
    have hnil : m.iter = [] := List.eq_nil_of_length_eq_zero (Nat.le_zero.1 hlen)
    exact ⟨m, by rw [Rdkafka.mapClearLoop, hnil]; rfl, hm, hnil⟩
  | succ fuel ih =>
    intro m hm hlen
    rw [Rdkafka.mapClearLoop]
    cases hit : m.iter with
    | nil => exact ⟨m, rfl, hm, hit⟩
    | cons e rest =>
      -- the first element goes, and with it one element of the count
      obtain ⟨m', hd, hwf, -, hcnt⟩ := hm.mapElemDestroy hcmp (show e ∈ m.iter by simp [hit])
      have hlen' : m'.iter.length ≤ fuel := by
        rw [← hwf.cnt_eq, hcnt, hm.cnt_eq]
        omega
      obtain ⟨m'', hrun, hwf', hnil⟩ := ih hwf hlen'
      exact ⟨m'', by dsimp only; rw [hd, Option.bind_some, hrun], hwf', hnil⟩

theorem mapClear (hm : m.WF hash) :
    ∃ m', Rdkafka.mapClear cmp m = some m' ∧ m'.WF hash ∧ m'.entries = [] := by
  obtain ⟨m', hrun, hwf, hnil⟩ := mapClearLoop hcmp m.iter.length hm le_rfl
  exact ⟨m', hrun, hwf, by rw [Map.entries, hnil, List.map_nil]⟩

/-- Setting elements one after the other sets their entries one after the other. -/
theorem foldl_mapSet (hm : m.WF hash) (es : List (MapElem κ ν)) :
    (es.foldl (fun d e => Rdkafka.mapSet cmp hash d e.key e.value) m).WF hash ∧
      (es.foldl (fun d e => Rdkafka.mapSet cmp hash d e.key e.value) m).entries =
        es.foldl (fun l e => entriesSet e.key e.value l) m.entries := by
  induction es generalizing m with
  | nil => exact ⟨hm, rfl⟩
  | cons e es ih =>
    obtain ⟨hwf, hent⟩ := hm.mapSet hcmp e.key e.value
    rw [List.foldl_cons, List.foldl_cons, ← hent]
    exact ih hwf

end Map.WF

/-! ## A new map -/

theorem mapAllocBucketsLoop_pos (depth : ℤ) :
    ∀ (cnt : ℤ) (sizes : List ℤ), 0 < cnt → (∀ s ∈ sizes, s ≠ -1 → 0 < s) →
      0 < mapAllocBucketsLoop depth cnt sizes
  | _, [], hcnt, _ => hcnt
  | cnt, size :: sizes, hcnt, hsizes => by
    rw [mapAllocBucketsLoop]
    split
    · next h =>
      exact mapAllocBucketsLoop_pos depth size sizes (hsizes size List.mem_cons_self h.1)
        fun s hs => hsizes s (List.mem_cons_of_mem size hs)
    · exact hcnt

/-- The assertion of `rd_map_alloc_buckets` holds: there is always a bucket. -/
theorem mapAllocBuckets_pos (expectedCnt : ℕ) :
    ∃ cnt, mapAllocBuckets expectedCnt = some cnt ∧ 0 < cnt := by
  have hsizes : ∀ s ∈ mapBucketSizes.drop 1, s ≠ -1 → 0 < s := by decide
  have hpos : 0 < (if expectedCnt = 0 then (199 : ℤ) else mapAllocBucketsLoop
      ((BitVec.ofNat 32 expectedCnt).toInt.tdiv 15) 5 (mapBucketSizes.drop 1)) := by
    split
    · decide
    · exact mapAllocBucketsLoop_pos _ 5 _ (by decide) hsizes
  exact ⟨_, by rw [mapAllocBuckets]; exact if_pos hpos, by omega⟩

/-- `rd_map_init` makes an empty map in shape. -/
theorem mapInit_wf (hash : κ → UInt32) (expectedCnt : ℕ) :
    ∃ m : Map κ ν, mapInit expectedCnt = some m ∧ m.WF hash ∧ m.entries = [] := by
  obtain ⟨cnt, halloc, hpos⟩ := mapAllocBuckets_pos expectedCnt
  refine ⟨_, by rw [mapInit, halloc]; rfl, ⟨by simpa using hpos, ?_, by simp, by simp, rfl⟩, rfl⟩
  simp

/-! ## Any sequence of calls -/

/-- A call on a map. -/
inductive MapOp (κ ν : Type) where
  /-- `rd_map_set(rmap, key, value)`. -/
  | set (key : κ) (value : ν)
  /-- `rd_map_get(rmap, key)`. -/
  | get (key : κ)
  /-- `rd_map_delete(rmap, key)`. -/
  | delete (key : κ)
  /-- `rd_map_clear(rmap)`. -/
  | clear
  deriving DecidableEq, Repr

section Run

variable (cmp : κ → κ → ℤ) (hash : κ → UInt32)

/-- A call on the map model, and what it returns: the value `rd_map_get` finds, and nothing
for the others. -/
def mapCall (m : Map κ ν) : MapOp κ ν → Option (Option ν × Map κ ν)
  | .set key value => some (none, Rdkafka.mapSet cmp hash m key value)
  | .get key => some (mapGet cmp hash m key, m)
  | .delete key => (Rdkafka.mapDelete cmp hash m key).map fun m' => (none, m')
  | .clear => (Rdkafka.mapClear cmp m).map fun m' => (none, m')

/-- The calls made one after the other on the map model. -/
def mapRun (m : Map κ ν) (ops : List (MapOp κ ν)) : Option (List (Option ν) × Map κ ν) :=
  runCalls (mapCall cmp hash) m ops

variable [DecidableEq κ]

/-- What each call is for, on the entries. -/
def entriesCall (l : List (κ × ν)) : MapOp κ ν → Option (Option ν × List (κ × ν))
  | .set key value => some (none, entriesSet key value l)
  | .get key => some (l.lookup key, l)
  | .delete key => some (none, entriesDelete key l)
  | .clear => some (none, [])

variable (hcmp : ∀ a b, cmp a b = 0 ↔ a = b)
include hcmp

/-- **Step.**  The map model makes every call the entries make, returns the same, and stands
for the entries after it. -/
theorem mapCall_simulates :
    IsSimulation (mapCall (ν := ν) cmp hash) entriesCall fun m l => m.WF hash ∧ m.entries = l := by
  rintro m l op r l' ⟨hm, rfl⟩ hcall
  cases op with
  | set key value =>
    cases hcall
    obtain ⟨hwf, hent⟩ := hm.mapSet hcmp key value
    exact ⟨_, rfl, hwf, hent⟩
  | get key =>
    cases hcall
    exact ⟨m, by rw [mapCall, hm.mapGet_eq hcmp], hm, rfl⟩
  | delete key =>
    cases hcall
    obtain ⟨m', hd, hwf, hent⟩ := hm.mapDelete hcmp key
    exact ⟨m', by rw [mapCall, hd, Option.map_some], hwf, hent⟩
  | clear =>
    cases hcall
    obtain ⟨m', hc, hwf, hent⟩ := hm.mapClear hcmp
    exact ⟨m', by rw [mapCall, hc, Option.map_some], hwf, hent⟩

/-- **`rd_map_t` is a list of entries.**  From `rd_map_init`, every sequence of
`rd_map_set`, `rd_map_get`, `rd_map_delete` and `rd_map_clear` calls returns what the same
calls on a list of entries return, and leaves a well-formed map, each element in the bucket of
its hash in iteration order, whose entries are those, with distinct keys, in the order
`RD_MAP_FOREACH` visits them, and as many as `rd_map_cnt` counts. -/
theorem mapRun_refines (expectedCnt : ℕ) (ops : List (MapOp κ ν)) {rs : List (Option ν)}
    {l : List (κ × ν)} (h : runCalls entriesCall [] ops = some (rs, l)) :
    ∃ m₀ m, mapInit expectedCnt = some m₀ ∧ mapRun cmp hash m₀ ops = some (rs, m) ∧
      m.WF hash ∧ m.entries = l ∧ m.cnt = l.length ∧ (l.map Prod.fst).Nodup := by
  obtain ⟨m₀, hinit, hwf₀, hent₀⟩ := mapInit_wf (ν := ν) hash expectedCnt
  obtain ⟨m, hrun, hwf, rfl⟩ := (mapCall_simulates cmp hash hcmp).run ops ⟨hwf₀, hent₀⟩ h
  refine ⟨m₀, m, hinit, hrun, hwf, rfl, ?_, ?_⟩
  · rw [hwf.cnt_eq, Map.entries, List.length_map]
  · rw [Map.entries, List.map_map]
    exact hwf.nodup

/-- **`rd_map_copy` reverses the order of iteration.**  Copied into an empty map, the
entries of a map come out in the other order, each key with the same value. -/
theorem mapCopy_entries_reverse {dst src : Map κ ν} (hdst : dst.WF hash) (hempty : dst.iter = [])
    (hsrc : src.WF hash) :
    (mapCopy cmp hash dst src).entries = src.entries.reverse ∧
      ∀ k, mapGet cmp hash (mapCopy cmp hash dst src) k = mapGet cmp hash src k := by
  have hcopy : mapCopy cmp hash dst src =
      src.iter.foldl (fun d e => Rdkafka.mapSet cmp hash d e.key e.value) dst := rfl
  obtain ⟨hwf, hent⟩ := hdst.foldl_mapSet hcmp src.iter
  have hnd : (src.entries.map Prod.fst).Nodup := by
    rw [Map.entries, List.map_map]
    exact hsrc.nodup
  -- setting the elements is setting their key-value pairs
  have hpairs : src.iter.foldl (fun l e => entriesSet e.key e.value l) [] =
      src.entries.foldl (fun l p => entriesSet p.1 p.2 l) [] := by
    rw [Map.entries, List.foldl_map]
  have hrev : (mapCopy cmp hash dst src).entries = src.entries.reverse := by
    rw [hcopy, hent, Map.entries, hempty, List.map_nil, hpairs,
      foldl_entriesSet_of_new (by rw [List.append_nil]; exact hnd), List.append_nil]
  refine ⟨hrev, fun k => ?_⟩
  rw [hcopy, hwf.mapGet_eq hcmp, hsrc.mapGet_eq hcmp, ← hcopy, hrev,
    List.lookup_reverse_of_nodup k hnd]

end Run

/-! ## The unit test's keys -/

/-- `mykey_cmp` of the unit test, `a->k - b->k`, on keys `k ≥ 0`. -/
def mykeyCmp (a b : ℕ) : ℤ := (a : ℤ) - b

/-- `mykey_hash` of the unit test, `(unsigned int)key->k`. -/
def mykeyHash (k : ℕ) : UInt32 := k.toUInt32

theorem mykeyCmp_eq_zero_iff (a b : ℕ) : mykeyCmp a b = 0 ↔ a = b := by
  rw [mykeyCmp]
  omega

/-- The calls of `unittest_typed_map`: two keys set, one looked up, one deleted and looked up
again. -/
theorem mapRun_refines_unittest :
    ∃ m₀ m, mapInit 0 = some m₀ ∧
      mapRun mykeyCmp mykeyHash m₀ [.set 1 10, .set 2 20, .get 2, .delete 1, .get 1] =
        some ([none, none, some 20, none, none], m) ∧
      m.WF mykeyHash ∧ m.entries = [(2, 20)] ∧ m.cnt = [(2, 20)].length ∧ ([(2, 20)].map Prod.fst).Nodup :=
  mapRun_refines mykeyCmp mykeyHash mykeyCmp_eq_zero_iff 0 _ rfl

/-- The copy of `unittest_typed_map`: two keys, copied into an empty map, come out the other
way round. -/
theorem mapCopy_entries_reverse_unittest :
    ∃ dst src : Map ℕ ℕ, mapInit 0 = some dst ∧
      mapRun mykeyCmp mykeyHash dst [.set 1 10, .set 2 20] = some ([none, none], src) ∧
      (mapCopy mykeyCmp mykeyHash dst src).entries = [(1, 10), (2, 20)] ∧
      ∀ k, mapGet mykeyCmp mykeyHash (mapCopy mykeyCmp mykeyHash dst src) k =
        mapGet mykeyCmp mykeyHash src k := by
  obtain ⟨dst, hinit, hwf, hent⟩ := mapInit_wf (ν := ℕ) mykeyHash 0
  obtain ⟨hwf₁, hent₁⟩ := hwf.mapSet mykeyCmp_eq_zero_iff 1 10
  obtain ⟨hwf₂, hent₂⟩ := hwf₁.mapSet mykeyCmp_eq_zero_iff 2 20
  have hnil : dst.iter = [] := List.map_eq_nil_iff.1 hent
  obtain ⟨hrev, hget⟩ := mapCopy_entries_reverse mykeyCmp mykeyHash mykeyCmp_eq_zero_iff hwf hnil hwf₂
  refine ⟨dst, _, hinit, rfl, ?_, hget⟩
  rw [hrev, hent₂, hent₁, hent]
  rfl

end Rdkafka
