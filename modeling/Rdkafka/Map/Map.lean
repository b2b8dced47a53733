import Mathlib.Data.BitVec
import Mathlib.Data.List.Basic

/-!
# The hash map `rd_map_t`

This file models the hash map of `src/rdmap.c`, which the assignors, the admin API and the
mock cluster keep their tables in.  An element sits twice in the map: in the bucket of its
key's hash, and in the list `rmap_iter` of all elements, the newest first, which
`RD_MAP_FOREACH` walks.

The comparator `rmap_cmp` and the hash function `rmap_hash` are parameters of the
operations.  The destructors `rmap_destroy_key` and `rmap_destroy_value` only free memory,
and are left out.  An element is shared by its bucket and the iteration list; the model keeps
a copy in each and changes both where the source changes the one element: the element that
`rd_map_find` found is the first in each list that compares equal to the key.
-/

set_option autoImplicit false

namespace Rdkafka

/-- `rd_map_elem_t`: an element, with the hash of its key. -/
structure MapElem (κ ν : Type) where
  hash : UInt32
  key : κ
  value : ν
  deriving DecidableEq, Repr

/-- `rd_map_t`: the hash buckets `rmap_buckets.p`, as many as `rmap_buckets.cnt`, the element
count `rmap_cnt`, and the iteration list `rmap_iter`. -/
structure Map (κ ν : Type) where
  buckets : List (List (MapElem κ ν))
  cnt : ℕ
  iter : List (MapElem κ ν)
  deriving DecidableEq, Repr

section Ops

variable {κ ν : Type} (cmp : κ → κ → ℤ) (hash : κ → UInt32)

/-- `rd_map_elem_cmp(a, b, rmap)`: `int r = a->hash - b->hash`, and the comparator on the
keys when the hashes are equal. -/
def mapElemCmp {μ : Type} (a : MapElem κ μ) (b : MapElem κ ν) : ℤ :=
  let r := (a.hash - b.hash).toBitVec.toInt
  if r ≠ 0 then r else cmp a.key b.key

/-- `rd_map_find(rmap, &bkt, skel)`: the bucket of `skel`'s hash, and the first element of
the bucket that compares equal to `skel`. -/
def mapFind (m : Map κ ν) (skel : MapElem κ Unit) : ℕ × Option (MapElem κ ν) :=
  let bkt := skel.hash.toNat % m.buckets.length
  (bkt, (m.buckets.getD bkt []).find? fun elem => mapElemCmp cmp skel elem = 0)

/-- `rd_map_insert(rmap, bkt, skel)`: a new element for `skel`'s key, at the head of bucket
`bkt` and of the iteration list.  It holds `value`, which `rd_map_set` stores in it next. -/
def mapInsert (m : Map κ ν) (bkt : ℕ) (skel : MapElem κ Unit) (value : ν) : Map κ ν :=
  let elem : MapElem κ ν := ⟨skel.hash, skel.key, value⟩
  { buckets := m.buckets.modify bkt (elem :: ·), cnt := m.cnt + 1, iter := elem :: m.iter }

/-- The element of `l` that `rd_map_find` found for `skel`, changed by `f`. -/
def mapModifyFound {μ : Type} (skel : MapElem κ μ) (f : MapElem κ ν → MapElem κ ν)
    (l : List (MapElem κ ν)) : List (MapElem κ ν) :=
  l.modify (l.findIdx fun elem => mapElemCmp cmp skel elem = 0) f

/-- `rd_map_set(rmap, key, value)`: a new element for a key not in the map, or the value of
its element replaced. -/
def mapSet (m : Map κ ν) (key : κ) (value : ν) : Map κ ν :=
  let skel : MapElem κ Unit := ⟨hash key, key, ()⟩
  match mapFind cmp m skel with
  | (bkt, none) => mapInsert m bkt skel value
  | (bkt, some _) =>
    -- `elem->value = value`, on the element in its bucket and in the iteration list
    let setValue := fun elem : MapElem κ ν => { elem with value := value }
    { m with
      buckets := m.buckets.modify bkt (mapModifyFound cmp skel setValue)
      iter := mapModifyFound cmp skel setValue m.iter }

/-- `rd_map_get(rmap, key)`: the value of the key's element; `none` is `NULL`. -/
def mapGet (m : Map κ ν) (key : κ) : Option ν :=
  (mapFind cmp m ⟨hash key, key, ()⟩).2.map MapElem.value

/-- `rd_map_elem_destroy(rmap, elem)`: the element taken out of its bucket and of the
iteration list; `none` where `rd_assert(rmap->rmap_cnt > 0)` fails. -/
def mapElemDestroy (m : Map κ ν) (elem : MapElem κ ν) : Option (Map κ ν) :=
  if m.cnt = 0 then none
  else
    some { buckets := m.buckets.modify (elem.hash.toNat % m.buckets.length)
             (List.eraseP fun e => mapElemCmp cmp elem e = 0)
           cnt := m.cnt - 1
           iter := m.iter.eraseP fun e => mapElemCmp cmp elem e = 0 }

/-- `rd_map_delete(rmap, key)`. -/
def mapDelete (m : Map κ ν) (key : κ) : Option (Map κ ν) :=
  match (mapFind cmp m ⟨hash key, key, ()⟩).2 with
  | none => some m
  | some elem => mapElemDestroy cmp m elem

/-- The loop of `rd_map_clear`: while the iteration list has a first element, destroy it.
`fuel` bounds the turns. -/
def mapClearLoop : ℕ → Map κ ν → Option (Map κ ν)
  | 0, m => if m.iter.isEmpty then some m else none
  | fuel + 1, m =>
    match m.iter with
    | [] => some m
    | elem :: _ => (mapElemDestroy cmp m elem).bind (mapClearLoop fuel)

/-- `rd_map_clear(rmap)`. -/
def mapClear (m : Map κ ν) : Option (Map κ ν) := mapClearLoop cmp m.iter.length m

/-- `rd_map_copy(dst, src, NULL, NULL)`: every element of `src`, in the order
`RD_MAP_FOREACH_ELEM` visits them, set in `dst`. -/
def mapCopy (dst src : Map κ ν) : Map κ ν :=
  src.iter.foldl (fun d elem => mapSet cmp hash d elem.key elem.value) dst

end Ops

/-! ## Creating a map -/

/-- `bucket_sizes` of `rd_map_alloc_buckets`, with its end mark `-1`. -/
def mapBucketSizes : List ℤ :=
  [5, 11, 23, 47, 97, 199, 409, 823, 1741, 3469, 6949, 14033, 28411, 57557, 116731, 236897,
    -1]

/-- The loop of `rd_map_alloc_buckets` over `bucket_sizes[1..]`: the next size is taken while
it is not the end mark and the expected depth is above it. -/
def mapAllocBucketsLoop (depth : ℤ) : ℤ → List ℤ → ℤ
  | cnt, [] => cnt
  | cnt, size :: sizes =>
    if size ≠ -1 ∧ depth > size then mapAllocBucketsLoop depth size sizes else cnt

/-- `rd_map_alloc_buckets(expected_cnt)`: the number of buckets; `none` where
`rd_assert(buckets.cnt > 0)` fails. -/
def mapAllocBuckets (expectedCnt : ℕ) : Option ℕ :=
  let cnt : ℤ :=
    if expectedCnt = 0 then 199
    else
      -- `(int)expected_cnt / max_depth`, with `max_depth = 15`
      mapAllocBucketsLoop ((BitVec.ofNat 32 expectedCnt).toInt.tdiv 15) 5 (mapBucketSizes.drop 1)
  if 0 < cnt then some cnt.toNat else none

/-- `rd_map_init(rmap, expected_cnt, cmp, hash, destroy_key, destroy_value)`: empty buckets
and no element. -/
def mapInit {κ ν : Type} (expectedCnt : ℕ) : Option (Map κ ν) :=
  (mapAllocBuckets expectedCnt).map fun cnt => ⟨List.replicate cnt [], 0, []⟩

end Rdkafka
