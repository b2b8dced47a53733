import Mathlib.Data.List.Find
import Mathlib.Data.List.Nodup

/-!
# Lists with distinct keys, and their buckets

A hash table keeps its elements twice: in a list of all of them and in buckets, each holding
the elements whose hash falls into it.  When the bucket lists keep the order of the list of
all elements, bucket `i` is that list filtered to bucket `i` (`bucketsOf`), and each change
to the list that keeps the hashes is the same change to every bucket: a new element goes to
the head of its own bucket (`bucketsOf_cons`), changing elements in place or dropping some
does so bucket by bucket (`bucketsOf_map`, `bucketsOf_filter`).

On a list whose elements have distinct keys, at most one element has a given key, so acting
on the first element with key `k` is acting on every element with key `k`:
`eraseP_eq_filter_of_key` and `modify_findIdx_eq_map_of_key`, for any test that holds
exactly at that key.  Looking a key up in the list is looking it up in the list of its
key-value pairs (`map_find?_eq_lookup`), in whatever order they come
(`lookup_reverse_of_nodup`).
-/

set_option autoImplicit false

namespace List

variable {α κ : Type*}

/-! ## Buckets -/

/-- The elements of `l` in each of `n` buckets, in the order of `l`; `b a` is the bucket
of `a`. -/
def bucketsOf (b : α → ℕ) (n : ℕ) (l : List α) : List (List α) :=
  (List.range n).map fun i => l.filter fun a => b a = i

section Buckets

variable (b : α → ℕ) (n : ℕ)

@[simp] theorem length_bucketsOf (l : List α) : (bucketsOf b n l).length = n := by
  simp [bucketsOf]

theorem getElem_bucketsOf (l : List α) {i : ℕ} (hi : i < (bucketsOf b n l).length) :
    (bucketsOf b n l)[i] = l.filter fun a => b a = i := by
  simp [bucketsOf]

@[simp] theorem bucketsOf_nil : bucketsOf b n ([] : List α) = List.replicate n [] := by
  simp [bucketsOf, List.map_const']

/-- A new element goes to the head of its bucket. -/
theorem bucketsOf_cons (a : α) (l : List α) :
    bucketsOf b n (a :: l) = (bucketsOf b n l).modify (b a) (a :: ·) := by
  apply List.ext_getElem
  · simp
  · intro i h₁ h₂
    rw [getElem_bucketsOf, List.getElem_modify, getElem_bucketsOf, List.filter_cons]
    by_cases hi : b a = i <;> simp [hi]

/-- Changing elements without moving them between buckets changes each bucket. -/
theorem bucketsOf_map (f : α → α) (hf : ∀ a, b (f a) = b a) (l : List α) :
    bucketsOf b n (l.map f) = (bucketsOf b n l).map (List.map f) := by
  simp only [bucketsOf, List.map_map]
  congr 1
  funext i
  simp only [Function.comp_apply, List.filter_map]
  congr 2
  funext a
  simp [hf]

/-- Dropping elements drops them from each bucket. -/
theorem bucketsOf_filter (p : α → Bool) (l : List α) :
    bucketsOf b n (l.filter p) = (bucketsOf b n l).map (List.filter p) := by
  simp only [bucketsOf, List.map_map]
  congr 1
  funext i
  simp only [Function.comp_apply, List.filter_filter]
  congr 1
  funext a
  rw [Bool.and_comm]

end Buckets

/-! ## Distinct keys -/

section Keys

variable [DecidableEq κ] (key : α → κ)

/-- Erasing the first element that passes a test true exactly at key `k` drops the element
with that key. -/
theorem eraseP_eq_filter_of_key {k : κ} {p : α → Bool} :
    ∀ {l : List α}, (l.map key).Nodup → (∀ a ∈ l, p a = true ↔ key a = k) →
      l.eraseP p = l.filter fun a => key a ≠ k
  | [], _, _ => rfl
  | a :: l, hnd, hp => by
    rw [List.map_cons, List.nodup_cons] at hnd
    have hrest : ∀ c ∈ l, p c = true ↔ key c = k := fun c hc => hp c (List.mem_cons_of_mem a hc)
    by_cases ha : key a = k
    · -- the head has the key, and no other element does
      have hnone : ∀ c ∈ l, key c ≠ k := fun c hc hck =>
        hnd.1 (List.mem_map.2 ⟨c, hc, hck.trans ha.symm⟩)
      rw [List.eraseP_cons_of_pos ((hp a List.mem_cons_self).2 ha), List.filter_cons_of_neg
        (by simpa using ha), List.filter_eq_self.2 (fun c hc => by simpa using hnone c hc)]
    · rw [List.eraseP_cons_of_neg (fun h => ha ((hp a List.mem_cons_self).1 h)),
        List.filter_cons_of_pos (by simpa using ha), eraseP_eq_filter_of_key hnd.2 hrest]

/-- Changing the first element that passes a test true exactly at key `k` changes the
element with that key. -/
theorem modify_findIdx_eq_map_of_key {k : κ} {p : α → Bool} (f : α → α) :
    ∀ {l : List α}, (l.map key).Nodup → (∀ a ∈ l, p a = true ↔ key a = k) →
      l.modify (l.findIdx p) f = l.map fun a => if key a = k then f a else a
  | [], _, _ => rfl
  | a :: l, hnd, hp => by
    rw [List.map_cons, List.nodup_cons] at hnd
    have hrest : ∀ c ∈ l, p c = true ↔ key c = k := fun c hc => hp c (List.mem_cons_of_mem a hc)
    rw [List.findIdx_cons, List.map_cons]
    by_cases ha : key a = k
    · have hnone : ∀ c ∈ l, key c ≠ k := fun c hc hck =>
        hnd.1 (List.mem_map.2 ⟨c, hc, hck.trans ha.symm⟩)
      rw [(hp a List.mem_cons_self).2 ha, cond_true, List.modify_zero_cons, if_pos ha,
        List.map_congr_left (fun c hc => if_neg (hnone c hc)), List.map_id']
    · rw [Bool.eq_false_iff.2 fun h => ha ((hp a List.mem_cons_self).1 h), cond_false,
        List.modify_succ_cons, if_neg ha, modify_findIdx_eq_map_of_key f hnd.2 hrest]

/-- A key's element, looked up by a test true exactly at the key. -/
theorem find?_eq_of_key {k : κ} {p : α → Bool} {l : List α}
    (hp : ∀ a ∈ l, p a = true ↔ key a = k) : l.find? p = l.find? fun a => key a = k :=
  List.find?_congr fun a ha => by rw [Bool.eq_iff_iff, decide_eq_true_iff]; exact hp a ha

/-- Looking a key up among elements is looking it up among their key-value pairs. -/
theorem map_find?_eq_lookup {β : Type*} (g : α → β) (k : κ) :
    ∀ l : List α, (l.find? fun a => key a = k).map g = (l.map fun a => (key a, g a)).lookup k
  | [] => rfl
  | a :: l => by
    rw [List.find?_cons, List.map_cons, List.lookup_cons]
    by_cases ha : key a = k
    · simp [ha]
    · rw [beq_false_of_ne (Ne.symm ha)]
      simp [ha, map_find?_eq_lookup g k l]

/-- Among pairs with distinct keys, the order does not matter to a lookup. -/
theorem lookup_reverse_of_nodup {β : Type*} (k : κ) :
    ∀ {l : List (κ × β)}, (l.map Prod.fst).Nodup → l.reverse.lookup k = l.lookup k
  | [], _ => rfl
  | (a, b) :: l, hnd => by
    rw [List.map_cons, List.nodup_cons] at hnd
    rw [List.reverse_cons, List.lookup_append, lookup_reverse_of_nodup k hnd.2, List.lookup_cons]
    by_cases ha : a = k
    · -- the key is the first one, and no other pair has it
      subst ha
      have hnone : l.lookup a = none := List.lookup_eq_none_iff.2 fun p hp => by
        rw [bne_iff_ne]
        rintro rfl
        exact hnd.1 (List.mem_map.2 ⟨p, hp, rfl⟩)
      simp [hnone]
    · have hne : (k == a) = false := beq_false_of_ne (Ne.symm ha)
      rw [hne, List.lookup_cons, hne]
      simp

end Keys

end List
