import Rdkafka.Lib.KeySorted

/-!
# Key-sorted lists as finite maps

A key-sorted list holds at most one element for each key, so it is a finite map from keys to
elements.  This file gives that map its three operations: `keyUpsert` puts an element in,
replacing the element with its key if there is one; `keyErase` takes out the element with
a key; `keyFind` looks a key up.  On a key-sorted list they keep the list key-sorted and
behave as a map does (`keyFind_keyUpsert`, `keyFind_keyErase`).

The `append` lemmas say how each operation acts on a list cut at an element whose key it
is compared with, which is how a search tree that stores the list in order uses them.
-/

set_option autoImplicit false

namespace List

variable {α κ : Type*} [LinearOrder κ] (key : α → κ)

/-- Put `a` in place of the element with its key, or before the first element with a larger
key. -/
def keyUpsert (a : α) : List α → List α
  | [] => [a]
  | b :: l =>
    if key a < key b then a :: b :: l
    else if key a = key b then a :: l
    else b :: keyUpsert a l

/-- Take out the first element with key `k`. -/
def keyErase (k : κ) : List α → List α
  | [] => []
  | b :: l => if key b = k then l else b :: keyErase k l

/-- The first element with key `k`. -/
def keyFind (k : κ) (l : List α) : Option α := l.find? fun b => key b = k

variable {key}

/-! ## Cutting at an element -/

theorem keyUpsert_append_cons_of_lt {a b : α} (h : key a < key b) :
    ∀ (l r : List α), keyUpsert key a (l ++ b :: r) = keyUpsert key a l ++ b :: r
  | [], r => by simp [keyUpsert, h]
  | c :: l, r => by
    simp only [cons_append, keyUpsert]
    split_ifs <;> simp [keyUpsert_append_cons_of_lt h l r]

theorem keyUpsert_append_of_lt {a : α} :
    ∀ {l : List α}, (∀ c ∈ l, key c < key a) → ∀ r, keyUpsert key a (l ++ r) = l ++ keyUpsert key a r
  | [], _, _ => rfl
  | c :: l, h, r => by
    have hc := h c mem_cons_self
    rw [cons_append, keyUpsert, if_neg (lt_asymm hc), if_neg (ne_of_gt hc),
      keyUpsert_append_of_lt (fun d hd => h d (mem_cons_of_mem c hd)) r, cons_append]

theorem keyUpsert_cons_of_eq {a b : α} (h : key a = key b) (r : List α) :
    keyUpsert key a (b :: r) = a :: r := by
  rw [keyUpsert, if_neg (h ▸ lt_irrefl _), if_pos h]

theorem keyUpsert_cons_of_gt {a b : α} (h : key b < key a) (r : List α) :
    keyUpsert key a (b :: r) = b :: keyUpsert key a r := by
  rw [keyUpsert, if_neg (lt_asymm h), if_neg (ne_of_gt h)]

theorem keyErase_of_forall_ne {k : κ} : ∀ {l : List α}, (∀ c ∈ l, key c ≠ k) → keyErase key k l = l
  | [], _ => rfl
  | c :: l, h => by
    rw [keyErase, if_neg (h c mem_cons_self),
      keyErase_of_forall_ne fun d hd => h d (mem_cons_of_mem c hd)]

theorem keyErase_append_of_forall_ne {k : κ} :
    ∀ (l : List α) {r : List α}, (∀ c ∈ r, key c ≠ k) → keyErase key k (l ++ r) = keyErase key k l ++ r
  | [], _, h => by rw [nil_append, keyErase_of_forall_ne h]; rfl
  | c :: l, r, h => by
    simp only [cons_append, keyErase]
    split_ifs <;> simp [keyErase_append_of_forall_ne l h]

theorem keyErase_append_of_lt {k : κ} :
    ∀ {l : List α}, (∀ c ∈ l, key c < k) → ∀ r, keyErase key k (l ++ r) = l ++ keyErase key k r
  | [], _, _ => rfl
  | c :: l, h, r => by
    rw [cons_append, keyErase, if_neg (ne_of_lt (h c mem_cons_self)),
      keyErase_append_of_lt (fun d hd => h d (mem_cons_of_mem c hd)) r, cons_append]

theorem keyFind_eq_none {k : κ} {l : List α} (h : ∀ c ∈ l, key c ≠ k) : keyFind key k l = none :=
  find?_eq_none.2 fun c hc => by simpa using h c hc

theorem keyFind_append {k : κ} (l r : List α) :
    keyFind key k (l ++ r) = (keyFind key k l).or (keyFind key k r) :=
  find?_append

theorem keyFind_cons_of_eq {k : κ} {b : α} (h : key b = k) (r : List α) :
    keyFind key k (b :: r) = some b :=
  find?_cons_of_pos (by simpa using h)

theorem keyFind_cons_of_ne {k : κ} {b : α} (h : key b ≠ k) (r : List α) :
    keyFind key k (b :: r) = keyFind key k r :=
  find?_cons_of_neg (by simpa using h)

/-- With distinct keys at most one element has the key, so a search from either end finds
the same one. -/
theorem keyFind_reverse {k : κ} : ∀ {l : List α}, (l.map key).Nodup →
    keyFind key k l.reverse = keyFind key k l
  | [], _ => rfl
  | b :: l, hl => by
    rw [map_cons, nodup_cons] at hl
    rw [reverse_cons, keyFind_append, keyFind_reverse hl.2]
    by_cases hb : key b = k
    · -- `b` is the only element with the key
      have hnone : keyFind key k l = none := keyFind_eq_none fun c hc hck => by
        apply hl.1
        rw [hb, ← hck]
        exact mem_map_of_mem hc
      rw [hnone, keyFind_cons_of_eq hb, keyFind_cons_of_eq hb]
      rfl
    · rw [keyFind_cons_of_ne hb, keyFind_cons_of_ne hb]
      exact Option.or_none

/-! ## The map laws -/

theorem mem_keyUpsert {a c : α} : ∀ {l : List α}, c ∈ keyUpsert key a l → c = a ∨ c ∈ l
  | [], h => .inl (mem_singleton.1 h)
  | b :: l, h => by
    rw [keyUpsert] at h
    split_ifs at h
    · exact mem_cons.1 h
    · exact (mem_cons.1 h).imp id (mem_cons_of_mem b)
    · rcases mem_cons.1 h with rfl | h
      · exact .inr mem_cons_self
      · exact (mem_keyUpsert h).imp id (mem_cons_of_mem b)

theorem keySorted_keyUpsert {a : α} : ∀ {l : List α}, KeySorted key l →
    KeySorted key (keyUpsert key a l)
  | [], _ => by simp [keyUpsert]
  | b :: l, h => by
    rw [keySorted_cons] at h
    rw [keyUpsert]
    split_ifs with hlt heq
    · exact keySorted_cons.2 ⟨fun c hc => (mem_cons.1 hc).elim (· ▸ hlt)
        fun hc => lt_trans hlt (h.1 c hc), keySorted_cons.2 h⟩
    · exact keySorted_cons.2 ⟨fun c hc => heq ▸ h.1 c hc, h.2⟩
    · -- `b` stays first: everything after it is larger, `a` included
      have hba : key b < key a := lt_of_le_of_ne (not_lt.1 hlt) (Ne.symm heq)
      refine keySorted_cons.2 ⟨fun c hc => ?_, keySorted_keyUpsert h.2⟩
      rcases mem_keyUpsert hc with rfl | hc
      · exact hba
      · exact h.1 c hc

theorem keyErase_sublist (k : κ) : ∀ l : List α, keyErase key k l <+ l
  | [] => Sublist.slnil
  | b :: l => by
    rw [keyErase]
    split_ifs
    · exact sublist_cons_self b l
    · exact (keyErase_sublist k l).cons_cons b

theorem keySorted_keyErase {k : κ} {l : List α} (h : KeySorted key l) :
    KeySorted key (keyErase key k l) := by
  induction l with
  | nil => exact h
  | cons b l ih =>
    rw [keySorted_cons] at h
    rw [keyErase]
    split_ifs
    · exact h.2
    · refine keySorted_cons.2 ⟨fun c hc => h.1 c ?_, ih h.2⟩
      exact (keyErase_sublist k l).subset hc

/-- Looking up after an upsert: the new element under its key, the old map elsewhere. -/
theorem keyFind_keyUpsert (a : α) (k : κ) : ∀ l : List α,
    keyFind key k (keyUpsert key a l) = if key a = k then some a else keyFind key k l
  | [] => by by_cases h : key a = k <;> simp [keyFind, keyUpsert, h]
  | b :: l => by
    by_cases hak : key a = k
    · rw [if_pos hak]
      rw [keyUpsert]
      split_ifs with hlt heq
      · exact keyFind_cons_of_eq hak _
      · exact keyFind_cons_of_eq hak _
      · have hbk : key b ≠ k := hak ▸ Ne.symm heq
        rw [keyFind_cons_of_ne hbk, keyFind_keyUpsert a k l, if_pos hak]
    · rw [if_neg hak, keyUpsert]
      split_ifs with hlt heq
      · rw [keyFind_cons_of_ne hak]
      · rw [keyFind_cons_of_ne hak, keyFind_cons_of_ne (heq ▸ hak)]
      · by_cases hbk : key b = k
        · rw [keyFind_cons_of_eq hbk, keyFind_cons_of_eq hbk]
        · rw [keyFind_cons_of_ne hbk, keyFind_cons_of_ne hbk, keyFind_keyUpsert a k l,
            if_neg hak]

/-- Looking up after an erase in a key-sorted list: nothing under the erased key, the old map
elsewhere. -/
theorem keyFind_keyErase (k' k : κ) : ∀ {l : List α}, KeySorted key l →
    keyFind key k (keyErase key k' l) = if k' = k then none else keyFind key k l
  | [], _ => by split_ifs <;> rfl
  | b :: l, h => by
    rw [keySorted_cons] at h
    rw [keyErase]
    split_ifs with hb hk hk
    · -- the erased element was the only one with its key: the rest is larger
      subst hb hk
      exact keyFind_eq_none fun c hc => ne_of_gt (h.1 c hc)
    · rw [keyFind_cons_of_ne (hb ▸ hk)]
    · subst hk
      rw [keyFind_cons_of_ne hb, keyFind_keyErase k' k' h.2, if_pos rfl]
    · by_cases hbk : key b = k
      · rw [keyFind_cons_of_eq hbk, keyFind_cons_of_eq hbk]
      · rw [keyFind_cons_of_ne hbk, keyFind_cons_of_ne hbk, keyFind_keyErase k' k h.2, if_neg hk]

end List
