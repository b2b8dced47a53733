import Mathlib.Data.List.Sort

/-!
# Lists strictly sorted by a key

A list is *key-sorted* when the keys of its elements strictly increase from left to
right.  Such a list is determined by the elements it holds: two key-sorted lists that are
permutations of each other are equal (`KeySorted.eq_of_perm`).  This is what lets a merge
that moves whole runs at a time be compared with element-by-element sorted insertion,
however the runs were cut.

The lemmas here are about arbitrary element and key types; nothing in this file knows
what the elements are.
-/

namespace List

variable {α κ : Type*} [LinearOrder κ] (key : α → κ)

/-- The keys of `l` strictly increase from left to right. -/
def KeySorted (l : List α) : Prop := l.Pairwise fun a b => key a < key b

/-- Every key of `l` is below every key of `l'`. -/
def KeysBelow (l l' : List α) : Prop := ∀ a ∈ l, ∀ b ∈ l', key a < key b

/-- No element of `l` has a key of an element of `l'`. -/
def KeysDisjoint (l l' : List α) : Prop := ∀ a ∈ l, ∀ b ∈ l', key a ≠ key b

instance [DecidableEq κ] (l : List α) : Decidable (KeySorted key l) :=
  inferInstanceAs (Decidable (l.Pairwise _))

instance [DecidableEq κ] (l l' : List α) : Decidable (KeysDisjoint key l l') :=
  inferInstanceAs (Decidable (∀ a ∈ l, ∀ b ∈ l', key a ≠ key b))

variable {key}

@[simp] theorem keySorted_nil : KeySorted key ([] : List α) := Pairwise.nil

@[simp] theorem keySorted_cons {a : α} {l : List α} :
    KeySorted key (a :: l) ↔ (∀ b ∈ l, key a < key b) ∧ KeySorted key l :=
  pairwise_cons

theorem keySorted_append {l₁ l₂ : List α} :
    KeySorted key (l₁ ++ l₂) ↔ KeySorted key l₁ ∧ KeySorted key l₂ ∧ KeysBelow key l₁ l₂ :=
  pairwise_append

theorem KeySorted.sublist {l₁ l₂ : List α} (h : KeySorted key l₂) (hs : l₁ <+ l₂) :
    KeySorted key l₁ :=
  Pairwise.sublist hs h

theorem KeySorted.take {l : List α} (h : KeySorted key l) (n : ℕ) : KeySorted key (l.take n) :=
  h.sublist (take_sublist n l)

theorem KeySorted.drop {l : List α} (h : KeySorted key l) (n : ℕ) : KeySorted key (l.drop n) :=
  h.sublist (drop_sublist n l)

/-- Within a key-sorted list everything before position `n` is below everything after. -/
theorem KeySorted.keysBelow_take_drop {l : List α} (h : KeySorted key l) (n : ℕ) :
    KeysBelow key (l.take n) (l.drop n) := by
  rw [← take_append_drop n l, keySorted_append] at h
  exact h.2.2

/-- Every element of a key-sorted list has a key no larger than its last element. -/
theorem KeySorted.le_of_getLast? {l : List α} {z : α} (h : KeySorted key l)
    (hz : l.getLast? = some z) : ∀ a ∈ l, key a ≤ key z := by
  obtain ⟨ys, rfl⟩ := getLast?_eq_some_iff.1 hz
  intro a ha
  rcases mem_append.1 ha with ha | ha
  · exact le_of_lt ((keySorted_append.1 h).2.2 a ha z mem_cons_self)
  · rw [mem_singleton.1 ha]

/-- To be below a key-sorted list it is enough to be below its head. -/
theorem KeysBelow.of_head {l t : List α} {x : α} (hl : ∀ a ∈ l, key a < key x)
    (ht : KeySorted key (x :: t)) : KeysBelow key l (x :: t) := by
  intro a ha b hb
  rcases mem_cons.1 hb with rfl | hb
  · exact hl a ha
  · exact lt_trans (hl a ha) ((keySorted_cons.1 ht).1 b hb)

theorem KeysBelow.append_left {l₁ l₂ l : List α} (h₁ : KeysBelow key l₁ l)
    (h₂ : KeysBelow key l₂ l) : KeysBelow key (l₁ ++ l₂) l := by
  intro a ha b hb
  rcases mem_append.1 ha with ha | ha
  · exact h₁ a ha b hb
  · exact h₂ a ha b hb

theorem KeysBelow.mono {l₁ l₂ l₁' l₂' : List α} (h : KeysBelow key l₁ l₂)
    (h₁ : l₁' ⊆ l₁) (h₂ : l₂' ⊆ l₂) : KeysBelow key l₁' l₂' :=
  fun a ha b hb => h a (h₁ ha) b (h₂ hb)

omit [LinearOrder κ] in
theorem KeysDisjoint.mono {l₁ l₂ l₁' l₂' : List α} (h : KeysDisjoint key l₁ l₂)
    (h₁ : l₁' ⊆ l₁) (h₂ : l₂' ⊆ l₂) : KeysDisjoint key l₁' l₂' :=
  fun a ha b hb => h a (h₁ ha) b (h₂ hb)

/-- Two key-sorted lists with the same elements are the same list. -/
theorem KeySorted.eq_of_perm {l₁ l₂ : List α} (h₁ : KeySorted key l₁) (h₂ : KeySorted key l₂)
    (hp : l₁ ~ l₂) : l₁ = l₂ :=
  hp.eq_of_pairwise (fun _ _ _ _ hab hba => absurd (lt_trans hab hba) (lt_irrefl _)) h₁ h₂

/-- Placing a key-sorted run `s` at position `p` of a key-sorted list `d` keeps it
key-sorted, provided the run's keys lie between the parts of `d` on either side. -/
theorem KeySorted.insert_run {d s : List α} (hd : KeySorted key d) (hs : KeySorted key s)
    (p : ℕ) (hlo : KeysBelow key (d.take p) s) (hhi : KeysBelow key s (d.drop p)) :
    KeySorted key (d.take p ++ s ++ d.drop p) := by
  have hdd := hd.keysBelow_take_drop p
  refine keySorted_append.2 ⟨keySorted_append.2 ⟨hd.take p, hs, hlo⟩, hd.drop p, ?_⟩
  intro a ha b hb
  rcases mem_append.1 ha with ha | ha
  · exact hdd a ha b hb
  · exact hhi a ha b hb

/-! ## Sorted insertion with a strict comparison -/

section OrderedInsert

/-- Sorted insertion that places `a` before the first element with a larger key. -/
abbrev keyInsert (key : α → κ) (a : α) (l : List α) : List α :=
  l.orderedInsert (fun x y => key x < key y) a

/-- Inserting an element whose key is new keeps a list key-sorted. -/
theorem keySorted_keyInsert {a : α} {l : List α} (h : KeySorted key l)
    (hfresh : ∀ b ∈ l, key b ≠ key a) : KeySorted key (keyInsert key a l) := by
  induction l with
  | nil => simp
  | cons b l ih =>
    rw [keySorted_cons] at h
    have hba : key b ≠ key a := hfresh b mem_cons_self
    by_cases hab : key a < key b
    · rw [keyInsert, orderedInsert_cons, if_pos hab, keySorted_cons, keySorted_cons]
      exact ⟨fun c hc => by
        rcases mem_cons.1 hc with rfl | hc
        · exact hab
        · exact lt_trans hab (h.1 c hc), h.1, h.2⟩
    · have hlt : key b < key a := lt_of_le_of_ne (not_lt.1 hab) hba
      rw [keyInsert, orderedInsert_cons, if_neg hab, keySorted_cons]
      refine ⟨fun c hc => ?_, ih h.2 fun c hc => hfresh c (mem_cons_of_mem _ hc)⟩
      rcases (mem_orderedInsert _).1 hc with rfl | hc
      · exact hlt
      · exact h.1 c hc

theorem perm_keyInsert (a : α) (l : List α) : keyInsert key a l ~ a :: l :=
  perm_orderedInsert _ a l

/-- Inserting the elements of `s` one at a time. -/
theorem perm_foldl_keyInsert (s acc : List α) :
    s.foldl (fun acc x => keyInsert key x acc) acc ~ acc ++ s := by
  induction s generalizing acc with
  | nil => simp
  | cons x s ih =>
    rw [foldl_cons]
    refine (ih _).trans ?_
    have h : keyInsert key x acc ++ s ~ acc ++ x :: s :=
      ((perm_keyInsert x acc).append_right s).trans perm_middle.symm
    simpa using h

/-- Inserting, one at a time, the elements of a key-sorted list whose keys are new to the
accumulator keeps the accumulator key-sorted. -/
theorem keySorted_foldl_keyInsert {s acc : List α} (hacc : KeySorted key acc)
    (hs : KeySorted key s) (hdisj : KeysDisjoint key acc s) :
    KeySorted key (s.foldl (fun acc x => keyInsert key x acc) acc) := by
  induction s generalizing acc with
  | nil => simpa using hacc
  | cons x s ih =>
    rw [keySorted_cons] at hs
    rw [foldl_cons]
    refine ih (keySorted_keyInsert hacc fun b hb => hdisj b hb x mem_cons_self) hs.2 ?_
    intro a ha b hb
    rcases (mem_orderedInsert _).1 ha with rfl | ha
    · exact ne_of_lt (hs.1 b hb)
    · exact hdisj a ha b (mem_cons_of_mem _ hb)

/-- Inserting keeps a list ordered by key when keys may repeat: the new element goes after
the elements with its key. -/
theorem pairwise_keyInsert {a : α} {l : List α} (h : l.Pairwise fun x y => key x ≤ key y) :
    (keyInsert key a l).Pairwise fun x y => key x ≤ key y := by
  induction l with
  | nil => simp
  | cons b l ih =>
    rw [pairwise_cons] at h
    by_cases hab : key a < key b
    · rw [keyInsert, orderedInsert_cons, if_pos hab, pairwise_cons, pairwise_cons]
      refine ⟨fun c hc => ?_, h.1, h.2⟩
      rcases mem_cons.1 hc with rfl | hc
      · exact le_of_lt hab
      · exact le_trans (le_of_lt hab) (h.1 c hc)
    · rw [keyInsert, orderedInsert_cons, if_neg hab, pairwise_cons]
      refine ⟨fun c hc => ?_, ih h.2⟩
      rcases (mem_orderedInsert _).1 hc with rfl | hc
      · exact not_lt.1 hab
      · exact h.1 c hc

end OrderedInsert

end List
