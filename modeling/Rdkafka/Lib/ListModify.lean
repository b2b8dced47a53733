import Mathlib.Data.List.Perm.Basic
import Mathlib.Algebra.Ring.Nat

/-!
# Changing one element of a list

An assignor records a grant by changing one element of a list in place: one member's
assignment grows, one pair's partition list grows.  What such a change does to the images
of the list under `map` and `flatMap` is all the later proofs need of it.  A histogram
counts a value by adding one to one counter, which adds one to the sum of the counters.
A buffer writes to the segment after the ones already full, which changes that segment
only.
-/

set_option autoImplicit false

namespace List

variable {α β : Type*}

/-- A change that `h` cannot see leaves the `h`-image of the list as it is. -/
theorem map_modify_of_forall {h : α → β} {g : α → α} (hg : ∀ a, h (g a) = h a)
    (l : List α) (k : ℕ) : (l.modify k g).map h = l.map h := by
  apply List.ext_getElem
  · simp
  · intro i h₁ h₂
    simp only [List.getElem_map, List.getElem_modify]
    split <;> simp [hg]

/-- The `h`-image of a list changed at `k` is the image with entry `k` set to the image of
the changed element. -/
theorem map_modify_eq_set (h : α → β) (g : α → α) {l : List α} {k : ℕ} (hk : k < l.length) :
    (l.modify k g).map h = (l.map h).set k (h (g l[k])) := by
  apply List.ext_getElem
  · simp
  · intro i h₁ h₂
    simp only [List.getElem_map, List.getElem_modify, List.getElem_set]
    split <;> simp_all

/-- An element of a list changed at `k` was in the list, or is the changed element. -/
theorem mem_of_mem_modify {g : α → α} {l : List α} {k : ℕ} {a : α} (h : a ∈ l.modify k g) :
    a ∈ l ∨ ∃ hk : k < l.length, a = g l[k] := by
  obtain ⟨j, hj, rfl⟩ := List.mem_iff_getElem.1 h
  rw [List.getElem_modify]
  split
  · next hkj =>
    subst hkj
    exact Or.inr ⟨by simpa using hj, rfl⟩
  · exact Or.inl (List.getElem_mem _)

/-- Growing the `f`-block of element `k` by `xs` grows the whole `flatMap` by `xs`, up to
order. -/
theorem perm_flatMap_modify {f : α → List β} {g : α → α} {xs : List β} {l : List α} {k : ℕ}
    (hk : k < l.length) (hg : f (g l[k]) = f l[k] ++ xs) :
    List.Perm ((l.modify k g).flatMap f) (l.flatMap f ++ xs) := by
  have hsplit := List.take_append_drop k l
  obtain ⟨a, rest, hdrop⟩ : ∃ a rest, l.drop k = a :: rest :=
    List.exists_cons_of_ne_nil (by simpa using hk)
  have ha : l[k] = a := by
    have := congrArg List.head? hdrop
    rw [List.head?_drop, List.head?_cons, List.getElem?_eq_getElem hk] at this
    exact Option.some.inj this
  rw [List.modify_eq_take_drop, hdrop, List.modifyHead_cons]
  conv_rhs => rw [← hsplit, hdrop]
  rw [← ha]
  simp only [List.flatMap_append, List.flatMap_cons, hg, List.append_assoc]
  exact List.Perm.append_left _ (List.Perm.append_left _ List.perm_append_comm)

/-- Changing the element right after a prefix changes that element only. -/
@[simp] theorem modify_append_length (pre post : List α) (a : α) (g : α → α) :
    (pre ++ a :: post).modify pre.length g = pre ++ g a :: post := by
  rw [List.modify_eq_take_drop]
  simp

end List
