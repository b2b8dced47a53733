import Mathlib.Data.List.Induction
import Rdkafka.Avl.Tree
import Rdkafka.Lib.KeyMap

/-!
# What the AVL tree of `rdavl.c` stores

The tree stores its elements in order: the in-order list of the elements (`AvlNode.toList`)
is what the tree means.  Rotating and balancing keep that list (`toList_avlBalanceNode`),
so under a comparator that orders the elements by a key, the tree refines a key-sorted
list used as a finite map (`List.keyUpsert`, `List.keyErase`, `List.keyFind`):
`rd_avl_insert` replaces the element with an equal key or adds the element and returns the
one it replaced, `rd_avl_remove_elm` takes out the element with an equal key, and
`rd_avl_find` finds it (`avlInsert_spec`, `avlRemoveElm_spec`, `avlFind_spec`).  Over a
run, search returns the element of the last insertion with an equal key, unless a removal
came after it (`avlFind_run`).

These hold whenever the calls return, that is for any fuel that does not run out.

The heights are another matter.  `rd_avl_insert` clears the new node, so a new leaf has
`ran_height` 0, while `RD_AVL_NODE_HEIGHT` of `NULL` is 0 as well: the balancing sees a
leaf as an empty subtree.  Inserting 1, 2 and 3 in that order then builds a chain of three
nodes, whose root has an empty left subtree and a right subtree of height 2, and whose last
leaf holds height 0 (`avlInsert_ascending_chain`).
-/

set_option autoImplicit false

namespace Rdkafka

namespace AvlNode

variable {α : Type}

/-- The elements of the subtree in order. -/
def toList : AvlNode α → List α
  | nil => []
  | node l x _ r => l.toList ++ x :: r.toList

@[simp] theorem toList_node (l : AvlNode α) (x : α) (h : ℕ) (r : AvlNode α) :
    (node l x h r).toList = l.toList ++ x :: r.toList := rfl

end AvlNode

open AvlNode List

variable {α : Type}

/-! ## Balancing keeps the order -/

/-- Rotating and balancing keep the elements in order; by induction on the fuel, the two
functions together. -/
theorem toList_avlBalanceNode_avlRotate : ∀ fuel : ℕ,
    (∀ {t t' : AvlNode α}, avlBalanceNode fuel t = some t' → t'.toList = t.toList) ∧
      ∀ {t t' : AvlNode α} {dir : AvlDir}, avlRotate fuel t dir = some t' → t'.toList = t.toList
  | 0 => ⟨fun h => (by rw [avlBalanceNode] at h; cases h), fun h => (by rw [avlRotate] at h; cases h)⟩
  | fuel + 1 => by
    obtain ⟨ihb, ihr⟩ := toList_avlBalanceNode_avlRotate fuel
    refine ⟨fun {t t'} h => ?_, fun {t t' dir} h => ?_⟩
    · cases t with
      | nil => rw [avlBalanceNode] at h; cases h
      | node l x hx r =>
        rw [avlBalanceNode] at h
        split_ifs at h with hd₁ hd₂ hr₁ hl₁
        · -- right-heavy, leaning inwards: a right rotation of the right child first
          obtain ⟨r', hr', h⟩ := Option.bind_eq_some_iff.1 h
          rw [ihr h, setChild, toList_node, toList_node, ihr hr']
        · obtain ⟨r', hr', h⟩ := Option.bind_eq_some_iff.1 h
          cases hr'
          exact ihr h
        · obtain ⟨l', hl', h⟩ := Option.bind_eq_some_iff.1 h
          rw [ihr h, setChild, toList_node, toList_node, ihr hl']
        · obtain ⟨l', hl', h⟩ := Option.bind_eq_some_iff.1 h
          cases hl'
          exact ihr h
        · cases h
          rfl
    · cases t with
      | nil => rw [avlRotate] at h; cases h
      | node l x hx r =>
        rw [avlRotate] at h
        -- the child on the other side of `dir` comes up
        cases dir with
        | left =>
          cases r with
          | nil => cases h
          | node rl rx rh rr =>
            obtain ⟨b, hb, h⟩ := Option.bind_eq_some_iff.1 h
            simp only [setChild, child, AvlDir.opp] at hb h
            rw [ihb h, toList_node, ihb hb]
            simp
        | right =>
          cases l with
          | nil => cases h
          | node ll lx lh lr =>
            obtain ⟨b, hb, h⟩ := Option.bind_eq_some_iff.1 h
            simp only [setChild, child, AvlDir.opp] at hb h
            rw [ihb h, toList_node, ihb hb]
            simp

theorem toList_avlBalanceNode {fuel : ℕ} {t t' : AvlNode α} (h : avlBalanceNode fuel t = some t') :
    t'.toList = t.toList :=
  (toList_avlBalanceNode_avlRotate fuel).1 h

/-- Grafting `src` at the right end of `dst` puts its elements after those of `dst`. -/
theorem toList_avlMove_right {fuel : ℕ} {src : AvlNode α} :
    ∀ {dst t : AvlNode α}, avlMove fuel dst src .right = some t → t.toList = dst.toList ++ src.toList
  | .nil, t, h => by
    cases h
    rfl
  | node l y hy r, t, h => by
    rw [avlMove] at h
    obtain ⟨c, hc, h⟩ := Option.bind_eq_some_iff.1 h
    rw [toList_avlBalanceNode h, setChild, toList_node, toList_node, toList_avlMove_right hc]
    simp

/-! ## A comparator by a key -/

section Key

variable {κ : Type} [LinearOrder κ] {key : α → κ} {cmp : α → α → Ordering}

/-- A node is in order when its subtrees are and its element lies between them. -/
theorem keySorted_toList_node {l r : AvlNode α} {y : α} {h : ℕ} :
    KeySorted key (node l y h r).toList ↔ KeySorted key l.toList ∧ KeySorted key r.toList ∧
      (∀ c ∈ l.toList, key c < key y) ∧ ∀ c ∈ r.toList, key y < key c := by
  rw [toList_node, keySorted_append, keySorted_cons]
  constructor
  · rintro ⟨hl, ⟨hyr, hr⟩, hb⟩
    exact ⟨hl, hr, fun c hc => hb c hc y mem_cons_self, hyr⟩
  · rintro ⟨hl, hr, hly, hyr⟩
    refine ⟨hl, ⟨hyr, hr⟩, fun c hc d hd => ?_⟩
    rcases mem_cons.1 hd with rfl | hd
    · exact hly c hc
    · exact lt_trans (hly c hc) (hyr d hd)

/-- **Insertion.**  In a tree in order, `rd_avl_insert_node` upserts the element into the
in-order list and returns the element with its key, if there was one. -/
theorem avlInsertNode_spec (hcmp : ∀ a b, cmp a b = compare (key a) (key b)) {fuel : ℕ}
    {x : α} : ∀ {t t' : AvlNode α} {old : Option α}, KeySorted key t.toList →
      avlInsertNode cmp fuel t x = some (t', old) →
      t'.toList = keyUpsert key x t.toList ∧ old = keyFind key (key x) t.toList
  | .nil, t', old, _, h => by
    cases h
    exact ⟨rfl, rfl⟩
  | node l y hy r, t', old, hs, h => by
    obtain ⟨hl, hr, hly, hyr⟩ := keySorted_toList_node.1 hs
    rw [avlInsertNode, hcmp] at h
    rcases lt_trichotomy (key x) (key y) with hxy | hxy | hxy
    · -- into the left subtree: nothing on the right has the key
      rw [compare_lt_iff_lt.2 hxy] at h
      obtain ⟨⟨l', e⟩, hins, h⟩ := Option.bind_eq_some_iff.1 h
      obtain ⟨t₁, hbal, h⟩ := Option.map_eq_some_iff.1 h
      cases h
      obtain ⟨hl', he⟩ := avlInsertNode_spec hcmp hl hins
      have hnone : keyFind key (key x) (y :: r.toList) = none :=
        keyFind_eq_none fun c hc => ne_of_gt ((mem_cons.1 hc).elim (· ▸ hxy)
          fun hc => lt_trans hxy (hyr c hc))
      refine ⟨?_, ?_⟩
      · rw [toList_avlBalanceNode hbal, setChild, toList_node, toList_node, hl',
          keyUpsert_append_cons_of_lt hxy]
      · rw [he, toList_node, keyFind_append, hnone, Option.or_none]
    · -- the node is replaced: it takes over the children and the height
      rw [compare_eq_iff_eq.2 hxy] at h
      cases h
      have hnone : keyFind key (key x) l.toList = none :=
        keyFind_eq_none fun c hc => ne_of_lt (hxy ▸ hly c hc)
      refine ⟨?_, ?_⟩
      · rw [toList_node, toList_node, keyUpsert_append_of_lt (fun c hc => hxy ▸ hly c hc),
          keyUpsert_cons_of_eq hxy]
      · rw [toList_node, keyFind_append, hnone, keyFind_cons_of_eq hxy.symm]
        rfl
    · rw [compare_gt_iff_gt.2 hxy] at h
      obtain ⟨⟨r', e⟩, hins, h⟩ := Option.bind_eq_some_iff.1 h
      obtain ⟨t₁, hbal, h⟩ := Option.map_eq_some_iff.1 h
      cases h
      obtain ⟨hr', he⟩ := avlInsertNode_spec hcmp hr hins
      have hless : ∀ c ∈ l.toList, key c < key x := fun c hc => lt_trans (hly c hc) hxy
      refine ⟨?_, ?_⟩
      · rw [toList_avlBalanceNode hbal, setChild, toList_node, toList_node, hr',
          keyUpsert_append_of_lt hless, keyUpsert_cons_of_gt hxy]
      · rw [he, toList_node, keyFind_append, keyFind_eq_none fun c hc => ne_of_lt (hless c hc),
          keyFind_cons_of_ne (ne_of_lt hxy)]
        rfl

/-- **Removal.**  In a tree in order, `rd_avl_remove_elm0` erases the key of the element from
the in-order list. -/
theorem avlRemoveElm0_spec (hcmp : ∀ a b, cmp a b = compare (key a) (key b)) {fuel : ℕ}
    {x : α} : ∀ {t t' : AvlNode α}, KeySorted key t.toList →
      avlRemoveElm0 cmp fuel t x = some t' → t'.toList = keyErase key (key x) t.toList
  | .nil, t', _, h => by
    cases h
    rfl
  | node l y hy r, t', hs, h => by
    obtain ⟨hl, hr, hly, hyr⟩ := keySorted_toList_node.1 hs
    rw [avlRemoveElm0, hcmp] at h
    rcases lt_trichotomy (key x) (key y) with hxy | hxy | hxy
    · rw [compare_lt_iff_lt.2 hxy] at h
      obtain ⟨l', hrem, h⟩ := Option.bind_eq_some_iff.1 h
      have hne : ∀ c ∈ y :: r.toList, key c ≠ key x := fun c hc =>
        ne_of_gt ((mem_cons.1 hc).elim (· ▸ hxy) fun hc => lt_trans hxy (hyr c hc))
      rw [toList_avlBalanceNode h, setChild, toList_node, toList_node,
        avlRemoveElm0_spec hcmp hl hrem, keyErase_append_of_forall_ne _ hne]
    · -- the node itself: its right subtree is grafted onto its left one
      rw [compare_eq_iff_eq.2 hxy] at h
      rw [toList_avlMove_right h, toList_node,
        keyErase_append_of_lt (fun c hc => hxy ▸ hly c hc), keyErase, if_pos hxy.symm]
    · rw [compare_gt_iff_gt.2 hxy] at h
      obtain ⟨r', hrem, h⟩ := Option.bind_eq_some_iff.1 h
      rw [toList_avlBalanceNode h, setChild, toList_node, toList_node,
        avlRemoveElm0_spec hcmp hr hrem, keyErase_append_of_lt (fun c hc => lt_trans (hly c hc) hxy),
        keyErase, if_neg (ne_of_lt hxy)]

/-- **Search.**  In a tree in order, `rd_avl_find` finds the element with the key. -/
theorem avlFind_node (hcmp : ∀ a b, cmp a b = compare (key a) (key b)) {x : α} :
    ∀ {t : AvlNode α}, KeySorted key t.toList → avlFind ⟨t, cmp⟩ x = keyFind key (key x) t.toList
  | .nil, _ => rfl
  | node l y hy r, hs => by
    obtain ⟨hl, hr, hly, hyr⟩ := keySorted_toList_node.1 hs
    rcases lt_trichotomy (key x) (key y) with hxy | hxy | hxy
    · have hnone : keyFind key (key x) (y :: r.toList) = none :=
        keyFind_eq_none fun c hc => ne_of_gt ((mem_cons.1 hc).elim (· ▸ hxy)
          fun hc => lt_trans hxy (hyr c hc))
      have hfind : avlFind ⟨node l y hy r, cmp⟩ x = avlFind ⟨l, cmp⟩ x := by
        simp only [avlFind, avlFindNode, hcmp, compare_lt_iff_lt.2 hxy]
      rw [hfind, avlFind_node hcmp hl, toList_node, keyFind_append, hnone, Option.or_none]
    · have hfind : avlFind ⟨node l y hy r, cmp⟩ x = some y := by
        simp only [avlFind, avlFindNode, hcmp, compare_eq_iff_eq.2 hxy]
      rw [hfind, toList_node, keyFind_append,
        keyFind_eq_none fun c hc => ne_of_lt (hxy ▸ hly c hc), keyFind_cons_of_eq hxy.symm]
      rfl
    · have hfind : avlFind ⟨node l y hy r, cmp⟩ x = avlFind ⟨r, cmp⟩ x := by
        simp only [avlFind, avlFindNode, hcmp, compare_gt_iff_gt.2 hxy]
      rw [hfind, avlFind_node hcmp hr, toList_node, keyFind_append,
        keyFind_eq_none fun c hc => ne_of_lt (lt_trans (hly c hc) hxy),
        keyFind_cons_of_ne (ne_of_lt hxy)]
      rfl

end Key

/-! ## The tree as a map -/

section Map

variable {κ : Type} [LinearOrder κ] (key : α → κ)

/-- The invariant of an `rd_avl_t` whose comparator orders the elements by `key`: the
comparator compares the keys, and the tree is in order. -/
structure Avl.Ordered (ravl : Avl α) : Prop where
  cmp_eq : ∀ a b, ravl.ravlCmp a b = compare (key a) (key b)
  sorted : KeySorted key ravl.ravlRoot.toList

/-- The element a call is about. -/
def AvlOp.elm : AvlOp α → α
  | .insert elm => elm
  | .removeElm elm => elm

/-- What a call does to the in-order list, the map the tree stands for. -/
def AvlOp.applyList (l : List α) : AvlOp α → List α
  | .insert elm => keyUpsert key elm l
  | .removeElm elm => keyErase key (key elm) l

/-- What a lookup of key `k` finds after the calls `ops` on an empty map: the element of the
last insertion with that key, unless a removal of the key came after it. -/
def lastWrite (k : κ) (ops : List (AvlOp α)) : Option α :=
  match ops.reverse.find? fun op => key op.elm = k with
  | some (.insert elm) => some elm
  | _ => none

variable {key}

/-- After insertions only, the last write of a key is the last element inserted with it. -/
theorem lastWrite_map_insert (k : κ) (l : List α) :
    lastWrite key k (l.map AvlOp.insert) = keyFind key k l.reverse := by
  have hfind : (l.map AvlOp.insert).reverse.find? (fun op => key op.elm = k) =
      (keyFind key k l.reverse).map AvlOp.insert := by
    rw [← map_reverse, find?_map]
    rfl
  rw [lastWrite, hfind]
  cases keyFind key k l.reverse <;> rfl

theorem avlInit_ordered : (avlInit fun a b => compare (key a) (key b)).Ordered key :=
  ⟨fun _ _ => rfl, keySorted_nil⟩

/-- **`rd_avl_insert`** keeps the tree in order, upserts the element and returns the element
with its key, `NULL` if there was none. -/
theorem avlInsert_spec {ravl ravl' : Avl α} {fuel : ℕ} {x : α} {old : Option α}
    (h : ravl.Ordered key) (hi : avlInsert fuel ravl x = some (ravl', old)) :
    ravl'.Ordered key ∧ ravl'.ravlRoot.toList = keyUpsert key x ravl.ravlRoot.toList ∧
      old = keyFind key (key x) ravl.ravlRoot.toList := by
  obtain ⟨⟨root, e⟩, hn, hi⟩ := Option.map_eq_some_iff.1 hi
  cases hi
  obtain ⟨ht, he⟩ := avlInsertNode_spec h.cmp_eq h.sorted hn
  exact ⟨⟨h.cmp_eq, ht ▸ keySorted_keyUpsert h.sorted⟩, ht, he⟩

/-- **`rd_avl_remove_elm`** keeps the tree in order and erases the key of the element. -/
theorem avlRemoveElm_spec {ravl ravl' : Avl α} {fuel : ℕ} {x : α} (h : ravl.Ordered key)
    (hr : avlRemoveElm fuel ravl x = some ravl') :
    ravl'.Ordered key ∧ ravl'.ravlRoot.toList = keyErase key (key x) ravl.ravlRoot.toList := by
  obtain ⟨root, hn, hr⟩ := Option.map_eq_some_iff.1 hr
  cases hr
  have ht := avlRemoveElm0_spec h.cmp_eq h.sorted hn
  exact ⟨⟨h.cmp_eq, ht ▸ keySorted_keyErase h.sorted⟩, ht⟩

/-- **`rd_avl_find`** finds the element with the key of `x`. -/
theorem avlFind_spec {ravl : Avl α} (h : ravl.Ordered key) (x : α) :
    avlFind ravl x = keyFind key (key x) ravl.ravlRoot.toList :=
  avlFind_node h.cmp_eq h.sorted

/-- A run keeps the tree in order and acts on its in-order list as the calls act on a map. -/
theorem avlRun_spec {fuel : ℕ} : ∀ {ops : List (AvlOp α)} {ravl ravl' : Avl α},
    ravl.Ordered key → avlRun fuel ravl ops = some ravl' →
      ravl'.Ordered key ∧ ravl'.ravlRoot.toList = ops.foldl (AvlOp.applyList key) ravl.ravlRoot.toList
  | [], _, _, h, hr => by
    cases hr
    exact ⟨h, rfl⟩
  | op :: ops, ravl, ravl', h, hr => by
    rw [avlRun] at hr
    obtain ⟨ravl₁, hs, hr⟩ := Option.bind_eq_some_iff.1 hr
    -- one call, then the rest of the run from where it left the tree
    have hstep : ravl₁.Ordered key ∧ ravl₁.ravlRoot.toList = op.applyList key ravl.ravlRoot.toList := by
      cases op with
      | insert elm =>
        obtain ⟨⟨ravl₂, old⟩, hi, hs⟩ := Option.map_eq_some_iff.1 hs
        cases hs
        obtain ⟨h₂, ht, -⟩ := avlInsert_spec h hi
        exact ⟨h₂, ht⟩
      | removeElm elm => exact avlRemoveElm_spec h hs
    obtain ⟨h', ht'⟩ := avlRun_spec hstep.1 hr
    rw [ht', hstep.2, foldl_cons]
    exact ⟨h', rfl⟩

theorem keySorted_foldl_applyList : ∀ (ops : List (AvlOp α)) {l : List α}, KeySorted key l →
    KeySorted key (ops.foldl (AvlOp.applyList key) l)
  | [], _, hl => hl
  | .insert _ :: ops, _, hl => keySorted_foldl_applyList ops (keySorted_keyUpsert hl)
  | .removeElm _ :: ops, _, hl => keySorted_foldl_applyList ops (keySorted_keyErase hl)

/-- Looking a key up after one more call. -/
theorem keyFind_applyList {l : List α} (hl : KeySorted key l) (op : AvlOp α) (k : κ) :
    keyFind key k (op.applyList key l) =
      if key op.elm = k then (match op with | .insert elm => some elm | .removeElm _ => none)
      else keyFind key k l := by
  cases op with
  | insert elm => exact keyFind_keyUpsert elm k l
  | removeElm elm => exact keyFind_keyErase (key elm) k hl

/-- **Search after a run.**  From an empty tree ordered by `key`, after any run of insertions
and removals that returns, `rd_avl_find` returns the element of the last insertion with the
key of `x`, and `NULL` if there was none or a removal of the key came after it. -/
theorem avlFind_run {fuel : ℕ} {ops : List (AvlOp α)} {ravl : Avl α}
    (hr : avlRun fuel (avlInit fun a b => compare (key a) (key b)) ops = some ravl) (x : α) :
    avlFind ravl x = lastWrite key (key x) ops := by
  obtain ⟨h, ht⟩ := avlRun_spec avlInit_ordered hr
  rw [avlFind_spec h, ht]
  change keyFind key (key x) (ops.foldl (AvlOp.applyList key) []) = _
  -- by induction on the run from its end: the last call on the key decides
  clear hr ht h
  induction ops using List.reverseRecOn with
  | nil => rfl
  | append_singleton ops op ih =>
    have hs := keySorted_foldl_applyList ops (keySorted_nil : KeySorted key [])
    rw [foldl_append, foldl_cons, foldl_nil, keyFind_applyList hs, ih, lastWrite, lastWrite,
      reverse_append, reverse_singleton, singleton_append, find?_cons]
    by_cases hk : key op.elm = key x
    · cases op <;> simp [hk]
    · simp [hk]

end Map

/-! ## Heights -/

namespace AvlNode

/-- The height of the subtree, counted in nodes: what `ran_height` is meant to hold. -/
def depth : AvlNode α → ℕ
  | nil => 0
  | node l _ _ r => max l.depth r.depth + 1

/-- Every node's `ran_height` is the height of its subtree. -/
def heightsExact : AvlNode α → Bool
  | nil => true
  | node l _ h r => h == max l.depth r.depth + 1 && l.heightsExact && r.heightsExact

/-- The heights of every node's two subtrees differ by at most one. -/
def balanced : AvlNode α → Bool
  | nil => true
  | node l _ _ r => ((l.depth : ℤ) - r.depth).natAbs ≤ 1 && l.balanced && r.balanced

end AvlNode

/-- **Inserting in ascending order builds a chain.**  With the order of `ℕ`, inserting 1, 2
and 3 into an empty tree leaves 1 at the root with no left child, 2 below it and 3 below 2.
The new leaf 3 holds `ran_height` 0 although its subtree has height 1, and the root's
subtrees have heights 0 and 2: the tree is neither exactly heighted nor balanced. -/
theorem avlInsert_ascending_chain :
    ((avlRun 3 (avlInit fun a b : ℕ => compare a b) [.insert 1, .insert 2, .insert 3]).map
        fun ravl => (ravl.ravlRoot, ravl.ravlRoot.heightsExact, ravl.ravlRoot.balanced)) =
      some (node nil 1 2 (node nil 2 1 (node nil 3 0 nil)), false, false) := by
  decide +kernel

end Rdkafka
