import Mathlib.Data.Int.Notation
import Mathlib.Order.Basic

/-!
# The AVL tree of `rdavl.c`

This file models the AVL tree of `src/rdavl.h` and `src/rdavl.c`: the node
`rd_avl_node_t` with its two children `ran_p`, its stored height `ran_height` and its
element `ran_elm`, and the functions that insert, remove and find elements by the
tree's comparator `ravl_cmp`.

A node and the subtree below it are one value of `AvlNode`, and `NULL` is `nil`; the
functions return the new subtree where the code writes child pointers.  The comparator
returns an `int` whose sign the code reads, modelled as an `Ordering`.  `ran_height` is an
`int` that is only ever set to zero or to one more than a height, so it is a natural number
here.

`rd_avl_rotate` and `rd_avl_balance_node` call each other, and a rotation balances the
rotated node again at the same size, so the pair does not recurse on a smaller tree.  Both
take a fuel argument that each call consumes; `none` is running out of fuel, or
dereferencing `NULL`.  The locks of `RD_AVL_F_LOCKS` are not modelled.
-/

set_option autoImplicit false

namespace Rdkafka

/-- `rd_avl_dir_t`. -/
inductive AvlDir where
  | left
  | right
  deriving DecidableEq, Repr

/-- The opposite direction, `odirmap` of `rd_avl_rotate`. -/
def AvlDir.opp : AvlDir → AvlDir
  | .left => .right
  | .right => .left

/-- An `rd_avl_node_t` and the subtree below it; `nil` is `NULL`. -/
inductive AvlNode (α : Type) where
  | nil
  | node (left : AvlNode α) (elm : α) (height : ℕ) (right : AvlNode α)
  deriving DecidableEq, Repr

namespace AvlNode

variable {α : Type}

/-- `RD_AVL_NODE_HEIGHT(ran)`: the stored height, zero for `NULL`. -/
def ranHeight : AvlNode α → ℕ
  | nil => 0
  | node _ _ h _ => h

/-- `ran->ran_p[dir]`; `NULL` has no children. -/
def child : AvlNode α → AvlDir → AvlNode α
  | nil, _ => nil
  | node l _ _ _, .left => l
  | node _ _ _ r, .right => r

/-- `ran->ran_p[dir] = c`. -/
def setChild : AvlNode α → AvlDir → AvlNode α → AvlNode α
  | nil, _, _ => nil
  | node _ x h r, .left, c => node c x h r
  | node l x h _, .right, c => node l x h c

/-- `RD_AVL_NODE_DELTA(ran)`: the stored height of the left child less that of the right. -/
def delta : AvlNode α → ℤ
  | nil => 0
  | node l _ _ r => (l.ranHeight : ℤ) - r.ranHeight

end AvlNode

open AvlNode

variable {α : Type}

/-- `RD_DELTA_MAX`. -/
def deltaMax : ℤ := 1

mutual

/-- `rd_avl_rotate(ran, dir)`: the child `n` on the other side takes the place of `ran`,
which becomes its child on side `dir` and takes over `n`'s child there; both are balanced,
`ran` first.  `NULL` for `ran` or `n` is dereferenced. -/
def avlRotate : ℕ → AvlNode α → AvlDir → Option (AvlNode α)
  | 0, _, _ => none
  | _ + 1, nil, _ => none
  | fuel + 1, ran@(node ..), dir =>
    match ran.child dir.opp with
    | nil => none
    | n@(node ..) =>
      (avlBalanceNode fuel (ran.setChild dir.opp (n.child dir))).bind fun ran =>
        avlBalanceNode fuel (n.setChild dir ran)

/-- `rd_avl_balance_node(ran)`: rotate when the stored heights of the children differ by
more than `RD_DELTA_MAX`, first rotating the heavy child the other way when it leans
inwards; otherwise set the stored height to one more than the children's.  The heavy child
has a stored height of at least 2, so it is not `NULL` when its `RD_AVL_NODE_DELTA` is
read. -/
def avlBalanceNode : ℕ → AvlNode α → Option (AvlNode α)
  | 0, _ => none
  | _ + 1, nil => none
  | fuel + 1, ran@(node l x _ r) =>
    let d := ran.delta
    if d < -deltaMax then
      (if r.delta > 0 then avlRotate fuel r .right else some r).bind fun r =>
        avlRotate fuel (ran.setChild .right r) .left
    else if d > deltaMax then
      (if l.delta < 0 then avlRotate fuel l .left else some l).bind fun l =>
        avlRotate fuel (ran.setChild .left l) .right
    else
      -- `ran_height = 0`, raised to each child's height, then incremented
      some (node l x (max l.ranHeight r.ranHeight + 1) r)

end

/-! ## Insertion -/

/-- `rd_avl_insert_node(ravl, parent, ran, &existing)`, where `ran` is the node of `elm` that
`rd_avl_insert` has cleared: a leaf of stored height 0.  The new subtree and the element
of the node `ran` replaced, whose children and height it takes over. -/
def avlInsertNode (cmp : α → α → Ordering) (fuel : ℕ) :
    AvlNode α → α → Option (AvlNode α × Option α)
  | nil, elm => some (node nil elm 0 nil, none)
  | parent@(node l y h r), elm =>
    match cmp elm y with
    | .eq => some (node l elm h r, some y)
    | .lt =>
      (avlInsertNode cmp fuel l elm).bind fun (l, existing) =>
        (avlBalanceNode fuel (parent.setChild .left l)).map fun t => (t, existing)
    | .gt =>
      (avlInsertNode cmp fuel r elm).bind fun (r, existing) =>
        (avlBalanceNode fuel (parent.setChild .right r)).map fun t => (t, existing)

/-! ## Removal -/

/-- `rd_avl_move(dst, src, dir)`: graft `src` at the end of the spine of `dst` on side `dir`,
balancing the nodes of the spine on the way back. -/
def avlMove (fuel : ℕ) : AvlNode α → AvlNode α → AvlDir → Option (AvlNode α)
  | nil, src, _ => some src
  | dst@(node l _ _ _), src, .left =>
    (avlMove fuel l src .left).bind fun c => avlBalanceNode fuel (dst.setChild .left c)
  | dst@(node _ _ _ r), src, .right =>
    (avlMove fuel r src .right).bind fun c => avlBalanceNode fuel (dst.setChild .right c)

/-- `rd_avl_remove_node0(ran)`: the right subtree of `ran` grafted onto the right spine of its
left subtree. -/
def avlRemoveNode0 (fuel : ℕ) : AvlNode α → Option (AvlNode α)
  | nil => none
  | node l _ _ r => avlMove fuel l r .right

/-- `rd_avl_remove_elm0(ravl, parent, elm)`: remove the node whose element compares equal to
`elm`, balancing the nodes on the path to it. -/
def avlRemoveElm0 (cmp : α → α → Ordering) (fuel : ℕ) : AvlNode α → α → Option (AvlNode α)
  | nil, _ => some nil
  | parent@(node l y _ r), elm =>
    match cmp elm y with
    | .eq => avlRemoveNode0 fuel parent
    | .lt => (avlRemoveElm0 cmp fuel l elm).bind fun l => avlBalanceNode fuel (parent.setChild .left l)
    | .gt =>
      (avlRemoveElm0 cmp fuel r elm).bind fun r => avlBalanceNode fuel (parent.setChild .right r)

/-! ## Search -/

/-- `rd_avl_find_node(ravl, begin, elm)`: the subtree whose root element compares equal to
`elm`, `nil` for `NULL`. -/
def avlFindNode (cmp : α → α → Ordering) : AvlNode α → α → AvlNode α
  | nil, _ => nil
  | begin@(node l y _ r), elm =>
    match cmp elm y with
    | .eq => begin
    | .lt => avlFindNode cmp l elm
    | .gt => avlFindNode cmp r elm

/-! ## The tree -/

/-- `rd_avl_t`: the root and the comparator. -/
structure Avl (α : Type) where
  /-- `ravl_root`. -/
  ravlRoot : AvlNode α
  /-- `ravl_cmp`. -/
  ravlCmp : α → α → Ordering

/-- `rd_avl_init(ravl, cmp, flags)`. -/
def avlInit (cmp : α → α → Ordering) : Avl α := ⟨nil, cmp⟩

/-- `rd_avl_insert(ravl, elm, ran)`, which `RD_AVL_INSERT` calls: the tree and the element that
was replaced, `NULL` if there was none. -/
def avlInsert (fuel : ℕ) (ravl : Avl α) (elm : α) : Option (Avl α × Option α) :=
  (avlInsertNode ravl.ravlCmp fuel ravl.ravlRoot elm).map fun (root, existing) =>
    ({ ravl with ravlRoot := root }, existing)

/-- `rd_avl_remove_elm(ravl, elm)`, which `RD_AVL_REMOVE_ELM` calls. -/
def avlRemoveElm (fuel : ℕ) (ravl : Avl α) (elm : α) : Option (Avl α) :=
  (avlRemoveElm0 ravl.ravlCmp fuel ravl.ravlRoot elm).map fun root => { ravl with ravlRoot := root }

/-- `rd_avl_find(ravl, elm, dolock)`, which `RD_AVL_FIND` calls: the element of the node found,
`NULL` if there is none. -/
def avlFind (ravl : Avl α) (elm : α) : Option α :=
  match avlFindNode ravl.ravlCmp ravl.ravlRoot elm with
  | nil => none
  | node _ y _ _ => some y

/-- A call on the tree. -/
inductive AvlOp (α : Type) where
  | insert (elm : α)
  | removeElm (elm : α)
  deriving DecidableEq, Repr

/-- One call, with the fuel of the balancing. -/
def avlStep (fuel : ℕ) (ravl : Avl α) : AvlOp α → Option (Avl α)
  | .insert elm => (avlInsert fuel ravl elm).map (·.1)
  | .removeElm elm => avlRemoveElm fuel ravl elm

/-- A run of calls from `ravl`; `none` once one ran out of fuel. -/
def avlRun (fuel : ℕ) (ravl : Avl α) : List (AvlOp α) → Option (Avl α)
  | [] => some ravl
  | op :: ops => (avlStep fuel ravl op).bind fun ravl => avlRun fuel ravl ops

end Rdkafka
