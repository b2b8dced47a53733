import Mathlib.Algebra.BigOperators.Group.List.Basic
import Mathlib.Tactic.Ring
import Rdkafka.Lib.KeySorted

/-!
# Producer message queues

This file models the producer message queue `rd_kafka_msgq_t` of `src/rdkafka_msg.h` and
the list surgery that `rd_kafka_msgq_insert_msgq` (`src/rdkafka_partition.c`) performs on
it to merge a retried queue back into a partition queue in message-id order.

A queue is its `TAILQ` of messages, modelled as a list, together with the two counters
`rkmq_msg_cnt` and `rkmq_msg_bytes` that the code keeps next to it.  The counters are kept
as plain integers: the code never reads them back from the list, and the merge below
passes them around in states where they do not match it, so a model that tied them to
the list could not follow the code.

A message pointer into a queue (`start_pos`, `insert_before`, `first_right`) is modelled by
the element's position in the list.  The list surgery macros keep an element's identity,
so wherever the code keeps using a pointer after moving elements around it, the model
returns the element's new position.

Only the message fields the queue code reads are modelled: the message id, by which
`rd_kafka_msg_cmp_msgid` orders, and the value and key lengths, which the byte counter
sums.
-/

namespace Rdkafka

/-- The fields of a producer message `rd_kafka_msg_t` that the queue code reads. -/
structure Msg where
  /-- `rkm_u.producer.msgid`, the message sequence number (starting at 1). -/
  msgid : ℕ
  /-- `rkm_len`, the value length. -/
  len : ℕ
  /-- `rkm_key_len`, the key length. -/
  keyLen : ℕ
  deriving DecidableEq, Repr

/-- The bytes a message accounts for in `rkmq_msg_bytes`: `rkm_len + rkm_key_len`. -/
def Msg.size (m : Msg) : ℕ := m.len + m.keyLen

/-- A message queue `rd_kafka_msgq_t`: its list and its two counters. -/
structure Msgq where
  /-- `rkmq_msgs`, the `TAILQ` of messages. -/
  msgs : List Msg
  /-- `rkmq_msg_cnt`. -/
  msgCnt : ℤ
  /-- `rkmq_msg_bytes`. -/
  msgBytes : ℤ
  deriving DecidableEq, Repr

/-- The total size of a list of messages. -/
def msgsBytes (l : List Msg) : ℤ := (l.map fun m => (m.size : ℤ)).sum

@[simp] theorem msgsBytes_nil : msgsBytes [] = 0 := rfl

@[simp] theorem msgsBytes_cons (m : Msg) (l : List Msg) :
    msgsBytes (m :: l) = m.size + msgsBytes l := by
  simp [msgsBytes]

@[simp] theorem msgsBytes_append (l l' : List Msg) :
    msgsBytes (l ++ l') = msgsBytes l + msgsBytes l' := by
  simp [msgsBytes]

theorem msgsBytes_nonneg (l : List Msg) : 0 ≤ msgsBytes l := by
  induction l with
  | nil => simp
  | cons m l ih =>
    rw [msgsBytes_cons]
    omega

theorem msgsBytes_perm {l l' : List Msg} (h : l.Perm l') : msgsBytes l = msgsBytes l' :=
  (h.map _).sum_eq

/-- A queue whose counters agree with its list, as every queue outside the merge is. -/
def Msgq.Valid (q : Msgq) : Prop := q.msgCnt = q.msgs.length ∧ q.msgBytes = msgsBytes q.msgs

instance (q : Msgq) : Decidable q.Valid := inferInstanceAs (Decidable (_ ∧ _))

/-! ## The inline queue helpers of `rdkafka_msg.h` -/

/-- `rd_kafka_msgq_init`. -/
def msgqInit : Msgq := ⟨[], 0, 0⟩

/-- `rd_kafka_msgq_concat(dst, src)`: append all of `src` to `dst`; `src` is cleared.
Returns the new `dst` and `src`. -/
def msgqConcat (dst src : Msgq) : Msgq × Msgq :=
  (⟨dst.msgs ++ src.msgs, dst.msgCnt + src.msgCnt, dst.msgBytes + src.msgBytes⟩, msgqInit)

/-- `rd_kafka_msgq_move(dst, src)`: `dst` takes over `src`, which is cleared.
Returns the new `dst` and `src`. -/
def msgqMove (_dst src : Msgq) : Msgq × Msgq := (src, msgqInit)

/-- `RD_CMP(a, b)` of `rdtypes.h`. -/
def rdCmp (a b : ℕ) : ℤ := if a < b then -1 else if a > b then 1 else 0

/-- `rd_kafka_msg_cmp_msgid`: order messages by ascending message id. -/
def msgCmpMsgid (a b : Msg) : ℤ := rdCmp a.msgid b.msgid

theorem msgCmpMsgid_neg_iff {a b : Msg} : msgCmpMsgid a b < 0 ↔ a.msgid < b.msgid := by
  unfold msgCmpMsgid rdCmp
  split_ifs <;> omega

theorem msgCmpMsgid_pos_iff {a b : Msg} : 0 < msgCmpMsgid a b ↔ b.msgid < a.msgid := by
  unfold msgCmpMsgid rdCmp
  split_ifs <;> omega

/-! ## Sorted insertion of one message -/

section Cmp

variable (cmp : Msg → Msg → ℤ)

/-- `TAILQ_INSERT_SORTED` of `rdsysqueue.h`: insert before the first element that the new
element compares below, or at the tail.  Its scan is exactly `List.orderedInsert` for the
relation `cmp elm tmp < 0`. -/
def tailqInsertSorted (elm : Msg) (l : List Msg) : List Msg :=
  l.orderedInsert (fun a b => cmp a b < 0) elm

/-- `rd_kafka_msgq_enq_sorted0`: insert one message in its sorted position. -/
def msgqEnqSorted0 (rkmq : Msgq) (rkm : Msg) : Msgq :=
  ⟨tailqInsertSorted cmp rkm rkmq.msgs, rkmq.msgCnt + 1, rkmq.msgBytes + rkm.size⟩

/-! ## Finding an insert position and splitting a queue -/

/-- The scan loop of `rd_kafka_msgq_find_pos` from element `curr` on, with the count
`cnt` and byte sum `bytes` accumulated so far.  It returns the accumulated count and
bytes at the first element that `rkm` compares below.  Note that the byte sum adds the
size of `rkm`, the message being placed, not that of `curr`: this is what the source
does. -/
def findPosFrom (rkm : Msg) : List Msg → ℕ → ℤ → Option (ℕ × ℤ)
  | [], _, _ => none
  | curr :: rest, cnt, bytes =>
    if cmp rkm curr < 0 then some (cnt, bytes)
    else findPosFrom rkm rest (cnt + 1) (bytes + rkm.size)

/-- `rd_kafka_msgq_find_pos(rkmq, start_pos, rkm, cmp, &cnt, &bytes)`: the position in
`rkmq` of the first element, from `start_pos` on (from the head when `start_pos` is
`NULL`), that `rkm` compares below, with the `*cntp` and `*bytesp` the scan
accumulated; `none` when `rkm` goes at the tail. -/
def msgqFindPos (rkmq : Msgq) (startPos : Option ℕ) (rkm : Msg) : Option (ℕ × ℕ × ℤ) :=
  let s := startPos.getD 0
  (findPosFrom cmp rkm (rkmq.msgs.drop s) 0 0).map fun r => (s + r.1, r.1, r.2)

end Cmp

/-- `rd_kafka_msgq_split(leftq, rightq, first_right, cnt, bytes)`: cut `leftq` before the
element at position `firstRight`.  The counters of the two halves are set from the
caller's `cnt` and `bytes`, not recounted.  `none` is the failed
`rd_assert(first_right != TAILQ_FIRST(&leftq->rkmq_msgs))`. -/
def msgqSplit (leftq : Msgq) (firstRight cnt : ℕ) (bytes : ℤ) : Option (Msgq × Msgq) :=
  if firstRight = 0 then none
  else some (⟨leftq.msgs.take firstRight, cnt, bytes⟩,
    ⟨leftq.msgs.drop firstRight, leftq.msgCnt - cnt, leftq.msgBytes - bytes⟩)

/-- `TAILQ_INSERT_LIST_BEFORE(dhead, insert_before, shead, ...)`: the elements of `shead`
go in front of the element at position `p` (`TAILQ_PREPEND` when that is the head). -/
def tailqInsertListBefore (dhead : List Msg) (p : ℕ) (shead : List Msg) : List Msg :=
  dhead.take p ++ shead ++ dhead.drop p

theorem tailqInsertListBefore_perm (dhead : List Msg) (p : ℕ) (shead : List Msg) :
    (tailqInsertListBefore dhead p shead).Perm (dhead ++ shead) := by
  unfold tailqInsertListBefore
  have h : (shead ++ dhead.drop p).Perm (dhead.drop p ++ shead) := List.perm_append_comm
  rw [List.append_assoc]
  simpa [← List.append_assoc] using h.append_left (dhead.take p)

/-! ## The chunked merge -/

section Cmp

variable (cmp : Msg → Msg → ℤ)

/-- The end of `rd_kafka_msgq_insert_msgq_before` once `srcq` holds the run to insert and
`tmpq` the rest: the run goes in front of `insert_before` at position `p`, the counters
move over, and `srcq` takes over `tmpq`.  The third component is the position of
`insert_before` after the insertion. -/
def insertRunBefore (destq : Msgq) (p : ℕ) (srcq tmpq : Msgq) : Msgq × Msgq × Option ℕ :=
  (⟨tailqInsertListBefore destq.msgs p srcq.msgs, destq.msgCnt + srcq.msgCnt,
      destq.msgBytes + srcq.msgBytes⟩,
    (msgqMove msgqInit tmpq).1, some (p + srcq.msgs.length))

/-- `rd_kafka_msgq_insert_msgq_before(destq, insert_before, srcq, cmp)`: insert the part
of `srcq` that sorts before `insert_before` in front of it, leaving the rest in `srcq`.
Returns the new `destq`, the new `srcq` and the new position of `insert_before`; `none`
is a failed assertion (or the `NULL` dereference of an empty `srcq`, which the callers
rule out). -/
def msgqInsertMsgqBefore (destq : Msgq) (insertBefore : Option ℕ) (srcq : Msgq) :
    Option (Msgq × Msgq × Option ℕ) :=
  match insertBefore with
  | none =>
    -- Append all of srcq to destq.
    let r := msgqConcat destq srcq
    some (r.1, r.2, none)
  | some p =>
    match srcq.msgs.getLast?, destq.msgs[p]? with
    | some slast, some ib =>
      if 0 < cmp slast ib then
        -- insert_before lies between srcq's first and last message: split srcq at the
        -- first message that sorts after insert_before.
        match msgqFindPos cmp srcq none ib with
        | none => none
        | some (newSfirst, cnt, bytes) =>
          match msgqSplit srcq newSfirst cnt bytes with
          | none => none
          | some (left, tmpq) => some (insertRunBefore destq p left tmpq)
      else some (insertRunBefore destq p srcq msgqInit)
    | _, _ => none

/-- Each successful pass of the merge loop takes at least one message out of a non-empty
`srcq`: the run it inserts is never empty. -/
theorem msgqInsertMsgqBefore_shrinks {destq srcq : Msgq} {ib : Option ℕ}
    {r : Msgq × Msgq × Option ℕ} (h : msgqInsertMsgqBefore cmp destq ib srcq = some r)
    (hne : srcq.msgs ≠ []) : r.2.1.msgs.length < srcq.msgs.length := by
  unfold msgqInsertMsgqBefore at h
  split at h
  · cases h
    simpa [msgqConcat, msgqInit, List.length_pos_iff] using hne
  · split at h
    · split at h
      · split at h
        · cases h
        · split at h
          · cases h
          · rename_i hsplit
            unfold msgqSplit at hsplit
            split at hsplit
            · cases hsplit
            · cases hsplit
              cases h
              simp only [insertRunBefore, msgqMove, List.length_drop]
              have : 0 < srcq.msgs.length := List.length_pos_iff.2 hne
              omega
      · cases h
        simpa [insertRunBefore, msgqMove, msgqInit, List.length_pos_iff] using hne
    · cases h

set_option linter.unusedVariables false in
/-- The `while (sfirst != NULL)` loop of `rd_kafka_msgq_insert_msgq`: find where the head
of `srcq` goes in `destq`, scanning from `start_pos`, insert as much of `srcq` there as
fits, and continue from `insert_before`.  It ends because every pass shortens `srcq`. -/
def insertMsgqLoop (destq srcq : Msgq) (startPos : Option ℕ) : Option (Msgq × Msgq) :=
  match hs : srcq.msgs with
  | [] => some (destq, srcq)
  | sfirst :: _ =>
    let insertBefore := (msgqFindPos cmp destq startPos sfirst).map (·.1)
    match h : msgqInsertMsgqBefore cmp destq insertBefore srcq with
    | none => none
    | some (destq', srcq', startPos') => insertMsgqLoop destq' srcq' startPos'
termination_by srcq.msgs.length
decreasing_by exact msgqInsertMsgqBefore_shrinks cmp h (by simp [hs])

/-- `rd_kafka_msgq_insert_msgq(destq, srcq, cmp)`: insert all messages of `srcq` into
`destq` in their sorted position.  Returns the new `destq` and `srcq`; `none` is a failed
assertion. -/
def msgqInsertMsgq (destq srcq : Msgq) : Option (Msgq × Msgq) :=
  if srcq.msgs = [] then some (destq, srcq)
  else if destq.msgs = [] then some (msgqMove destq srcq)
  else
    match destq.msgs.getLast?, srcq.msgs.head? with
    | some dlast, some sfirst =>
      if cmp dlast sfirst < 0 then
        -- Most common case: all of srcq goes after destq.
        some (msgqConcat destq srcq)
      else
        match insertMsgqLoop cmp destq srcq none with
        | none => none
        | some (destq', srcq') =>
          -- rd_assert(RD_KAFKA_MSGQ_EMPTY(srcq))
          if srcq'.msgs = [] then some (destq', srcq') else none
    | _, _ => none

end Cmp

end Rdkafka
