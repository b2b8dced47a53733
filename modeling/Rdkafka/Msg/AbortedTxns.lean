import Mathlib.Data.List.Sort
import Rdkafka.Avl.TreeSpec
import Rdkafka.Msg.MsgsetReader

/-!
# The aborted transactions of a fetch

With `isolation.level=read_committed` the fetcher builds, from the AbortedTransactions array
of a partition's FetchResponse, an `rd_kafka_aborted_txns_t`: one node per producer id,
holding the start offsets of that producer's aborted transactions in a list preallocated to
`AbortedTxnCnt` elements (`rd_kafka_aborted_txns_add`), each list sorted afterwards
(`rd_kafka_aborted_txns_sort`).  The reader then consumes the offsets of a producer through
the node's cursor `offsets_idx` (`rd_kafka_aborted_txns_get_offset`,
`rd_kafka_aborted_txns_pop_offset`, in `Rdkafka.Msg.MsgsetReader`).

What the index stands for is a queue of offsets per producer (`OffsetQueues`): get reads the
head, pop takes it off when it is at most the given offset.  The nodes refine these queues
(`abortedTxnsQueues`): after the adds of a response, at most `AbortedTxnCnt` of them, and the
sort, every run of get and pop calls answers as the queues of the added offsets, each
sorted, do (`abortedTxns_refines_queues`).  The queues of two producers are independent:
the answers to the calls on one producer are those of its calls alone
(`queueCalls_filter_pid`).

The index finds a producer's node through the AVL tree `avl`, ordered by
`rd_kafka_aborted_txn_cmp_by_pid`, which holds the same nodes as `list`; the model looks the
node up in `list` with `find?`.  The adds keep the pids of the nodes distinct, so the tree of
the nodes, built by `rd_avl_insert`, finds for every pid the node `find?` finds, before the
sort and after it (`abortedTxnsOffsetsForPid_refines`, from `avlFind_run`).
-/

set_option autoImplicit false

namespace Rdkafka

/-! ## Building the index -/

/-- `rd_kafka_aborted_txns_t`: the producer nodes, in the order of `list`, and `cnt`, the
`AbortedTxnCnt` of the response.  The AVL tree `avl` indexes the same nodes by `pid`; a
lookup in it finds the node with the pid, which `find?` does here
(`abortedTxnsOffsetsForPid_refines`). -/
structure AbortedTxns where
  /-- `list`. -/
  list : List AbortedTxnStartOffsets
  /-- `cnt`. -/
  cnt : ℕ
  deriving DecidableEq, Repr

/-- `rd_kafka_aborted_txns_new(txn_cnt)`. -/
def abortedTxnsNew (txnCnt : ℕ) : AbortedTxns := ⟨[], txnCnt⟩

/-- `rd_list_add` on a list that `rd_list_prealloc_elems` made of the fixed size `size`: a full
list is grown, and `rd_list_grow` asserts that the list is not of fixed size. -/
def listAddFixed {α : Type} (size : ℕ) (l : List α) (x : α) : Option (List α) :=
  if l.length = size then none else some (l ++ [x])

/-- `rd_kafka_aborted_txns_add(aborted_txns, pid, first_offset)`: a producer seen for the
first time gets a node whose offsets are preallocated to `cnt` elements. -/
def abortedTxnsAdd (t : AbortedTxns) (pid firstOffset : BitVec 64) : Option AbortedTxns :=
  match t.list.find? (·.pid = pid) with
  | none =>
    (listAddFixed t.cnt [] firstOffset).map fun offsets =>
      { t with list := t.list ++ [⟨pid, 0, offsets⟩] }
  | some node =>
    (listAddFixed t.cnt node.offsets firstOffset).map fun offsets =>
      { t with list := t.list.map fun n => if n.pid = pid then { n with offsets } else n }

/-- The loop of the fetcher over the AbortedTransactions array: `rd_kafka_aborted_txns_add`
of each `(ProducerId, FirstOffset)` in turn. -/
def abortedTxnsAddAll (t : AbortedTxns) : List (BitVec 64 × BitVec 64) → Option AbortedTxns
  | [] => some t
  | (pid, firstOffset) :: adds =>
    (abortedTxnsAdd t pid firstOffset).bind fun t => abortedTxnsAddAll t adds

/-- `rd_kafka_offset_cmp` as an order: the offsets are compared as `int64_t`. -/
def OffsetLe (a b : BitVec 64) : Prop := a.toInt ≤ b.toInt

instance : DecidableRel OffsetLe := fun a b => inferInstanceAs (Decidable (a.toInt ≤ b.toInt))

instance : Std.Total OffsetLe := ⟨fun a b => le_total a.toInt b.toInt⟩

instance : IsTrans (BitVec 64) OffsetLe := ⟨fun _ _ _ => le_trans⟩

/-- `rd_kafka_aborted_txns_sort`: `rd_list_sort` of every producer's offsets by
`rd_kafka_offset_cmp`.  `rd_list_sort` is `qsort`; offsets that compare equal are equal, so
every sort gives the same list, here insertion sort. -/
def abortedTxnsSort (t : AbortedTxns) : AbortedTxns :=
  { t with list := t.list.map fun n => { n with offsets := n.offsets.insertionSort OffsetLe } }

/-! ## Consuming the index -/

/-- A call of the reader on the index. -/
inductive AbortedTxnsCall where
  /-- `rd_kafka_aborted_txns_get_offset(aborted_txns, pid)`. -/
  | getOffset (pid : BitVec 64)
  /-- `rd_kafka_aborted_txns_pop_offset(aborted_txns, pid, max_offset)`. -/
  | popOffset (pid maxOffset : BitVec 64)
  deriving DecidableEq, Repr

/-- The producer a call is about. -/
def AbortedTxnsCall.pid : AbortedTxnsCall → BitVec 64
  | .getOffset pid => pid
  | .popOffset pid _ => pid

/-- The answers to a run of calls on the nodes. -/
def abortedTxnsCalls : List AbortedTxnStartOffsets → List AbortedTxnsCall → List (BitVec 64)
  | _, [] => []
  | txns, .getOffset pid :: calls => abortedTxnsGetOffset txns pid :: abortedTxnsCalls txns calls
  | txns, .popOffset pid maxOffset :: calls =>
    let (txns, start) := abortedTxnsPopOffset txns pid maxOffset
    start :: abortedTxnsCalls txns calls

/-! ## Queues of offsets -/

/-- What the index stands for: the start offsets each producer has left, in order. -/
abbrev OffsetQueues := BitVec 64 → List (BitVec 64)

namespace OffsetQueues

/-- The first offset of the producer, or `-1`. -/
def get (q : OffsetQueues) (pid : BitVec 64) : BitVec 64 :=
  match q pid with
  | [] => -1
  | start :: _ => start

/-- Take the first offset of the producer off its queue if it is at most `maxOffset`, and
return it; otherwise leave the queue and return `-1`. -/
def pop (q : OffsetQueues) (pid maxOffset : BitVec 64) : OffsetQueues × BitVec 64 :=
  match q pid with
  | [] => (q, -1)
  | start :: rest =>
    if start.toInt ≤ maxOffset.toInt then (Function.update q pid rest, start) else (q, -1)

/-- The answers to a run of calls on the queues. -/
def calls (q : OffsetQueues) : List AbortedTxnsCall → List (BitVec 64)
  | [] => []
  | .getOffset pid :: cs => q.get pid :: calls q cs
  | .popOffset pid maxOffset :: cs =>
    let (q, start) := q.pop pid maxOffset
    start :: calls q cs

/-- The queues a list of adds makes, each producer's offsets sorted. -/
def ofAdds (adds : List (BitVec 64 × BitVec 64)) : OffsetQueues := fun pid =>
  ((adds.filter (·.1 = pid)).map (·.2)).insertionSort OffsetLe

theorem ofAdds_sorted (adds : List (BitVec 64 × BitVec 64)) (pid : BitVec 64) :
    (ofAdds adds pid).Pairwise fun a b => a.toInt ≤ b.toInt :=
  List.pairwise_insertionSort OffsetLe _

theorem ofAdds_perm (adds : List (BitVec 64 × BitVec 64)) (pid : BitVec 64) :
    (ofAdds adds pid).Perm ((adds.filter (·.1 = pid)).map (·.2)) :=
  List.perm_insertionSort _ _

/-- A run reads the queues only at the producers of its calls. -/
theorem calls_congr {S : Set (BitVec 64)} :
    ∀ {cs : List AbortedTxnsCall} {q q' : OffsetQueues}, (∀ c ∈ cs, c.pid ∈ S) →
      (∀ pid ∈ S, q pid = q' pid) → calls q cs = calls q' cs
  | [], _, _, _, _ => rfl
  | .getOffset pid :: cs, q, q', hS, hq => by
    have hpid := hq pid (hS _ List.mem_cons_self)
    rw [calls, calls, get, get, hpid, calls_congr (fun c hc => hS c (List.mem_cons_of_mem _ hc)) hq]
  | .popOffset pid maxOffset :: cs, q, q', hS, hq => by
    have hpid := hq pid (hS _ List.mem_cons_self)
    have hcs : ∀ c ∈ cs, c.pid ∈ S := fun c hc => hS c (List.mem_cons_of_mem _ hc)
    simp only [calls, pop, hpid]
    split
    · rw [calls_congr hcs hq]
    · split
      · -- both pop the same head off the same queue
        refine congrArg _ (calls_congr hcs fun p hp => ?_)
        by_cases hpp : p = pid
        · subst hpp
          simp
        · simp [Function.update_of_ne hpp, hq p hp]
      · rw [calls_congr hcs hq]

/-- **The producers' queues are independent.**  The answers to the calls on one producer in a
run are the answers to those calls alone. -/
theorem queueCalls_filter_pid (pid : BitVec 64) :
    ∀ (cs : List AbortedTxnsCall) (q : OffsetQueues),
      ((cs.zip (calls q cs)).filter fun c => c.1.pid = pid).map (·.2) =
        calls q (cs.filter (·.pid = pid))
  | [], _ => rfl
  | c :: cs, q => by
    by_cases hc : c.pid = pid
    · cases c with
      | getOffset p =>
        simp only [calls, List.zip_cons_cons, List.filter_cons, hc, decide_true, if_true,
          List.map_cons, queueCalls_filter_pid pid cs q]
      | popOffset p maxOffset =>
        simp only [calls, List.zip_cons_cons, List.filter_cons, hc, decide_true, if_true,
          List.map_cons, queueCalls_filter_pid pid cs]
    · -- a call on another producer leaves this producer's queue as it is
      have hS : ∀ c' ∈ cs.filter (·.pid = pid), c'.pid ∈ ({pid} : Set (BitVec 64)) := fun c' hc' =>
        by simpa using (List.mem_filter.1 hc').2
      cases c with
      | getOffset p =>
        simp only [calls, List.zip_cons_cons, List.filter_cons, hc, decide_false,
          Bool.false_eq_true, if_false, queueCalls_filter_pid pid cs q]
      | popOffset p maxOffset =>
        simp only [calls, List.zip_cons_cons, List.filter_cons, hc, decide_false,
          Bool.false_eq_true, if_false, queueCalls_filter_pid pid cs]
        refine calls_congr hS fun p' hp' => ?_
        rw [Set.mem_singleton_iff] at hp'
        subst hp'
        have hne : p' ≠ p := fun h => hc (h ▸ rfl)
        simp only [pop]
        split
        · rfl
        · split
          · exact Function.update_of_ne hne _ _
          · rfl

end OffsetQueues

/-! ## The nodes refine the queues -/

/-- The queues the nodes stand for: a producer's offsets from its cursor on, and none for a
producer without a node. -/
def abortedTxnsQueues (txns : List AbortedTxnStartOffsets) : OffsetQueues := fun pid =>
  match txns.find? (·.pid = pid) with
  | none => []
  | some n => n.offsets.drop n.offsetsIdx

/-- Changing nodes without changing their pids does not change which node a lookup finds. -/
theorem find?_map_of_pid {f : AbortedTxnStartOffsets → AbortedTxnStartOffsets}
    (hf : ∀ n, (f n).pid = n.pid) (txns : List AbortedTxnStartOffsets) (pid : BitVec 64) :
    (txns.map f).find? (·.pid = pid) = (txns.find? (·.pid = pid)).map f := by
  rw [List.find?_map]
  congr 2
  funext n
  simp [hf]

/-- Nothing is above `INT64_MAX`. -/
theorem int64Max_slt (x : BitVec 64) : int64Max.slt x = false := by
  have hmax : int64Max.toInt = 2 ^ 63 - 1 := by decide
  have hx := BitVec.toInt_lt (x := x)
  rw [BitVec.slt_eq_decide, decide_eq_false_iff_not, not_lt, hmax]
  norm_num at hx
  omega

theorem pid_of_find? {txns : List AbortedTxnStartOffsets} {pid : BitVec 64}
    {n : AbortedTxnStartOffsets} (h : txns.find? (·.pid = pid) = some n) : n.pid = pid := by
  simpa using List.find?_some h

theorem abortedTxnsGetOffset_refines (txns : List AbortedTxnStartOffsets) (pid : BitVec 64) :
    abortedTxnsGetOffset txns pid = (abortedTxnsQueues txns).get pid := by
  simp only [abortedTxnsGetOffset, abortedTxnsNextOffset, OffsetQueues.get, abortedTxnsQueues]
  cases txns.find? (·.pid = pid) with
  | none => rfl
  | some node =>
    dsimp only
    cases hg : node.offsets[node.offsetsIdx]? with
    | none => simp [List.drop_eq_nil_of_le (List.getElem?_eq_none_iff.1 hg)]
    | some start =>
      obtain ⟨hlt, hst⟩ := List.getElem?_eq_some_iff.1 hg
      rw [List.drop_eq_getElem_cons hlt, hst]
      simp [int64Max_slt]

theorem abortedTxnsPopOffset_refines (txns : List AbortedTxnStartOffsets)
    (pid maxOffset : BitVec 64) :
    Prod.map abortedTxnsQueues id (abortedTxnsPopOffset txns pid maxOffset) =
      (abortedTxnsQueues txns).pop pid maxOffset := by
  simp only [abortedTxnsPopOffset, abortedTxnsNextOffset, OffsetQueues.pop]
  cases hf : txns.find? (·.pid = pid) with
  | none => simp [abortedTxnsQueues, hf]
  | some node =>
    have hq : abortedTxnsQueues txns pid = node.offsets.drop node.offsetsIdx := by
      simp [abortedTxnsQueues, hf]
    simp only
    cases hg : node.offsets[node.offsetsIdx]? with
    | none => simp [hq, List.drop_eq_nil_of_le (List.getElem?_eq_none_iff.1 hg)]
    | some start =>
      obtain ⟨hlt, rfl⟩ := List.getElem?_eq_some_iff.1 hg
      rw [hq, List.drop_eq_getElem_cons hlt]
      by_cases hs : maxOffset.slt node.offsets[node.offsetsIdx]
      · have hle : ¬node.offsets[node.offsetsIdx].toInt ≤ maxOffset.toInt := by
          rw [BitVec.slt_eq_decide, decide_eq_true_eq] at hs
          omega
        simp [hs, hle]
      · have hle : node.offsets[node.offsetsIdx].toInt ≤ maxOffset.toInt := by
          rw [BitVec.slt_eq_decide, decide_eq_true_eq] at hs
          omega
        simp only [hs, hle, Bool.false_eq_true, if_false, if_true, Prod.map_apply, id_eq,
          Prod.mk.injEq, and_true]
        -- the cursor of `pid` moves on; the other producers keep theirs
        have hnp : node.pid = pid := pid_of_find? hf
        funext p
        simp only [abortedTxnsQueues]
        rw [find?_map_of_pid (fun n => by split <;> rfl)]
        by_cases hp : p = pid
        · subst hp
          simp [hf, hnp]
        · rw [Function.update_of_ne hp]
          cases hfp : txns.find? (·.pid = p) with
          | none => simp [abortedTxnsQueues, hfp]
          | some n =>
            have hnp' : n.pid = p := pid_of_find? hfp
            simp [abortedTxnsQueues, hfp, hnp', hp]

/-- **The nodes answer as the queues.**  Every run of get and pop calls on the nodes answers as
the same run on the queues they stand for. -/
theorem abortedTxnsCalls_refines :
    ∀ (cs : List AbortedTxnsCall) (txns : List AbortedTxnStartOffsets),
      abortedTxnsCalls txns cs = (abortedTxnsQueues txns).calls cs
  | [], _ => rfl
  | .getOffset pid :: cs, txns => by
    rw [abortedTxnsCalls, OffsetQueues.calls, abortedTxnsGetOffset_refines,
      abortedTxnsCalls_refines cs txns]
  | .popOffset pid maxOffset :: cs, txns => by
    have h := abortedTxnsPopOffset_refines txns pid maxOffset
    rw [abortedTxnsCalls, OffsetQueues.calls, ← h]
    exact congrArg _ (abortedTxnsCalls_refines cs _)

/-! ## Building the index -/

/-- The nodes after the adds `done`: every cursor is at the start, and each producer's
offsets are those added for it, in the order they were added. -/
structure AbortedTxns.Added (done : List (BitVec 64 × BitVec 64)) (t : AbortedTxns) : Prop where
  idx_zero : ∀ n ∈ t.list, n.offsetsIdx = 0
  offsets_eq : ∀ pid, ((t.list.find? (·.pid = pid)).map (·.offsets)).getD [] =
    (done.filter (·.1 = pid)).map (·.2)

theorem added_abortedTxnsNew (txnCnt : ℕ) : (abortedTxnsNew txnCnt).Added [] :=
  ⟨fun _ h => absurd h List.not_mem_nil, fun _ => rfl⟩

/-- One add, while fewer than `cnt` have been made, succeeds and records the offset. -/
theorem AbortedTxns.Added.add {done : List (BitVec 64 × BitVec 64)} {t : AbortedTxns}
    (h : t.Added done) (hlen : done.length < t.cnt) (pid firstOffset : BitVec 64) :
    ∃ t', abortedTxnsAdd t pid firstOffset = some t' ∧ t'.Added (done ++ [(pid, firstOffset)]) ∧
      t'.cnt = t.cnt := by
  have hfilter : ∀ p, ((done ++ [(pid, firstOffset)]).filter (·.1 = p)).map (·.2) =
      (done.filter (·.1 = p)).map (·.2) ++ if pid = p then [firstOffset] else [] := by
    intro p
    by_cases hp : pid = p <;> simp [hp]
  cases hf : t.list.find? (·.pid = pid) with
  | none =>
    -- a new node, appended to the list
    have hne : ([] : List (BitVec 64)).length ≠ t.cnt := by simp only [List.length_nil]; omega
    refine ⟨{ t with list := t.list ++ [⟨pid, 0, [firstOffset]⟩] },
      by rw [abortedTxnsAdd, hf]; dsimp only; rw [listAddFixed, if_neg hne]; rfl, ⟨?_, fun p => ?_⟩, rfl⟩
    · intro n hn
      rcases List.mem_append.1 hn with hn | hn
      · exact h.idx_zero n hn
      · rw [List.mem_singleton.1 hn]
    · rw [hfilter, ← h.offsets_eq p, List.find?_append]
      by_cases hp : pid = p
      · subst hp
        simp [hf]
      · simp [hp]
  | some node =>
    have hnode : node.offsets = (done.filter (·.1 = pid)).map (·.2) := by
      simpa [hf] using h.offsets_eq pid
    have hnp : node.pid = pid := pid_of_find? hf
    have hne : node.offsets.length ≠ t.cnt := by
      have hle : node.offsets.length ≤ done.length := by
        rw [hnode, List.length_map]
        exact List.length_filter_le _ _
      omega
    refine ⟨{ t with list := t.list.map fun n =>
        if n.pid = pid then { n with offsets := node.offsets ++ [firstOffset] } else n },
      by rw [abortedTxnsAdd, hf]; dsimp only; rw [listAddFixed, if_neg hne]; rfl, ⟨?_, fun p => ?_⟩, rfl⟩
    · intro n hn
      obtain ⟨m, hm, rfl⟩ := List.mem_map.1 hn
      split
      · exact h.idx_zero m hm
      · exact h.idx_zero m hm
    · rw [hfilter, ← h.offsets_eq p, find?_map_of_pid (fun n => by split <;> rfl)]
      by_cases hp : pid = p
      · subst hp
        simp [hf, hnode, hnp]
      · cases hfp : t.list.find? (·.pid = p) with
        | none => simp [hp]
        | some n =>
          have hnp : n.pid = p := pid_of_find? hfp
          simp [hnp, Ne.symm hp, hp]

theorem AbortedTxns.Added.addAll : ∀ (adds : List (BitVec 64 × BitVec 64))
    {done : List (BitVec 64 × BitVec 64)} {t : AbortedTxns}, t.Added done →
      done.length + adds.length ≤ t.cnt →
      ∃ t', abortedTxnsAddAll t adds = some t' ∧ t'.Added (done ++ adds)
  | [], done, t, h, _ => ⟨t, rfl, by rw [List.append_nil]; exact h⟩
  | (pid, firstOffset) :: adds, done, t, h, hlen => by
    obtain ⟨t₁, h₁, hadd, hcnt⟩ := h.add (by simp only [List.length_cons] at hlen; omega)
      pid firstOffset
    obtain ⟨t', h', hadd'⟩ := hadd.addAll adds (by
      simp only [List.length_append, List.length_cons, List.length_nil] at hlen ⊢
      omega)
    refine ⟨t', by rw [abortedTxnsAddAll, h₁, Option.bind_some, h'], ?_⟩
    simpa using hadd'

/-- After the sort, the nodes stand for the queues of the added offsets, each sorted. -/
theorem AbortedTxns.Added.queues_sort {adds : List (BitVec 64 × BitVec 64)} {t : AbortedTxns}
    (h : t.Added adds) : abortedTxnsQueues (abortedTxnsSort t).list = OffsetQueues.ofAdds adds := by
  funext pid
  have hoff := h.offsets_eq pid
  have hmap : (t.list.map fun n => { n with offsets := n.offsets.insertionSort OffsetLe }).find?
      (·.pid = pid) = (t.list.find? (·.pid = pid)).map fun n =>
        { n with offsets := n.offsets.insertionSort OffsetLe } :=
    find?_map_of_pid (f := fun n => { n with offsets := n.offsets.insertionSort OffsetLe })
      (fun _ => rfl) _ _
  simp only [abortedTxnsQueues, abortedTxnsSort, OffsetQueues.ofAdds]
  rw [hmap]
  cases hf : t.list.find? (·.pid = pid) with
  | none =>
    rw [hf] at hoff
    simp only [Option.map_none, Option.getD_none] at hoff
    rw [← hoff, List.insertionSort_nil]
    rfl
  | some n =>
    rw [hf] at hoff
    simp only [Option.map_some, Option.getD_some] at hoff
    -- the cursor is still at the start
    simp only [Option.map_some, h.idx_zero n (List.mem_of_find?_eq_some hf), List.drop_zero, hoff]

/-- **The aborted transactions index is a queue of sorted offsets per producer.**  The adds of
a response, at most `AbortedTxnCnt` of them, in any order and with producers repeated,
succeed.  After the sort, every run of get and pop calls answers as the queues of the added
offsets do, each producer's queue holding its offsets in ascending order; and the answers to
the calls on one producer are those of its calls alone. -/
theorem abortedTxns_refines_queues (txnCnt : ℕ) (adds : List (BitVec 64 × BitVec 64))
    (hcnt : adds.length ≤ txnCnt) :
    ∃ t, abortedTxnsAddAll (abortedTxnsNew txnCnt) adds = some t ∧
      (∀ cs, abortedTxnsCalls (abortedTxnsSort t).list cs = (OffsetQueues.ofAdds adds).calls cs) ∧
      (∀ pid : BitVec 64, (OffsetQueues.ofAdds adds pid).Pairwise (fun a b => a.toInt ≤ b.toInt) ∧
        (OffsetQueues.ofAdds adds pid).Perm ((adds.filter (·.1 = pid)).map (·.2))) ∧
      ∀ (cs : List AbortedTxnsCall) (pid : BitVec 64), ((cs.zip (abortedTxnsCalls (abortedTxnsSort t).list cs)).filter
          fun c => c.1.pid = pid).map (·.2) =
        abortedTxnsCalls (abortedTxnsSort t).list (cs.filter (·.pid = pid)) := by
  obtain ⟨t, ht, hadd⟩ := (added_abortedTxnsNew txnCnt).addAll adds
    (by rw [List.length_nil, Nat.zero_add]; exact hcnt)
  rw [List.nil_append] at hadd
  have hcalls : ∀ cs, abortedTxnsCalls (abortedTxnsSort t).list cs =
      (OffsetQueues.ofAdds adds).calls cs := fun cs => by
    rw [abortedTxnsCalls_refines, hadd.queues_sort]
  refine ⟨t, ht, hcalls, fun pid => ⟨OffsetQueues.ofAdds_sorted adds pid,
    OffsetQueues.ofAdds_perm adds pid⟩, fun cs pid => ?_⟩
  rw [hcalls, hcalls]
  exact OffsetQueues.queueCalls_filter_pid pid cs _

/-- The index of `unittest_aborted_txns`, seven adds for producers 1 and 2, answers the
calls of the test as the test expects. -/
theorem abortedTxns_refines_queues_unittest :
    ∃ t, abortedTxnsAddAll (abortedTxnsNew 7)
        [(1, 42), (1, 44), (1, 10), (1, 100), (2, 11), (2, 7), (1, 3)] = some t ∧
      abortedTxnsCalls (abortedTxnsSort t).list
          [.getOffset 1, .getOffset 1, .popOffset 1 int64Max, .getOffset 1, .getOffset 2,
            .popOffset 1 int64Max, .getOffset 1, .getOffset 3] =
        [3, 3, 3, 10, 7, 10, 42, -1] := by
  obtain ⟨t, ht, hcalls, -⟩ := abortedTxns_refines_queues 7
    [(1, 42), (1, 44), (1, 10), (1, 100), (2, 11), (2, 7), (1, 3)] (by decide)
  exact ⟨t, ht, by rw [hcalls]; decide +kernel⟩

/-! ## The pid index -/

/-- `rd_kafka_aborted_txn_cmp_by_pid`: `(a->pid > b->pid) - (a->pid < b->pid)` on the
`int64_t` pids. -/
def abortedTxnCmpByPid (a b : AbortedTxnStartOffsets) : Ordering :=
  compare a.pid.toInt b.pid.toInt

/-- `rd_kafka_aborted_txns_offsets_for_pid(aborted_txns, pid)`: `RD_AVL_FIND` in the tree of a
node that has only its pid set. -/
def abortedTxnsOffsetsForPid (avl : Avl AbortedTxnStartOffsets) (pid : BitVec 64) :
    Option AbortedTxnStartOffsets :=
  avlFind avl ⟨pid, 0, []⟩

/-- **One add keeps the pids distinct**: a node is appended only for a pid no node has. -/
theorem abortedTxnsAdd_pids_nodup {t t' : AbortedTxns} {pid firstOffset : BitVec 64}
    (h : abortedTxnsAdd t pid firstOffset = some t') (hl : (t.list.map (·.pid)).Nodup) :
    (t'.list.map (·.pid)).Nodup := by
  unfold abortedTxnsAdd at h
  cases hf : t.list.find? (·.pid = pid) with
  | none =>
    rw [hf] at h
    obtain ⟨offsets, -, rfl⟩ := Option.map_eq_some_iff.1 h
    have hnew : pid ∉ t.list.map (·.pid) := fun hmem => by
      obtain ⟨n, hn, hnp⟩ := List.mem_map.1 hmem
      simpa [hnp] using List.find?_eq_none.1 hf n hn
    -- the new node's pid goes after the others, none of which has it
    rw [List.map_append, List.map_singleton, List.nodup_append_comm, List.singleton_append]
    exact List.nodup_cons.2 ⟨hnew, hl⟩
  | some node =>
    rw [hf] at h
    obtain ⟨offsets, -, rfl⟩ := Option.map_eq_some_iff.1 h
    -- the node of `pid` gets the offset, and no pid changes
    have hpids : (t.list.map fun n => if n.pid = pid then { n with offsets } else n).map (·.pid) =
        t.list.map (·.pid) := by
      rw [List.map_map]
      exact List.map_congr_left fun n _ => by by_cases hn : n.pid = pid <;> simp [hn]
    rw [hpids]
    exact hl

/-- The adds of a response keep the pids distinct. -/
theorem abortedTxnsAddAll_pids_nodup : ∀ (adds : List (BitVec 64 × BitVec 64)) {t t' : AbortedTxns},
    abortedTxnsAddAll t adds = some t' → (t.list.map (·.pid)).Nodup → (t'.list.map (·.pid)).Nodup
  | [], _, _, h, hl => by
    cases h
    exact hl
  | (pid, firstOffset) :: adds, t, t', h, hl => by
    obtain ⟨t₁, h₁, h⟩ := Option.bind_eq_some_iff.1 h
    exact abortedTxnsAddAll_pids_nodup adds h (abortedTxnsAdd_pids_nodup h₁ hl)

theorem abortedTxnsSort_pids (t : AbortedTxns) :
    (abortedTxnsSort t).list.map (·.pid) = t.list.map (·.pid) := by
  simp [abortedTxnsSort]

/-- A tree built by inserting nodes with distinct pids finds for every pid the node `find?`
finds. -/
theorem abortedTxnsOffsetsForPid_run {l : List AbortedTxnStartOffsets}
    (hl : (l.map (·.pid)).Nodup) {fuel : ℕ} {avl : Avl AbortedTxnStartOffsets}
    (hr : avlRun fuel (avlInit abortedTxnCmpByPid) (l.map .insert) = some avl) (pid : BitVec 64) :
    abortedTxnsOffsetsForPid avl pid = l.find? (·.pid = pid) := by
  -- the comparator orders the nodes by the pid as an integer, which tells the pids apart
  have hkeys : (l.map fun n => n.pid.toInt).Nodup := by
    have h := hl.map fun (a b : BitVec 64) (h : a.toInt = b.toInt) => BitVec.toInt_inj.1 h
    rwa [List.map_map] at h
  rw [abortedTxnsOffsetsForPid, avlFind_run hr, lastWrite_map_insert, List.keyFind_reverse hkeys]
  simp [List.keyFind, BitVec.toInt_inj]

/-- **The pid tree finds what `find?` finds.**  After any adds of a response, and after the
sort as well, a tree built by `rd_avl_insert` of the nodes under
`rd_kafka_aborted_txn_cmp_by_pid` answers `rd_kafka_aborted_txns_offsets_for_pid` for every
pid with the node the model's `find?` on `list` returns, and `NULL` where there is none. -/
theorem abortedTxnsOffsetsForPid_refines {txnCnt : ℕ} {adds : List (BitVec 64 × BitVec 64)}
    {t : AbortedTxns} (ht : abortedTxnsAddAll (abortedTxnsNew txnCnt) adds = some t)
    {l : List AbortedTxnStartOffsets} (hl : l = t.list ∨ l = (abortedTxnsSort t).list)
    {fuel : ℕ} {avl : Avl AbortedTxnStartOffsets}
    (hr : avlRun fuel (avlInit abortedTxnCmpByPid) (l.map .insert) = some avl) (pid : BitVec 64) :
    abortedTxnsOffsetsForPid avl pid = l.find? (·.pid = pid) := by
  have hnodup : (t.list.map (·.pid)).Nodup :=
    abortedTxnsAddAll_pids_nodup adds ht List.nodup_nil
  have hpids : (l.map (·.pid)).Nodup := by
    rcases hl with rfl | rfl
    · exact hnodup
    · rw [abortedTxnsSort_pids]
      exact hnodup
  exact abortedTxnsOffsetsForPid_run hpids hr pid

/-- Adds for producers 1, 2 and 1 again: after the sort, the tree of the two nodes finds the
node of producer 1 with its offsets in order. -/
theorem abortedTxnsOffsetsForPid_sorted_node :
    abortedTxnsAddAll (abortedTxnsNew 7) [(1, 42), (2, 11), (1, 3)] =
        some ⟨[⟨1, 0, [42, 3]⟩, ⟨2, 0, [11]⟩], 7⟩ ∧
      ∃ avl, avlRun 2 (avlInit abortedTxnCmpByPid)
          ((abortedTxnsSort ⟨[⟨1, 0, [42, 3]⟩, ⟨2, 0, [11]⟩], 7⟩).list.map .insert) = some avl ∧
        abortedTxnsOffsetsForPid avl 1 = some ⟨1, 0, [3, 42]⟩ := by
  have ht : abortedTxnsAddAll (abortedTxnsNew 7) [(1, 42), (2, 11), (1, 3)] =
      some ⟨[⟨1, 0, [42, 3]⟩, ⟨2, 0, [11]⟩], 7⟩ := by decide
  obtain ⟨avl, hr⟩ := Option.isSome_iff_exists.1 (by decide : (avlRun 2
    (avlInit abortedTxnCmpByPid)
      ((abortedTxnsSort ⟨[⟨1, 0, [42, 3]⟩, ⟨2, 0, [11]⟩], 7⟩).list.map .insert)).isSome)
  refine ⟨ht, avl, hr, ?_⟩
  rw [abortedTxnsOffsetsForPid_refines ht (.inr rfl) hr 1]
  decide

end Rdkafka
