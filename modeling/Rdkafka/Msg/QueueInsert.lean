import Rdkafka.Msg.Queue

/-!
# The chunked queue merge is a sorted merge

`rd_kafka_msgq_insert_msgq` does not insert the messages of `srcq` one at a time: it finds
where the head of `srcq` goes in `destq`, moves the longest run of `srcq` that fits there
in one piece, and repeats from where it stopped.  This file proves that, on two queues
sorted by message id with no id in common, the result is the queue that sorted insertion
of each message with `rd_kafka_msgq_enq_sorted0` would build, with consistent counters.

The proof is in three layers.

* What one pass can do, for any comparator (`msgqInsertMsgqBefore_cases`), and what every
  pass keeps: the messages, the sums of the counters over both queues, and that an
  emptied `srcq` has zero counters (`insertMsgqLoop_conserves`).  The intermediate byte
  counters are wrong, because `rd_kafka_msgq_find_pos` sums the size of the message being
  placed instead of the scanned ones, but only the two queues' sum is ever used and the
  errors cancel in it.
* What every pass keeps when the order is `rd_kafka_msg_cmp_msgid` (`MergeInv`): both
  queues sorted, their ids disjoint, and everything in `destq` before `start_pos` below the
  head of `srcq`, which is what makes the scan from `start_pos` find the right place.
* Two lists sorted by a strict key that hold the same messages are equal
  (`List.KeySorted.eq_of_perm`), so the result is the element-wise sorted insertion.
-/

namespace Rdkafka

open List

section Cmp

variable (cmp : Msg → Msg → ℤ)

/-! ## The insert-position scan -/

/-- A successful scan stops `k` elements further on, at an element that `rkm` compares
below, after passing only elements it does not; the byte sum has grown by `k` times the
size of `rkm`. -/
theorem findPosFrom_eq_some {rkm : Msg} {l : List Msg} {cnt c : ℕ} {bytes b : ℤ}
    (h : findPosFrom cmp rkm l cnt bytes = some (c, b)) :
    ∃ k, c = cnt + k ∧ b = bytes + k * rkm.size ∧ ∃ hk : k < l.length,
      cmp rkm l[k] < 0 ∧ ∀ y ∈ l.take k, ¬ cmp rkm y < 0 := by
  induction l generalizing cnt bytes with
  | nil => simp [findPosFrom] at h
  | cons curr rest ih =>
    simp only [findPosFrom] at h
    split_ifs at h with hlt
    · cases h
      exact ⟨0, by simp, by simp, by simp, hlt, by simp⟩
    · obtain ⟨k, hc, hb, hk, hcmp, hpass⟩ := ih h
      refine ⟨k + 1, by omega, by rw [hb]; push_cast; ring, by simpa using hk, by simpa using hcmp, ?_⟩
      intro y hy
      rw [take_succ_cons, mem_cons] at hy
      rcases hy with rfl | hy
      · exact hlt
      · exact hpass y hy

/-- A scan that finds nothing passed only elements that `rkm` does not compare below. -/
theorem findPosFrom_eq_none {rkm : Msg} {l : List Msg} {cnt : ℕ} {bytes : ℤ}
    (h : findPosFrom cmp rkm l cnt bytes = none) : ∀ y ∈ l, ¬ cmp rkm y < 0 := by
  induction l generalizing cnt bytes with
  | nil => simp
  | cons curr rest ih =>
    simp only [findPosFrom] at h
    split_ifs at h with hlt
    intro y hy
    rcases mem_cons.1 hy with rfl | hy
    · exact hlt
    · exact ih h y hy

theorem msgqFindPos_eq_some {q : Msgq} {sp : Option ℕ} {rkm : Msg} {p c : ℕ} {b : ℤ}
    (h : msgqFindPos cmp q sp rkm = some (p, c, b)) :
    p = sp.getD 0 + c ∧ b = c * rkm.size ∧ ∃ hp : p < q.msgs.length,
      cmp rkm q.msgs[p] < 0 ∧ ∀ y ∈ (q.msgs.drop (sp.getD 0)).take c, ¬ cmp rkm y < 0 := by
  unfold msgqFindPos at h
  obtain ⟨⟨c', b'⟩, hf, he⟩ := Option.map_eq_some_iff.1 h
  simp only [Prod.mk.injEq] at he
  obtain ⟨rfl, rfl, rfl⟩ := he
  obtain ⟨k, rfl, rfl, hk, hcmp, hpass⟩ := findPosFrom_eq_some cmp hf
  refine ⟨by simp, by simp, ?_⟩
  have hp : sp.getD 0 + k < q.msgs.length := by
    rw [length_drop] at hk
    omega
  refine ⟨by simpa using hp, ?_, by simpa using hpass⟩
  simpa [getElem_drop] using hcmp

theorem msgqFindPos_eq_none {q : Msgq} {sp : Option ℕ} {rkm : Msg}
    (h : msgqFindPos cmp q sp rkm = none) : ∀ y ∈ q.msgs.drop (sp.getD 0), ¬ cmp rkm y < 0 := by
  unfold msgqFindPos at h
  exact findPosFrom_eq_none cmp (Option.map_eq_none_iff.1 h)

/-- A scan finds a position as soon as some element of the list sorts after `rkm`. -/
theorem findPosFrom_isSome {rkm : Msg} {l : List Msg} (cnt : ℕ) (bytes : ℤ) {y : Msg}
    (hy : y ∈ l) (hlt : cmp rkm y < 0) : ∃ r, findPosFrom cmp rkm l cnt bytes = some r := by
  cases hf : findPosFrom cmp rkm l cnt bytes with
  | none => exact absurd hlt (findPosFrom_eq_none cmp hf y hy)
  | some r => exact ⟨r, rfl⟩

/-! ## What one pass of the merge can do -/

@[simp] theorem insertRunBefore_dest (destq : Msgq) (p : ℕ) (srcq tmpq : Msgq) :
    (insertRunBefore destq p srcq tmpq).1 =
      ⟨tailqInsertListBefore destq.msgs p srcq.msgs, destq.msgCnt + srcq.msgCnt,
        destq.msgBytes + srcq.msgBytes⟩ := rfl

@[simp] theorem insertRunBefore_src (destq : Msgq) (p : ℕ) (srcq tmpq : Msgq) :
    (insertRunBefore destq p srcq tmpq).2.1 = tmpq := rfl

@[simp] theorem insertRunBefore_pos (destq : Msgq) (p : ℕ) (srcq tmpq : Msgq) :
    (insertRunBefore destq p srcq tmpq).2.2 = some (p + srcq.msgs.length) := rfl

/-- The three things a successful pass of `rd_kafka_msgq_insert_msgq_before` can do:
append all of `srcq` when there is no insert position; insert all of `srcq` before
`insert_before` when the last message of `srcq` does not sort after it; or split `srcq`
at the first message `k > 0` that sorts after `insert_before` and insert the part before
it, with the split counters set from the scan. -/
theorem msgqInsertMsgqBefore_cases {destq srcq : Msgq} {ib : Option ℕ}
    {r : Msgq × Msgq × Option ℕ} (h : msgqInsertMsgqBefore cmp destq ib srcq = some r) :
    (ib = none ∧ r = ((msgqConcat destq srcq).1, msgqInit, none)) ∨
    (∃ p x slast, ib = some p ∧ destq.msgs[p]? = some x ∧ srcq.msgs.getLast? = some slast ∧
      ¬ 0 < cmp slast x ∧ r = insertRunBefore destq p srcq msgqInit) ∨
    (∃ p x k, ib = some p ∧ destq.msgs[p]? = some x ∧ 0 < k ∧
      (∃ hk : k < srcq.msgs.length, cmp x srcq.msgs[k] < 0) ∧
      (∀ y ∈ srcq.msgs.take k, ¬ cmp x y < 0) ∧
      r = insertRunBefore destq p ⟨srcq.msgs.take k, k, k * x.size⟩
        ⟨srcq.msgs.drop k, srcq.msgCnt - k, srcq.msgBytes - k * x.size⟩) := by
  unfold msgqInsertMsgqBefore at h
  split at h
  · cases h
    exact .inl ⟨rfl, rfl⟩
  · rename_i p
    split at h
    · rename_i slast x hlast hx
      split_ifs at h with hgt
      · split at h
        · cases h
        · rename_i newSfirst cnt bytes hfind
          obtain ⟨rfl, rfl, hk, hcmp, hpass⟩ := msgqFindPos_eq_some cmp hfind
          split at h
          · cases h
          · rename_i left tmpq hsplit
            unfold msgqSplit at hsplit
            split_ifs at hsplit with h0
            cases hsplit
            cases h
            refine .inr (.inr ⟨p, x, cnt, rfl, hx, by simp at h0 ⊢; omega, ⟨by simpa using hk,
              by simpa using hcmp⟩, by simpa using hpass, ?_⟩)
            simp
      · cases h
        exact .inr (.inl ⟨p, x, slast, rfl, hx, hlast, hgt, rfl⟩)
    · cases h

/-- One pass keeps the messages of the two queues, the sums of their counters, and leaves
an emptied `srcq` with zero counters. -/
theorem msgqInsertMsgqBefore_conserves {destq srcq : Msgq} {ib : Option ℕ}
    {r : Msgq × Msgq × Option ℕ} (h : msgqInsertMsgqBefore cmp destq ib srcq = some r) :
    r.1.msgs ++ r.2.1.msgs ~ destq.msgs ++ srcq.msgs ∧
      r.1.msgCnt + r.2.1.msgCnt = destq.msgCnt + srcq.msgCnt ∧
      r.1.msgBytes + r.2.1.msgBytes = destq.msgBytes + srcq.msgBytes ∧
      (r.2.1.msgs = [] → r.2.1.msgCnt = 0 ∧ r.2.1.msgBytes = 0) := by
  rcases msgqInsertMsgqBefore_cases cmp h with ⟨-, rfl⟩ | ⟨p, x, -, -, -, -, -, rfl⟩ |
      ⟨p, x, k, -, -, -, ⟨hk, -⟩, -, rfl⟩
  · simp [msgqConcat, msgqInit]
  · simpa [msgqInit] using tailqInsertListBefore_perm destq.msgs p srcq.msgs
  · refine ⟨?_, by simp, by simp, fun hnil => ?_⟩
    · have h := (tailqInsertListBefore_perm destq.msgs p (srcq.msgs.take k)).append_right
        (srcq.msgs.drop k)
      simpa [List.append_assoc] using h
    · simp only [insertRunBefore_src, drop_eq_nil_iff] at hnil
      omega

/-- Only the sum of the two counters is kept: each half of a split carries the scan's
`cnt * size(insert_before)`, not its own messages' sizes.  Here `srcq` holds ids 1 and 3 of
one byte each and `insert_before` is id 2 of ten bytes: the scan passes id 1 and reports
ten bytes for it, so the run moved into `destq` is counted as ten bytes and the rest of
`srcq` as minus eight. -/
theorem msgqInsertMsgqBefore_split_bytes_wrong :
    Msgq.Valid ⟨[⟨2, 10, 0⟩], 1, 10⟩ ∧ Msgq.Valid ⟨[⟨1, 1, 0⟩, ⟨3, 1, 0⟩], 2, 2⟩ ∧
    msgqFindPos msgCmpMsgid ⟨[⟨1, 1, 0⟩, ⟨3, 1, 0⟩], 2, 2⟩ none ⟨2, 10, 0⟩ = some (1, 1, 10) ∧
    msgsBytes [⟨1, 1, 0⟩] = 1 ∧
    msgqSplit ⟨[⟨1, 1, 0⟩, ⟨3, 1, 0⟩], 2, 2⟩ 1 1 10 =
      some (⟨[⟨1, 1, 0⟩], 1, 10⟩, ⟨[⟨3, 1, 0⟩], 1, -8⟩) ∧
    ¬ Msgq.Valid ⟨[⟨1, 1, 0⟩], 1, 10⟩ ∧ ¬ Msgq.Valid ⟨[⟨3, 1, 0⟩], 1, -8⟩ ∧
    msgqInsertMsgqBefore msgCmpMsgid ⟨[⟨2, 10, 0⟩], 1, 10⟩ (some 0)
        ⟨[⟨1, 1, 0⟩, ⟨3, 1, 0⟩], 2, 2⟩ =
      some (⟨[⟨1, 1, 0⟩, ⟨2, 10, 0⟩], 2, 20⟩, ⟨[⟨3, 1, 0⟩], 1, -8⟩, some 1) := by
  decide

/-! ## The merge loop -/

theorem insertMsgqLoop_nil {destq srcq : Msgq} {sp : Option ℕ} (hs : srcq.msgs = []) :
    insertMsgqLoop cmp destq srcq sp = some (destq, srcq) := by
  rw [insertMsgqLoop]
  split
  · rfl
  · simp_all

theorem insertMsgqLoop_cons {destq srcq : Msgq} {sp : Option ℕ} {sfirst : Msg}
    {tail : List Msg} (hs : srcq.msgs = sfirst :: tail) :
    insertMsgqLoop cmp destq srcq sp =
      (msgqInsertMsgqBefore cmp destq ((msgqFindPos cmp destq sp sfirst).map (·.1)) srcq).bind
        fun r => insertMsgqLoop cmp r.1 r.2.1 r.2.2 := by
  rw [insertMsgqLoop]
  split
  · simp_all
  · rename_i sfirst' tail' hs'
    obtain ⟨rfl, rfl⟩ : sfirst' = sfirst ∧ tail' = tail := by simpa [hs] using hs'.symm
    dsimp only
    split <;> simp_all

/-- The invariant rule of the merge loop: a property of the loop state that every pass
keeps holds when the loop ends, and the loop only ends with `srcq` empty. -/
theorem insertMsgqLoop_inv (P : Msgq → Msgq → Option ℕ → Prop)
    (hstep : ∀ d s sp sfirst tail r, s.msgs = sfirst :: tail → P d s sp →
      msgqInsertMsgqBefore cmp d ((msgqFindPos cmp d sp sfirst).map (·.1)) s = some r →
      P r.1 r.2.1 r.2.2)
    {destq srcq destq' srcq' : Msgq} {sp : Option ℕ}
    (h : insertMsgqLoop cmp destq srcq sp = some (destq', srcq')) (hP : P destq srcq sp) :
    ∃ sp', P destq' srcq' sp' ∧ srcq'.msgs = [] := by
  induction destq, srcq, sp using insertMsgqLoop.induct cmp with
  | case1 d s sp hs =>
    rw [insertMsgqLoop_nil cmp hs] at h
    cases h
    exact ⟨sp, hP, hs⟩
  | case2 d s sp sfirst tail hs ib hnone =>
    simp only [ib] at hnone
    rw [insertMsgqLoop_cons cmp hs, hnone] at h
    cases h
  | case3 d s sp sfirst tail hs ib d1 s1 sp1 hsome ih =>
    simp only [ib] at hsome
    rw [insertMsgqLoop_cons cmp hs, hsome] at h
    exact ih h (hstep d s sp sfirst tail _ hs hP hsome)

/-- The progress rule of the merge loop: when every pass from a state with property `P`
succeeds and keeps `P`, the loop succeeds. -/
theorem insertMsgqLoop_progress (P : Msgq → Msgq → Option ℕ → Prop)
    (hprog : ∀ d s sp sfirst tail, s.msgs = sfirst :: tail → P d s sp →
      ∃ r, msgqInsertMsgqBefore cmp d ((msgqFindPos cmp d sp sfirst).map (·.1)) s = some r)
    (hstep : ∀ d s sp sfirst tail r, s.msgs = sfirst :: tail → P d s sp →
      msgqInsertMsgqBefore cmp d ((msgqFindPos cmp d sp sfirst).map (·.1)) s = some r →
      P r.1 r.2.1 r.2.2)
    {destq srcq : Msgq} {sp : Option ℕ} (hP : P destq srcq sp) :
    ∃ r, insertMsgqLoop cmp destq srcq sp = some r := by
  induction destq, srcq, sp using insertMsgqLoop.induct cmp with
  | case1 d s sp hs => exact ⟨_, insertMsgqLoop_nil cmp hs⟩
  | case2 d s sp sfirst tail hs ib hnone =>
    simp only [ib] at hnone
    obtain ⟨r, hr⟩ := hprog d s sp sfirst tail hs hP
    rw [hnone] at hr
    cases hr
  | case3 d s sp sfirst tail hs ib d1 s1 sp1 hsome ih =>
    simp only [ib] at hsome
    rw [insertMsgqLoop_cons cmp hs, hsome]
    exact ih (hstep d s sp sfirst tail _ hs hP hsome)

/-- The loop keeps the messages and the counter sums of the two queues, and ends with an
empty `srcq` whose counters are zero. -/
theorem insertMsgqLoop_conserves {destq srcq destq' srcq' : Msgq} {sp : Option ℕ}
    (h : insertMsgqLoop cmp destq srcq sp = some (destq', srcq'))
    (hs0 : srcq.msgs = [] → srcq.msgCnt = 0 ∧ srcq.msgBytes = 0) :
    srcq' = msgqInit ∧ destq'.msgs ~ destq.msgs ++ srcq.msgs ∧
      destq'.msgCnt = destq.msgCnt + srcq.msgCnt ∧
      destq'.msgBytes = destq.msgBytes + srcq.msgBytes := by
  let P : Msgq → Msgq → Option ℕ → Prop := fun d s _ =>
    d.msgs ++ s.msgs ~ destq.msgs ++ srcq.msgs ∧ d.msgCnt + s.msgCnt = destq.msgCnt + srcq.msgCnt ∧
      d.msgBytes + s.msgBytes = destq.msgBytes + srcq.msgBytes ∧
      (s.msgs = [] → s.msgCnt = 0 ∧ s.msgBytes = 0)
  have hstep : ∀ d s sp sfirst tail r, s.msgs = sfirst :: tail → P d s sp →
      msgqInsertMsgqBefore cmp d ((msgqFindPos cmp d sp sfirst).map (·.1)) s = some r →
      P r.1 r.2.1 r.2.2 := by
    rintro d s sp sfirst tail r - ⟨hperm, hcnt, hbytes, -⟩ hr
    obtain ⟨hperm', hcnt', hbytes', hzero⟩ := msgqInsertMsgqBefore_conserves cmp hr
    exact ⟨hperm'.trans hperm, hcnt'.trans hcnt, hbytes'.trans hbytes, hzero⟩
  obtain ⟨-, ⟨hperm, hcnt, hbytes, hzero⟩, hnil⟩ :=
    insertMsgqLoop_inv cmp P hstep h ⟨Perm.refl _, rfl, rfl, hs0⟩
  obtain ⟨hc0, hb0⟩ := hzero hnil
  refine ⟨?_, by simpa [hnil] using hperm, by omega, by omega⟩
  obtain ⟨msgs, cnt, bytes⟩ := srcq'
  simp only at hnil hc0 hb0
  simp [msgqInit, hnil, hc0, hb0]

end Cmp

/-! ## Ordering by message id -/

/-- The merge invariant for `rd_kafka_msg_cmp_msgid`: both queues sorted by message id,
no id in both, and every message of `destq` before `start_pos` below every message of
`srcq`.  The last part is what lets `rd_kafka_msgq_find_pos` skip the head of `destq`. -/
structure MergeInv (destq srcq : Msgq) (startPos : Option ℕ) : Prop where
  dest_sorted : KeySorted Msg.msgid destq.msgs
  src_sorted : KeySorted Msg.msgid srcq.msgs
  disjoint : KeysDisjoint Msg.msgid destq.msgs srcq.msgs
  before_start : KeysBelow Msg.msgid (destq.msgs.take (startPos.getD 0)) srcq.msgs

theorem mergeInv_of_src_nil {destq srcq : Msgq} {sp : Option ℕ}
    (hd : KeySorted Msg.msgid destq.msgs) (hs : srcq.msgs = []) : MergeInv destq srcq sp :=
  ⟨hd, by simp [hs], by simp [hs, KeysDisjoint], by simp [hs, KeysBelow]⟩

/-- Everything in `destq` before the insert position found for the head of `srcq` is
below all of `srcq`: below `start_pos` by the invariant, and from there on because the
scan passed it. -/
theorem MergeInv.below_findPos {destq srcq : Msgq} {sp : Option ℕ} {sfirst : Msg}
    {tail : List Msg} (hI : MergeInv destq srcq sp) (hs : srcq.msgs = sfirst :: tail) {p : ℕ}
    (hib : (msgqFindPos msgCmpMsgid destq sp sfirst).map (·.1) = some p) :
    KeysBelow Msg.msgid (destq.msgs.take p) srcq.msgs := by
  obtain ⟨⟨p', c, b⟩, hf, rfl⟩ := Option.map_eq_some_iff.1 hib
  obtain ⟨rfl, -, -, -, hpass⟩ := msgqFindPos_eq_some msgCmpMsgid hf
  rw [take_add]
  refine hI.before_start.append_left ?_
  rw [hs]
  refine KeysBelow.of_head (fun y hy => ?_) (hs ▸ hI.src_sorted)
  have hle : y.msgid ≤ sfirst.msgid := not_lt.1 fun h => hpass y hy (msgCmpMsgid_neg_iff.2 h)
  have hne : y.msgid ≠ sfirst.msgid :=
    hI.disjoint y (mem_of_mem_drop (mem_of_mem_take hy)) sfirst (by simp [hs])
  exact lt_of_le_of_ne hle hne

/-- When no insert position is found, all of `destq` is below all of `srcq`. -/
theorem MergeInv.below_of_findPos_none {destq srcq : Msgq} {sp : Option ℕ} {sfirst : Msg}
    {tail : List Msg} (hI : MergeInv destq srcq sp) (hs : srcq.msgs = sfirst :: tail)
    (hf : msgqFindPos msgCmpMsgid destq sp sfirst = none) :
    KeysBelow Msg.msgid destq.msgs srcq.msgs := by
  have hpass := msgqFindPos_eq_none msgCmpMsgid hf
  rw [← take_append_drop (sp.getD 0) destq.msgs]
  refine hI.before_start.append_left ?_
  rw [hs]
  refine KeysBelow.of_head (fun y hy => ?_) (hs ▸ hI.src_sorted)
  have hle : y.msgid ≤ sfirst.msgid := not_lt.1 fun h => hpass y hy (msgCmpMsgid_neg_iff.2 h)
  have hne : y.msgid ≠ sfirst.msgid :=
    hI.disjoint y (mem_of_mem_drop hy) sfirst (by simp [hs])
  exact lt_of_le_of_ne hle hne

/-- The part of `destq` from position `p` on is above anything below its element `x` at
`p`. -/
theorem keysBelow_drop_of_getElem? {d s : List Msg} {p : ℕ} {x : Msg}
    (hd : KeySorted Msg.msgid d) (hx : d[p]? = some x) (hs : ∀ a ∈ s, a.msgid < x.msgid) :
    KeysBelow Msg.msgid s (d.drop p) := by
  obtain ⟨hp, rfl⟩ := List.getElem?_eq_some_iff.1 hx
  have hdrop := hd.drop p
  rw [drop_eq_getElem_cons hp] at hdrop ⊢
  exact KeysBelow.of_head hs hdrop

/-- **Every pass keeps the merge invariant.** -/
theorem MergeInv.step {destq srcq : Msgq} {sp : Option ℕ} {sfirst : Msg} {tail : List Msg}
    {r : Msgq × Msgq × Option ℕ} (hI : MergeInv destq srcq sp) (hs : srcq.msgs = sfirst :: tail)
    (h : msgqInsertMsgqBefore msgCmpMsgid destq
      ((msgqFindPos msgCmpMsgid destq sp sfirst).map (·.1)) srcq = some r) :
    MergeInv r.1 r.2.1 r.2.2 := by
  rcases msgqInsertMsgqBefore_cases msgCmpMsgid h with ⟨hib, rfl⟩ | ⟨p, x, slast, hib, hx, hlast,
      hgt, rfl⟩ | ⟨p, x, k, hib, hx, hk0, ⟨hk, hxk⟩, hrun, rfl⟩
  · -- no insert position: srcq is appended
    have hbelow := hI.below_of_findPos_none hs (Option.map_eq_none_iff.1 hib)
    exact mergeInv_of_src_nil (keySorted_append.2 ⟨hI.dest_sorted, hI.src_sorted, hbelow⟩) rfl
  all_goals
    have hlo := hI.below_findPos hs hib
    have hxd : x ∈ destq.msgs := mem_of_getElem? hx
  · -- all of srcq goes in front of insert_before
    have hsx : ∀ a ∈ srcq.msgs, a.msgid < x.msgid := by
      intro a ha
      have hle : a.msgid ≤ slast.msgid := hI.src_sorted.le_of_getLast? hlast a ha
      have hsl : slast.msgid ≤ x.msgid := not_lt.1 fun h' => hgt (msgCmpMsgid_pos_iff.2 h')
      have hne : x.msgid ≠ slast.msgid := hI.disjoint x hxd slast (mem_of_getLast? hlast)
      exact lt_of_le_of_ne (le_trans hle hsl) (fun h' => hne (by omega))
    exact mergeInv_of_src_nil (hI.dest_sorted.insert_run hI.src_sorted p hlo
      (keysBelow_drop_of_getElem? hI.dest_sorted hx hsx)) rfl
  · -- srcq is split before its first message after insert_before
    have hrunx : ∀ a ∈ srcq.msgs.take k, a.msgid < x.msgid := by
      intro a ha
      have hle : a.msgid ≤ x.msgid := not_lt.1 fun h' => hrun a ha (msgCmpMsgid_neg_iff.2 h')
      have hne : x.msgid ≠ a.msgid := hI.disjoint x hxd a (mem_of_mem_take ha)
      exact lt_of_le_of_ne hle (fun h' => hne h'.symm)
    have hpd : p < destq.msgs.length := (List.getElem?_eq_some_iff.1 hx).1
    have hsplit := hI.src_sorted.keysBelow_take_drop k
    refine ⟨?_, hI.src_sorted.drop k, ?_, ?_⟩
    · exact hI.dest_sorted.insert_run (hI.src_sorted.take k) p
        (hlo.mono (fun _ h => h) (take_subset _ _))
        (keysBelow_drop_of_getElem? hI.dest_sorted hx hrunx)
    · intro a ha b hb
      rcases mem_append.1 ha with ha | ha
      · rcases mem_append.1 ha with ha | ha
        · exact hI.disjoint a (mem_of_mem_take ha) b (mem_of_mem_drop hb)
        · exact ne_of_lt (hsplit a ha b hb)
      · exact hI.disjoint a (mem_of_mem_drop ha) b (mem_of_mem_drop hb)
    · have hlen : (destq.msgs.take p ++ srcq.msgs.take k).length = p + k := by
        simp only [length_append, length_take_of_le (le_of_lt hpd), length_take_of_le (le_of_lt hk)]
      have hklen : (srcq.msgs.take k).length = k := length_take_of_le (le_of_lt hk)
      simp only [insertRunBefore_dest, insertRunBefore_src, insertRunBefore_pos,
        Option.getD_some, tailqInsertListBefore, hklen]
      rw [take_left' hlen]
      exact (hlo.mono (fun _ h => h) (drop_subset _ _)).append_left hsplit

/-- With message ids, a pass of the loop never fails: the split point it looks for exists,
since the last message of `srcq` sorts after `insert_before`, and it is not the head of
`srcq`, since the head sorts before `insert_before`. -/
theorem msgqInsertMsgqBefore_msgid_isSome {destq srcq : Msgq} {sp : Option ℕ} {sfirst : Msg} {tail : List Msg}
    (hs : srcq.msgs = sfirst :: tail) :
    ∃ r, msgqInsertMsgqBefore msgCmpMsgid destq
      ((msgqFindPos msgCmpMsgid destq sp sfirst).map (·.1)) srcq = some r := by
  cases hf : msgqFindPos msgCmpMsgid destq sp sfirst with
  | none => exact ⟨_, rfl⟩
  | some f =>
    obtain ⟨p, c, b⟩ := f
    obtain ⟨-, -, hp, hcmp, -⟩ := msgqFindPos_eq_some msgCmpMsgid hf
    obtain ⟨slast, hlast⟩ : ∃ z, srcq.msgs.getLast? = some z := by
      cases hl : srcq.msgs.getLast? with
      | none => simp [hs] at hl
      | some z => exact ⟨z, rfl⟩
    simp only [Option.map_some, msgqInsertMsgqBefore, hlast, getElem?_eq_getElem hp]
    split_ifs with hgt
    · have hxs : msgCmpMsgid destq.msgs[p] slast < 0 :=
        msgCmpMsgid_neg_iff.2 (msgCmpMsgid_pos_iff.1 hgt)
      obtain ⟨⟨c', b'⟩, hf'⟩ := findPosFrom_isSome msgCmpMsgid 0 0 (mem_of_getLast? hlast) hxs
      have hc' : c' ≠ 0 := by
        rintro rfl
        obtain ⟨k, hk0, -, hk, hcmpk, -⟩ := findPosFrom_eq_some msgCmpMsgid hf'
        obtain rfl : k = 0 := by omega
        have h1 := msgCmpMsgid_neg_iff.1 hcmp
        have h2 := msgCmpMsgid_neg_iff.1 hcmpk
        simp [hs] at h2
        omega
      simp [msgqFindPos, hf', msgqSplit, hc']
    · exact ⟨_, rfl⟩

/-- With message ids the loop succeeds and ends with `destq` sorted. -/
theorem insertMsgqLoop_msgid {destq srcq : Msgq} {sp : Option ℕ} (hI : MergeInv destq srcq sp) :
    ∃ destq' srcq', insertMsgqLoop msgCmpMsgid destq srcq sp = some (destq', srcq') ∧
      KeySorted Msg.msgid destq'.msgs := by
  have hstep : ∀ d s sp sfirst tail r, s.msgs = sfirst :: tail → MergeInv d s sp →
      msgqInsertMsgqBefore msgCmpMsgid d ((msgqFindPos msgCmpMsgid d sp sfirst).map (·.1)) s =
        some r → MergeInv r.1 r.2.1 r.2.2 :=
    fun _ _ _ _ _ _ hs hI hr => hI.step hs hr
  obtain ⟨⟨destq', srcq'⟩, hloop⟩ := insertMsgqLoop_progress msgCmpMsgid MergeInv
    (fun _ _ _ _ _ hs _ => msgqInsertMsgqBefore_msgid_isSome hs) hstep hI
  obtain ⟨_, hI', -⟩ := insertMsgqLoop_inv msgCmpMsgid MergeInv hstep hloop hI
  exact ⟨destq', srcq', hloop, hI'.dest_sorted⟩

theorem Msgq.Valid.eq_init {q : Msgq} (hq : q.Valid) (hnil : q.msgs = []) : q = msgqInit := by
  obtain ⟨msgs, cnt, bytes⟩ := q
  obtain ⟨hc, hb⟩ := hq
  simp only at hnil hc hb
  simp [msgqInit, hnil, hc, hb]

/-- `rd_kafka_msgq_insert_msgq` with `rd_kafka_msg_cmp_msgid`, on two valid queues sorted
by message id with no id in common, succeeds and leaves in `destq` the messages of both,
sorted, with the counters summed, and `srcq` empty. -/
theorem msgqInsertMsgq_msgid {destq srcq : Msgq} (hd : destq.Valid) (hs : srcq.Valid)
    (hds : KeySorted Msg.msgid destq.msgs) (hss : KeySorted Msg.msgid srcq.msgs)
    (hdisj : KeysDisjoint Msg.msgid destq.msgs srcq.msgs) :
    ∃ destq', msgqInsertMsgq msgCmpMsgid destq srcq = some (destq', msgqInit) ∧
      KeySorted Msg.msgid destq'.msgs ∧ destq'.msgs ~ destq.msgs ++ srcq.msgs ∧
      destq'.msgCnt = destq.msgCnt + srcq.msgCnt ∧
      destq'.msgBytes = destq.msgBytes + srcq.msgBytes := by
  unfold msgqInsertMsgq
  split_ifs with hsnil hdnil
  · -- srcq is empty
    rw [hs.eq_init hsnil]
    exact ⟨destq, rfl, hds, by simp [msgqInit], by simp [msgqInit], by simp [msgqInit]⟩
  · -- destq is empty: srcq is moved over
    rw [hd.eq_init hdnil]
    exact ⟨srcq, rfl, hss, by simp [msgqInit], by simp [msgqInit], by simp [msgqInit]⟩
  · obtain ⟨sfirst, tail, hst⟩ := exists_cons_of_ne_nil hsnil
    obtain ⟨dlast, hdl⟩ : ∃ z, destq.msgs.getLast? = some z := by
      cases hl : destq.msgs.getLast? with
      | none => simp [hdnil] at hl
      | some z => exact ⟨z, rfl⟩
    have hhead : srcq.msgs.head? = some sfirst := by simp [hst]
    simp only [hdl, hhead]
    split_ifs with hlt
    · -- all of srcq goes after destq
      have hbelow : KeysBelow Msg.msgid destq.msgs srcq.msgs := by
        rw [hst]
        refine KeysBelow.of_head (fun a ha => ?_) (hst ▸ hss)
        exact lt_of_le_of_lt (hds.le_of_getLast? hdl a ha) (msgCmpMsgid_neg_iff.1 hlt)
      exact ⟨_, rfl, keySorted_append.2 ⟨hds, hss, hbelow⟩, Perm.refl _, rfl, rfl⟩
    · have hI : MergeInv destq srcq none := ⟨hds, hss, hdisj, by simp [KeysBelow]⟩
      obtain ⟨destq', srcq', hloop, hsorted⟩ := insertMsgqLoop_msgid hI
      obtain ⟨rfl, hperm, hcnt, hbytes⟩ := insertMsgqLoop_conserves msgCmpMsgid hloop
        (fun h => absurd h hsnil)
      exact ⟨destq', by simp [hloop, msgqInit], hsorted, hperm, hcnt, hbytes⟩

/-! ## Sorted insertion one message at a time -/

theorem tailqInsertSorted_msgCmpMsgid (m : Msg) (l : List Msg) :
    tailqInsertSorted msgCmpMsgid m l = keyInsert Msg.msgid m l := by
  induction l with
  | nil => rfl
  | cons b l ih =>
    simp only [tailqInsertSorted, keyInsert, orderedInsert_cons, msgCmpMsgid_neg_iff] at ih ⊢

theorem foldl_msgqEnqSorted0 (cmp : Msg → Msg → ℤ) (l : List Msg) (q : Msgq) :
    l.foldl (msgqEnqSorted0 cmp) q =
      ⟨l.foldl (fun acc x => tailqInsertSorted cmp x acc) q.msgs, q.msgCnt + l.length,
        q.msgBytes + msgsBytes l⟩ := by
  induction l generalizing q with
  | nil => simp
  | cons m l ih =>
    rw [foldl_cons, ih, foldl_cons]
    simp only [msgqEnqSorted0, Msgq.mk.injEq, true_and, length_cons, msgsBytes_cons]
    constructor <;> push_cast <;> ring

/-- **The chunked merge is sorted insertion.**  On two valid queues sorted by message id
with no id in common, `rd_kafka_msgq_insert_msgq` with `rd_kafka_msg_cmp_msgid` succeeds,
leaves `srcq` empty with zero counters, and leaves in `destq` exactly the queue that
inserting the messages of `srcq` one at a time with `rd_kafka_msgq_enq_sorted0` gives: the
messages of both queues in ascending id order, the sum of both message counts, and the
byte count of the messages it holds. -/
theorem msgqInsertMsgq_eq_foldl_enqSorted {destq srcq : Msgq} (hd : destq.Valid)
    (hs : srcq.Valid) (hds : KeySorted Msg.msgid destq.msgs)
    (hss : KeySorted Msg.msgid srcq.msgs)
    (hdisj : KeysDisjoint Msg.msgid destq.msgs srcq.msgs) :
    ∃ destq', msgqInsertMsgq msgCmpMsgid destq srcq = some (destq', msgqInit) ∧
      destq' = srcq.msgs.foldl (msgqEnqSorted0 msgCmpMsgid) destq ∧
      KeySorted Msg.msgid destq'.msgs ∧ destq'.msgs ~ destq.msgs ++ srcq.msgs ∧
      destq'.msgCnt = destq.msgCnt + srcq.msgCnt ∧ destq'.msgBytes = msgsBytes destq'.msgs := by
  obtain ⟨destq', hres, hsorted, hperm, hcnt, hbytes⟩ := msgqInsertMsgq_msgid hd hs hds hss hdisj
  -- the element-wise insertion builds a sorted list of the same messages: the same list
  have hins : srcq.msgs.foldl (fun acc x => tailqInsertSorted msgCmpMsgid x acc) destq.msgs =
      srcq.msgs.foldl (fun acc x => keyInsert Msg.msgid x acc) destq.msgs := by
    simp only [tailqInsertSorted_msgCmpMsgid]
  have hmsgs : destq'.msgs =
      srcq.msgs.foldl (fun acc x => keyInsert Msg.msgid x acc) destq.msgs :=
    hsorted.eq_of_perm (keySorted_foldl_keyInsert hds hss hdisj)
      (hperm.trans (perm_foldl_keyInsert srcq.msgs destq.msgs).symm)
  have hbytes' : destq'.msgBytes = msgsBytes destq'.msgs := by
    rw [hbytes, hd.2, hs.2, ← msgsBytes_append, msgsBytes_perm hperm]
  refine ⟨destq', hres, ?_, hsorted, hperm, hcnt, hbytes'⟩
  rw [foldl_msgqEnqSorted0, hins, ← hmsgs, ← hs.1, ← hs.2, ← hcnt, ← hbytes]

/-- The interleaved case of the source's comment, `destq = (1,2,3,7)` and
`srcq = (4,5,6,8)`, with messages of 100 bytes as in `unittest_msgq_insert_all_sort`. -/
theorem msgqInsertMsgq_eq_foldl_enqSorted_interleaved :
    let destq : Msgq := ⟨[⟨1, 100, 0⟩, ⟨2, 100, 0⟩, ⟨3, 100, 0⟩, ⟨7, 100, 0⟩], 4, 400⟩
    let srcq : Msgq := ⟨[⟨4, 100, 0⟩, ⟨5, 100, 0⟩, ⟨6, 100, 0⟩, ⟨8, 100, 0⟩], 4, 400⟩
    (destq.Valid ∧ srcq.Valid ∧ KeySorted Msg.msgid destq.msgs ∧
      KeySorted Msg.msgid srcq.msgs ∧ KeysDisjoint Msg.msgid destq.msgs srcq.msgs) ∧
    ∃ destq', msgqInsertMsgq msgCmpMsgid destq srcq = some (destq', msgqInit) ∧
      destq' = srcq.msgs.foldl (msgqEnqSorted0 msgCmpMsgid) destq ∧
      KeySorted Msg.msgid destq'.msgs ∧ destq'.msgs ~ destq.msgs ++ srcq.msgs ∧
      destq'.msgCnt = destq.msgCnt + srcq.msgCnt ∧ destq'.msgBytes = msgsBytes destq'.msgs :=
  ⟨⟨by decide, by decide, by decide, by decide, by decide⟩,
    msgqInsertMsgq_eq_foldl_enqSorted (by decide) (by decide) (by decide) (by decide)
      (by decide)⟩

end Rdkafka
