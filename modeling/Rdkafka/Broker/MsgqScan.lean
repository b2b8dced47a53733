import Rdkafka.Msg.QueueInsert

/-!
# The message timeout scan of a partition

The broker thread of a producer partition scans its two queues for messages whose
`message.timeout.ms` has passed (`rd_kafka_broker_toppar_msgq_scan`,
`src/rdkafka_broker.c`): first `rktp_xmit_msgq`, the messages the broker thread holds, then
`rktp_msgq`, the messages the application produced since.  Each scan is
`rd_kafka_msgq_age_scan` (`src/rdkafka_msg.c`), which moves the leading messages with
`rkm_ts_timeout <= now` to a queue of timed-out messages and stops at the first one that
has not timed out, whose timeout it reports as the next one.  The two timed-out queues are
merged in `msgid` order by `rd_kafka_msgq_insert_msgq` and handed to the delivery reports.

For valid queues sorted by message id (`brokerTopparMsgqScan_spec`) the scan removes
exactly the leading expired messages of each queue, returns their count and reports them in
one queue sorted by id.  The next timeout it returns is not the earlier of the two queues'
next timeouts: `*abs_next_timeout` is set to `0` before the xmit queue's result is compared
with `next < *abs_next_timeout`, which no positive timestamp passes, so only `rktp_msgq`'s
next timeout is kept (`brokerTopparMsgqScan_drops_xmit_timeout`).
-/

set_option autoImplicit false

namespace Rdkafka

open List

/-- A producer message as the timeout scan sees it: its queue fields and its absolute
timeout. -/
structure TimedMsg where
  /-- The fields the queue code reads. -/
  toMsg : Msg
  /-- `rkm_ts_timeout`, an `rd_ts_t`. -/
  tsTimeout : Int
  deriving DecidableEq, Repr

/-- A message queue `rd_kafka_msgq_t` of timed messages: its list and its two counters. -/
structure TimedMsgq where
  /-- `rkmq_msgs`. -/
  msgs : List TimedMsg
  /-- `rkmq_msg_cnt`. -/
  msgCnt : ℤ
  /-- `rkmq_msg_bytes`. -/
  msgBytes : ℤ
  deriving DecidableEq, Repr

/-- The queue fields of a queue of timed messages. -/
def TimedMsgq.toMsgq (q : TimedMsgq) : Msgq := ⟨q.msgs.map TimedMsg.toMsg, q.msgCnt, q.msgBytes⟩

/-- The counters of a queue agree with its messages. -/
def TimedMsgq.Valid (q : TimedMsgq) : Prop := q.toMsgq.Valid

instance (q : TimedMsgq) : Decidable q.Valid := inferInstanceAs (Decidable q.toMsgq.Valid)

/-- `RD_KAFKA_MSGQ_INITIALIZER`. -/
def timedMsgqInit : TimedMsgq := ⟨[], 0, 0⟩

/-- `rd_kafka_msgq_deq(rkmq, rkm, 1)`: assert that the counters cover the message, then
take it out of the queue. -/
def msgqDeq (rkmq : TimedMsgq) (rkm : TimedMsg) : Option TimedMsgq :=
  if ¬0 < rkmq.msgCnt then none
  else if ¬(rkm.toMsg.size : ℤ) ≤ rkmq.msgBytes then none
  else some ⟨rkmq.msgs.erase rkm, rkmq.msgCnt - 1, rkmq.msgBytes - rkm.toMsg.size⟩

/-- `rd_kafka_msgq_enq(rkmq, rkm)`: `TAILQ_INSERT_TAIL` and both counters. -/
def msgqEnq (rkmq : TimedMsgq) (rkm : TimedMsg) : TimedMsgq :=
  ⟨rkmq.msgs ++ [rkm], rkmq.msgCnt + 1, rkmq.msgBytes + rkm.toMsg.size⟩

/-- The `TAILQ_FOREACH_SAFE` loop of `rd_kafka_msgq_age_scan` over the messages `l` of
`rkmq`: stop at the first message with `rkm_ts_timeout > now` and report its timeout, else
move the message from `rkmq` to `timedout`.  The next timeout is `0` when every message
timed out. -/
def msgqAgeScanLoop (now : Int) :
    List TimedMsg → TimedMsgq → TimedMsgq → Option (TimedMsgq × TimedMsgq × Int)
  | [], rkmq, timedout => some (rkmq, timedout, 0)
  | rkm :: tmp, rkmq, timedout =>
    if rkm.tsTimeout > now then some (rkmq, timedout, rkm.tsTimeout)
    else (msgqDeq rkmq rkm).bind fun rkmq => msgqAgeScanLoop now tmp rkmq (msgqEnq timedout rkm)

/-- `rd_kafka_msgq_age_scan(rktp, rkmq, timedout, now, &abs_next_timeout)`: the queue, the
queue of timed-out messages, the number of messages timed out and `*abs_next_timeout`. -/
def msgqAgeScan (rkmq timedout : TimedMsgq) (now : Int) :
    Option (TimedMsgq × TimedMsgq × ℤ × Int) :=
  let cnt := timedout.msgCnt
  (msgqAgeScanLoop now rkmq.msgs rkmq timedout).map fun (rkmq, timedout, next) =>
    (rkmq, timedout, timedout.msgCnt - cnt, next)

/-- What `rd_kafka_broker_toppar_msgq_scan` leaves. -/
structure MsgqScan where
  /-- `rktp_xmit_msgq`. -/
  xmitMsgq : TimedMsgq
  /-- `rktp_msgq`. -/
  msgq : TimedMsgq
  /-- The queue handed to `rd_kafka_dr_msgq`; empty when no message timed out. -/
  timedout : Msgq
  /-- The return value, the number of messages timed out. -/
  cnt : ℤ
  /-- `*abs_next_timeout`. -/
  absNextTimeout : Int
  deriving DecidableEq, Repr

/-- `rd_kafka_broker_toppar_msgq_scan(rkb, rktp, now, &abs_next_timeout)` with `cmp` the
topic's `msg_order_cmp`.  `rd_kafka_msgq_insert_msgq` works on the queue fields, which are
all that `rd_kafka_dr_msgq` reads of the timed-out messages. -/
def brokerTopparMsgqScan (cmp : Msg → Msg → ℤ) (xmitMsgq msgq : TimedMsgq) (now : Int) :
    Option MsgqScan :=
  let absNextTimeout : Int := 0
  (msgqAgeScan xmitMsgq timedMsgqInit now).bind fun (xmitMsgq, xtimedout, xcnt, next) =>
  let absNextTimeout := if next ≠ 0 ∧ next < absNextTimeout then next else absNextTimeout
  (msgqAgeScan msgq timedMsgqInit now).bind fun (msgq, qtimedout, qcnt, next) =>
  let absNextTimeout :=
    if next ≠ 0 ∧ (absNextTimeout = 0 ∨ next < absNextTimeout) then next else absNextTimeout
  let cnt := xcnt + qcnt
  if cnt = 0 then some ⟨xmitMsgq, msgq, msgqInit, 0, absNextTimeout⟩
  else
    (msgqInsertMsgq cmp xtimedout.toMsgq qtimedout.toMsgq).bind fun (xtimedout, _) =>
    -- `rd_kafka_msgq_first(&xtimedout)->rkm_u.producer.msgid`, and the same of the last
    if xtimedout.msgs = [] then none
    else some ⟨xmitMsgq, msgq, xtimedout, cnt, absNextTimeout⟩

/-! ## One scan -/

/-- A message has timed out at `now`: `rkm_ts_timeout > now` fails. -/
def TimedMsg.expired (now : Int) (m : TimedMsg) : Bool := decide (m.tsTimeout ≤ now)

/-- The timeout of the first message of a list, `0` for none. -/
def nextTimeout : List TimedMsg → Int
  | [] => 0
  | m :: _ => m.tsTimeout

@[simp] theorem TimedMsgq.toMsgq_msgs (q : TimedMsgq) :
    q.toMsgq.msgs = q.msgs.map TimedMsg.toMsg := rfl

theorem TimedMsgq.valid_iff {q : TimedMsgq} :
    q.Valid ↔
      q.msgCnt = q.msgs.length ∧ q.msgBytes = msgsBytes (q.msgs.map TimedMsg.toMsg) := by
  simp [TimedMsgq.Valid, Msgq.Valid, TimedMsgq.toMsgq]

theorem timedMsgqInit_valid : timedMsgqInit.Valid := by
  simp [TimedMsgq.valid_iff, timedMsgqInit]

@[simp] theorem msgqEnq_msgs (rkmq : TimedMsgq) (rkm : TimedMsg) :
    (msgqEnq rkmq rkm).msgs = rkmq.msgs ++ [rkm] := rfl

theorem TimedMsgq.Valid.enq {rkmq : TimedMsgq} (hq : rkmq.Valid) (rkm : TimedMsg) :
    (msgqEnq rkmq rkm).Valid := by
  obtain ⟨hc, hb⟩ := valid_iff.1 hq
  refine valid_iff.2 ⟨?_, ?_⟩
  · simp [msgqEnq, hc]
  · simp [msgqEnq, hb]

/-- Taking the head out of a valid queue passes both assertions of `rd_kafka_msgq_deq` and
leaves the rest of the queue, valid. -/
theorem TimedMsgq.Valid.deq_head {rkmq : TimedMsgq} {rkm : TimedMsg} {tmp : List TimedMsg}
    (hq : rkmq.Valid) (hm : rkmq.msgs = rkm :: tmp) :
    ∃ rkmq', msgqDeq rkmq rkm = some rkmq' ∧ rkmq'.msgs = tmp ∧ rkmq'.Valid := by
  obtain ⟨hc, hb⟩ := valid_iff.1 hq
  rw [hm] at hc hb
  have hrest := msgsBytes_nonneg (tmp.map TimedMsg.toMsg)
  have hcnt : 0 < rkmq.msgCnt := by
    rw [hc, length_cons]
    omega
  have hbytes : (rkm.toMsg.size : ℤ) ≤ rkmq.msgBytes := by
    rw [hb, map_cons, msgsBytes_cons]
    omega
  refine ⟨_, by rw [msgqDeq, if_neg (not_not.2 hcnt), if_neg (not_not.2 hbytes)], ?_, ?_⟩
  · simp [hm]
  · refine valid_iff.2 ⟨?_, ?_⟩
    · simp only [hm, erase_cons_head, hc, length_cons]
      omega
    · simp only [hm, erase_cons_head, hb, map_cons, msgsBytes_cons]
      omega

/-- **The age scan loop.**  Walking the messages of a valid queue, the loop moves exactly
the leading expired messages to the end of `timedout`, leaves the rest in the queue, keeps
both queues valid and reports the timeout of the first message left. -/
theorem msgqAgeScanLoop_eq (now : Int) :
    ∀ (l : List TimedMsg) (rkmq timedout : TimedMsgq), rkmq.msgs = l → rkmq.Valid →
      timedout.Valid →
      ∃ rkmq' timedout', msgqAgeScanLoop now l rkmq timedout =
          some (rkmq', timedout', nextTimeout (l.dropWhile (TimedMsg.expired now))) ∧
        rkmq'.msgs = l.dropWhile (TimedMsg.expired now) ∧ rkmq'.Valid ∧
        timedout'.msgs = timedout.msgs ++ l.takeWhile (TimedMsg.expired now) ∧
        timedout'.Valid := by
  intro l
  induction l with
  | nil =>
    intro rkmq timedout hl hq ht
    exact ⟨rkmq, timedout, rfl, hl, hq, by simp, ht⟩
  | cons rkm tmp ih =>
    intro rkmq timedout hl hq ht
    by_cases hlive : rkm.tsTimeout > now
    · -- the scan stops at the first message that has not timed out
      have hne : ¬TimedMsg.expired now rkm = true := by simp [TimedMsg.expired]; omega
      rw [dropWhile_cons_of_neg hne, takeWhile_cons_of_neg hne]
      exact ⟨rkmq, timedout, by simp [msgqAgeScanLoop, hlive, nextTimeout], hl, hq, by simp, ht⟩
    · have hexp : TimedMsg.expired now rkm = true := by simp [TimedMsg.expired]; omega
      obtain ⟨rkmq₁, hdeq, hmsgs₁, hq₁⟩ := hq.deq_head hl
      obtain ⟨rkmq', timedout', hloop, hmsgs', hq', htmsgs', ht'⟩ :=
        ih rkmq₁ (msgqEnq timedout rkm) hmsgs₁ hq₁ (ht.enq rkm)
      rw [dropWhile_cons_of_pos hexp, takeWhile_cons_of_pos hexp]
      refine ⟨rkmq', timedout', ?_, hmsgs', hq', by simp [htmsgs'], ht'⟩
      show (if rkm.tsTimeout > now then _ else (msgqDeq rkmq rkm).bind _) = _
      rw [if_neg hlive, hdeq, Option.bind_some]
      exact hloop

/-- **`rd_kafka_msgq_age_scan`.**  On valid queues the scan succeeds; it leaves in `rkmq`
the messages from the first one that has not timed out on, appends the ones before it to
`timedout`, returns how many those are, and reports the timeout of the first message left,
`0` if there is none. -/
theorem msgqAgeScan_eq {rkmq timedout : TimedMsgq} (hq : rkmq.Valid) (ht : timedout.Valid)
    (now : Int) :
    ∃ rkmq' timedout', msgqAgeScan rkmq timedout now =
        some (rkmq', timedout', ((rkmq.msgs.takeWhile (TimedMsg.expired now)).length : ℤ),
          nextTimeout (rkmq.msgs.dropWhile (TimedMsg.expired now))) ∧
      rkmq'.msgs = rkmq.msgs.dropWhile (TimedMsg.expired now) ∧ rkmq'.Valid ∧
      timedout'.msgs = timedout.msgs ++ rkmq.msgs.takeWhile (TimedMsg.expired now) ∧
      timedout'.Valid := by
  obtain ⟨rkmq', timedout', hloop, hmsgs', hq', htmsgs', ht'⟩ :=
    msgqAgeScanLoop_eq now rkmq.msgs rkmq timedout rfl hq ht
  refine ⟨rkmq', timedout', ?_, hmsgs', hq', htmsgs', ht'⟩
  have hcnt : timedout'.msgCnt - timedout.msgCnt =
      ((rkmq.msgs.takeWhile (TimedMsg.expired now)).length : ℤ) := by
    rw [(TimedMsgq.valid_iff.1 ht').1, (TimedMsgq.valid_iff.1 ht).1, htmsgs', length_append]
    omega
  simp only [msgqAgeScan, hloop, Option.map_some, hcnt]

/-! ## The scan of both queues -/

/-- The leading expired messages of a queue, which the age scan moves out of it. -/
def TimedMsgq.expiredMsgs (now : Int) (q : TimedMsgq) : List TimedMsg :=
  q.msgs.takeWhile (TimedMsg.expired now)

/-- The messages of a queue from its first live one on, which the age scan leaves. -/
def TimedMsgq.liveMsgs (now : Int) (q : TimedMsgq) : List TimedMsg :=
  q.msgs.dropWhile (TimedMsg.expired now)

/-- What `rd_kafka_broker_toppar_msgq_scan` leaves after scanning `xmitMsgq` and `msgq` at
`now`. -/
structure MsgqScan.Scanned (xmitMsgq msgq : TimedMsgq) (now : Int) (r : MsgqScan) : Prop where
  xmit_msgs : r.xmitMsgq.msgs = xmitMsgq.liveMsgs now
  xmit_valid : r.xmitMsgq.Valid
  msgq_msgs : r.msgq.msgs = msgq.liveMsgs now
  msgq_valid : r.msgq.Valid
  /-- The return value counts the expired messages of both queues. -/
  cnt_eq : r.cnt = (xmitMsgq.expiredMsgs now).length + (msgq.expiredMsgs now).length
  /-- The delivery reports get all of them, once each, in message id order. -/
  timedout_sorted : KeySorted Msg.msgid r.timedout.msgs
  timedout_perm :
    r.timedout.msgs ~ (xmitMsgq.expiredMsgs now ++ msgq.expiredMsgs now).map TimedMsg.toMsg
  timedout_valid : r.timedout.Valid
  /-- The next timeout is the first live one of `rktp_msgq` alone, `0` if it has none. -/
  absNextTimeout_eq : r.absNextTimeout = nextTimeout (msgq.liveMsgs now)

theorem TimedMsgq.expiredMsgs_sublist (now : Int) (q : TimedMsgq) :
    (q.expiredMsgs now).map TimedMsg.toMsg <+ q.toMsgq.msgs :=
  (takeWhile_sublist _).map _

/-- A list of positive timeouts has a non-negative next timeout after any prefix is
dropped. -/
theorem nextTimeout_dropWhile_nonneg (p : TimedMsg → Bool) :
    ∀ {l : List TimedMsg}, (∀ m ∈ l, 0 < m.tsTimeout) →
      0 ≤ nextTimeout (l.dropWhile p) := by
  intro l hpos
  cases hd : l.dropWhile p with
  | nil => simp [nextTimeout]
  | cons m rest =>
    have hm : m ∈ l := (dropWhile_suffix p).subset (by rw [hd]; exact mem_cons_self)
    exact le_of_lt (hpos m hm)

/-- The two comparisons of `rd_kafka_broker_toppar_msgq_scan`, from `*abs_next_timeout = 0`:
an xmit timeout that is not negative is dropped and the msgq timeout is kept. -/
theorem absNextTimeout_of_nonneg (qnext : Int) {xnext : Int} (hx : 0 ≤ xnext) :
    (let abs := if xnext ≠ 0 ∧ xnext < 0 then xnext else 0
      if qnext ≠ 0 ∧ (abs = 0 ∨ qnext < abs) then qnext else abs) = qnext := by
  have habs : (if xnext ≠ 0 ∧ xnext < 0 then xnext else 0) = 0 := if_neg (by omega)
  simp only [habs]
  by_cases hq : qnext = 0
  · simp [hq]
  · simp [hq]

section Scan

variable {xmitMsgq msgq : TimedMsgq} {now : Int}

/-- The merge of the two timed-out queues, when some message timed out: sorted by id,
holding the messages of both and with valid counters, so the first message the debug line
reads exists. -/
theorem msgqInsertMsgq_timedout {xtimedout qtimedout : TimedMsgq}
    (hxt : xtimedout.Valid) (hqt : qtimedout.Valid)
    (hxmsgs : xtimedout.msgs = xmitMsgq.expiredMsgs now)
    (hqmsgs : qtimedout.msgs = msgq.expiredMsgs now)
    (hxs : KeySorted Msg.msgid xmitMsgq.toMsgq.msgs) (hqs : KeySorted Msg.msgid msgq.toMsgq.msgs)
    (hdisj : KeysDisjoint Msg.msgid xmitMsgq.toMsgq.msgs msgq.toMsgq.msgs) :
    ∃ destq', msgqInsertMsgq msgCmpMsgid xtimedout.toMsgq qtimedout.toMsgq =
        some (destq', msgqInit) ∧ KeySorted Msg.msgid destq'.msgs ∧
      destq'.msgs ~ (xmitMsgq.expiredMsgs now ++ msgq.expiredMsgs now).map TimedMsg.toMsg ∧
      destq'.Valid := by
  have hxsub : xtimedout.toMsgq.msgs <+ xmitMsgq.toMsgq.msgs := by
    rw [TimedMsgq.toMsgq_msgs, hxmsgs]
    exact xmitMsgq.expiredMsgs_sublist now
  have hqsub : qtimedout.toMsgq.msgs <+ msgq.toMsgq.msgs := by
    rw [TimedMsgq.toMsgq_msgs, hqmsgs]
    exact msgq.expiredMsgs_sublist now
  obtain ⟨destq', hres, -, hsorted, hperm, hcnt, hbytes⟩ :=
    msgqInsertMsgq_eq_foldl_enqSorted hxt hqt (hxs.sublist hxsub) (hqs.sublist hqsub)
      (hdisj.mono hxsub.subset hqsub.subset)
  refine ⟨destq', hres, hsorted, ?_, ?_⟩
  · simpa [hxmsgs, hqmsgs] using hperm
  · refine ⟨?_, hbytes⟩
    rw [hcnt, hxt.1, hqt.1, hperm.length_eq, length_append]
    push_cast
    ring

/-- **`rd_kafka_broker_toppar_msgq_scan`.**  For two valid queues sorted by message id with
no id in common, and xmit timeouts that are positive timestamps, the scan succeeds: it takes
the leading expired messages out of each queue, returns their number and reports them in
one queue sorted by id, and sets `*abs_next_timeout` to the next timeout of `rktp_msgq`
alone. -/
theorem brokerTopparMsgqScan_spec (hx : xmitMsgq.Valid) (hq : msgq.Valid)
    (hxs : KeySorted Msg.msgid xmitMsgq.toMsgq.msgs) (hqs : KeySorted Msg.msgid msgq.toMsgq.msgs)
    (hdisj : KeysDisjoint Msg.msgid xmitMsgq.toMsgq.msgs msgq.toMsgq.msgs)
    (hpos : ∀ m ∈ xmitMsgq.msgs, 0 < m.tsTimeout) :
    ∃ r, brokerTopparMsgqScan msgCmpMsgid xmitMsgq msgq now = some r ∧
      r.Scanned xmitMsgq msgq now := by
  obtain ⟨xmitMsgq', xtimedout, hxscan, hxmsgs', hx', hxtmsgs, hxt⟩ :=
    msgqAgeScan_eq hx timedMsgqInit_valid now
  obtain ⟨msgq', qtimedout, hqscan, hqmsgs', hq', hqtmsgs, hqt⟩ :=
    msgqAgeScan_eq hq timedMsgqInit_valid now
  -- the xmit queue's next timeout is a timestamp, so it fails `next < 0`
  have habs :=
    absNextTimeout_of_nonneg (nextTimeout (msgq.msgs.dropWhile (TimedMsg.expired now)))
      (nextTimeout_dropWhile_nonneg (TimedMsg.expired now) hpos)
  simp only [timedMsgqInit, nil_append] at hxtmsgs hqtmsgs
  dsimp only at habs
  unfold brokerTopparMsgqScan
  simp only [hxscan, hqscan, Option.bind_some]
  rw [habs]
  by_cases hcnt : ((xmitMsgq.msgs.takeWhile (TimedMsg.expired now)).length : ℤ) +
      (msgq.msgs.takeWhile (TimedMsg.expired now)).length = 0
  · -- nothing timed out: both expired prefixes are empty
    have hxe : xmitMsgq.expiredMsgs now = [] := by
      rw [← length_eq_zero_iff]
      unfold TimedMsgq.expiredMsgs
      omega
    have hqe : msgq.expiredMsgs now = [] := by
      rw [← length_eq_zero_iff]
      unfold TimedMsgq.expiredMsgs
      omega
    rw [if_pos hcnt]
    refine ⟨_, rfl, ⟨hxmsgs', hx', hqmsgs', hq', ?_, by simp [msgqInit], ?_, ?_, rfl⟩⟩
    · simp [hxe, hqe]
    · simp [msgqInit, hxe, hqe]
    · simp [msgqInit, Msgq.Valid]
  · obtain ⟨destq', hres, hsorted, hperm, hvalid⟩ :=
      msgqInsertMsgq_timedout hxt hqt hxtmsgs hqtmsgs hxs hqs hdisj
    have hne : destq'.msgs ≠ [] := by
      intro hnil
      have hlen := hperm.length_eq
      rw [hnil, length_nil, length_map, length_append] at hlen
      unfold TimedMsgq.expiredMsgs at hlen
      omega
    rw [if_neg hcnt, hres, Option.bind_some, if_neg hne]
    exact ⟨_, rfl, ⟨hxmsgs', hx', hqmsgs', hq', rfl, hsorted, hperm, hvalid, rfl⟩⟩

end Scan

/-- Message 1 waits in the xmit queue until 100 and message 2 in `rktp_msgq` until 200: at 150
the scan reports message 1 and keeps message 2. -/
theorem brokerTopparMsgqScan_one_expired :
    ∃ r, brokerTopparMsgqScan msgCmpMsgid ⟨[⟨⟨1, 10, 0⟩, 100⟩], 1, 10⟩
        ⟨[⟨⟨2, 10, 0⟩, 200⟩], 1, 10⟩ 150 = some r ∧
      r.Scanned ⟨[⟨⟨1, 10, 0⟩, 100⟩], 1, 10⟩ ⟨[⟨⟨2, 10, 0⟩, 200⟩], 1, 10⟩ 150 :=
  brokerTopparMsgqScan_spec (by decide) (by decide) (by decide) (by decide) (by decide)
    (by decide)

/-- **The xmit queue's next timeout is lost.**  At time 50, a message in `rktp_xmit_msgq`
that times out at 100 and an empty `rktp_msgq`: nothing times out, the message stays, and
`*abs_next_timeout` is `0`, no timeout.  With a message timing out at 200 in `rktp_msgq`
the scan reports 200, not 100. -/
theorem brokerTopparMsgqScan_drops_xmit_timeout :
    (brokerTopparMsgqScan msgCmpMsgid ⟨[⟨⟨1, 10, 0⟩, 100⟩], 1, 10⟩ timedMsgqInit 50).map
        (fun r => (r.xmitMsgq.msgs.length, r.cnt, r.absNextTimeout)) = some (1, 0, 0) ∧
    (brokerTopparMsgqScan msgCmpMsgid ⟨[⟨⟨1, 10, 0⟩, 100⟩], 1, 10⟩
        ⟨[⟨⟨2, 10, 0⟩, 200⟩], 1, 10⟩ 50).map (fun r => r.absNextTimeout) =
      some 200 := by
  constructor <;> decide

end Rdkafka
