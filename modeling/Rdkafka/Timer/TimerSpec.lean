import Rdkafka.Timer.Timer

/-!
# What the timer functions keep

`Timers.WF` is the shape of a timer list: ordered by next firing time, each timer on it once,
exactly the scheduled timers on it and only started ones.  Every timer function keeps it
(`WF.call`), and so does the firing loop of `rd_kafka_timers_run` when the callbacks make such
calls (`WF.runLoop`), with one exception: `rd_kafka_timer_override_once` of a timer that is not
started puts on the list a timer that is not started, which `rd_kafka_timer_stop` then leaves
there.  So:

* `timersEvents_wf`: every state reached by calls that override only started timers, and by
  firing, has the shape.  A call whose 64-bit arithmetic overflows reaches no state; the
  backoff's jitter, converted to `int`, still takes no more than the interval off
  (`add_toSigned_nonneg`).
* `timersRunLoop_not_fired`, `timersEvents_not_fired`: a timer off the list is not fired, and
  stays off, until a call starts, backs off or overrides it.
* `timersEvents_wf_stop_never_fired`: from a state reached from `rd_kafka_timers_init`,
  `rd_kafka_timer_stop` takes the timer off the list for good.
* `timerStop_overridden_fires`: a stopped timer that is overridden and stopped again stays on
  the list, and the next run fires it.
-/

set_option autoImplicit false

namespace Rdkafka

variable {ι κ : Type} [DecidableEq ι]

/-! ## The list operations -/

@[simp] theorem timerUnschedule_timers (s : Timers ι κ) (t : ι) :
    (timerUnschedule s t).timers = s.timers.erase t := rfl

@[simp] theorem timerUnschedule_tmr_self (s : Timers ι κ) (t : ι) :
    (timerUnschedule s t).tmr t = { s.tmr t with next := 0 } :=
  Timers.set_tmr_self _ _ _

@[simp] theorem timerUnschedule_tmr_of_ne (s : Timers ι κ) {t u : ι} (h : u ≠ t) :
    (timerUnschedule s t).tmr u = s.tmr u :=
  Timers.set_tmr_of_ne _ _ h

theorem timerCmp_neg_iff {a b : Timer κ} : timerCmp a b < 0 ↔ a.next < b.next := by
  unfold timerCmp
  by_cases h : a.next < b.next
  · simp [h]
  · by_cases h' : a.next > b.next <;> simp [h, h']

omit [DecidableEq ι] in
/-- `TAILQ_INSERT_SORTED` with `rd_kafka_timer_cmp` inserts by next firing time. -/
theorem orderedInsert_timerCmp (tmr : ι → Timer κ) (t : ι) (l : List ι) :
    l.orderedInsert (fun a b => timerCmp (tmr a) (tmr b) < 0) t =
      List.keyInsert (fun u => (tmr u).next) t l := by
  simp only [List.keyInsert, timerCmp_neg_iff]

/-- Both ways `rd_kafka_timer_schedule_next` inserts are the sorted insertion by next firing
time. -/
theorem timerScheduleNext_eq (s : Timers ι κ) (t : ι) (absTime : ℤ) :
    timerScheduleNext s t absTime =
      { s.set t { s.tmr t with next := absTime } with
        timers := List.keyInsert
          (fun u => ((s.set t { s.tmr t with next := absTime }).tmr u).next) t s.timers } := by
  unfold timerScheduleNext
  simp only [Timers.set_timers]
  split
  · rename_i hnil
    rw [hnil]
    rfl
  · -- a head that fires later is where the sorted insertion puts the timer too
    rename_i first rest hcons
    rw [hcons, orderedInsert_timerCmp, List.keyInsert]
    by_cases hlt : ((s.set t { s.tmr t with next := absTime }).tmr first).next >
        ((s.set t { s.tmr t with next := absTime }).tmr t).next
    · rw [if_pos hlt, List.orderedInsert_cons, if_pos (show _ < _ from hlt)]
    · rw [if_neg hlt]

/-! ## The shape of the timer list -/

/-- The shape of `rkts_timers` that the timer functions keep: ordered by next firing time, each
timer on it once, exactly the scheduled timers on it and only started ones, and no interval
negative. -/
structure Timers.WF (s : Timers ι κ) : Prop where
  sorted : s.timers.Pairwise fun a b => (s.tmr a).next ≤ (s.tmr b).next
  nodup : s.timers.Nodup
  mem_iff : ∀ t, t ∈ s.timers ↔ timerScheduled (s.tmr t)
  started_of_mem : ∀ t ∈ s.timers, timerStarted (s.tmr t)
  interval_nonneg : ∀ t, 0 ≤ (s.tmr t).interval

omit [DecidableEq ι] in
theorem timersInit_wf : (timersInit : Timers ι κ).WF where
  sorted := List.Pairwise.nil
  nodup := List.nodup_nil
  mem_iff _ := by simp [timersInit, timerScheduled, Timer.zero]
  started_of_mem _ h := absurd h List.not_mem_nil
  interval_nonneg _ := le_refl 0

section WF

variable {s : Timers ι κ} {t : ι}

/-- Changing a timer that is not on the list keeps the order of the list. -/
theorem pairwise_set_of_not_mem {l : List ι} (ht : t ∉ l) (r : Timer κ)
    (h : l.Pairwise fun a b => (s.tmr a).next ≤ (s.tmr b).next) :
    l.Pairwise fun a b => ((s.set t r).tmr a).next ≤ ((s.set t r).tmr b).next :=
  h.imp_of_mem fun ha hb hab => by
    rwa [Timers.set_tmr_of_ne _ _ (ne_of_mem_of_not_mem ha ht),
      Timers.set_tmr_of_ne _ _ (ne_of_mem_of_not_mem hb ht)]

/-- A change to one timer that leaves its interval not negative leaves every interval so. -/
theorem Timers.WF.interval_nonneg_set (hw : s.WF) {r : Timer κ} (hint : 0 ≤ r.interval) (u : ι) :
    0 ≤ ((s.set t r).tmr u).interval := by
  by_cases hu : u = t
  · subst hu
    rwa [Timers.set_tmr_self]
  · rw [Timers.set_tmr_of_ne _ _ hu]
    exact hw.interval_nonneg u

omit [DecidableEq ι] in
/-- A timer off the list is not scheduled. -/
theorem Timers.WF.next_eq_zero_of_not_mem (hw : s.WF) (ht : t ∉ s.timers) : (s.tmr t).next = 0 :=
  not_not.1 fun h => ht ((hw.mem_iff t).2 h)

/-- A timer off the list may be changed, unscheduled and with an interval that is not
negative. -/
theorem Timers.WF.set (hw : s.WF) (ht : t ∉ s.timers) {r : Timer κ} (hnext : r.next = 0)
    (hint : 0 ≤ r.interval) : (s.set t r).WF where
  sorted := pairwise_set_of_not_mem ht r hw.sorted
  nodup := hw.nodup
  mem_iff u := by
    by_cases hu : u = t
    · subst hu
      simp [timerScheduled, hnext, ht]
    · rw [Timers.set_timers, Timers.set_tmr_of_ne _ _ hu]
      exact hw.mem_iff u
  started_of_mem u hu := by
    rw [Timers.set_tmr_of_ne _ _ (ne_of_mem_of_not_mem hu ht)]
    exact hw.started_of_mem u hu
  interval_nonneg := hw.interval_nonneg_set hint

/-- `rd_kafka_timer_unschedule` takes the timer off the list, wherever it is. -/
theorem Timers.WF.unschedule (hw : s.WF) (t : ι) : (timerUnschedule s t).WF where
  sorted := by
    rw [timerUnschedule_timers]
    exact pairwise_set_of_not_mem (hw.nodup.not_mem_erase) _ (hw.sorted.erase t)
  nodup := hw.nodup.erase t
  mem_iff u := by
    by_cases hu : u = t
    · subst hu
      simp [timerScheduled, hw.nodup.not_mem_erase]
    · rw [timerUnschedule_timers, List.mem_erase_of_ne hu, timerUnschedule_tmr_of_ne _ hu]
      exact hw.mem_iff u
  started_of_mem u hu := by
    rw [timerUnschedule_timers, hw.nodup.mem_erase_iff] at hu
    rw [timerUnschedule_tmr_of_ne _ hu.1]
    exact hw.started_of_mem u hu.2
  interval_nonneg := hw.interval_nonneg_set (hw.interval_nonneg t)

/-- `rd_kafka_timer_schedule_next` of a started timer off the list, at a time that is not
`0`, puts it on the list in order. -/
theorem Timers.WF.scheduleNext (hw : s.WF) (ht : t ∉ s.timers)
    (hstarted : timerStarted (s.tmr t)) {absTime : ℤ} (habs : absTime ≠ 0) :
    (timerScheduleNext s t absTime).WF := by
  have hmem : ∀ u, u ∈ (timerScheduleNext s t absTime).timers ↔ u = t ∨ u ∈ s.timers := by
    intro u
    rw [timerScheduleNext_eq]
    exact List.mem_orderedInsert _
  rw [timerScheduleNext_eq] at hmem ⊢
  refine ⟨List.pairwise_keyInsert (pairwise_set_of_not_mem ht _ hw.sorted), ?_, ?_, ?_, ?_⟩
  · exact (List.perm_keyInsert t s.timers).nodup_iff.2 (List.nodup_cons.2 ⟨ht, hw.nodup⟩)
  · intro u
    rw [hmem u]
    by_cases hu : u = t
    · subst hu
      simp [timerScheduled, habs]
    · rw [Timers.set_tmr_of_ne _ _ hu]
      simp [hu, hw.mem_iff u]
  · intro u hu
    rcases (hmem u).1 hu with rfl | hu
    · simpa [timerStarted] using hstarted
    · rw [Timers.set_tmr_of_ne _ _ (ne_of_mem_of_not_mem hu ht)]
      exact hw.started_of_mem u hu
  · exact hw.interval_nonneg_set (hw.interval_nonneg t)

/-- What `rd_kafka_timer_schedule` does when its sum does not overflow: nothing to a timer
that is not started or while the timers are disabled, and otherwise
`rd_kafka_timer_schedule_next` one interval plus `extraUs` after `now`. -/
theorem timerSchedule_cases {now extraUs : ℤ} {s' : Timers ι κ}
    (h : timerSchedule s t now extraUs = some s') :
    s' = s ∨
      timerStarted (s.tmr t) ∧ s' = timerScheduleNext s t (now + (s.tmr t).interval + extraUs) := by
  unfold timerSchedule at h
  by_cases hst : timerStarted (s.tmr t)
  · rw [if_neg (not_not.2 hst)] at h
    by_cases hen : (!s.enabled) = true
    · rw [if_pos hen] at h
      exact .inl (Option.some_inj.1 h).symm
    · rw [if_neg hen] at h
      obtain ⟨a, ha, h⟩ := Option.bind_eq_some_iff.1 h
      obtain ⟨b, hb, rfl⟩ := Option.map_eq_some_iff.1 h
      obtain ⟨-, rfl⟩ := CInt.add_eq_some_iff.1 ha
      obtain ⟨-, rfl⟩ := CInt.add_eq_some_iff.1 hb
      exact .inr ⟨hst, rfl⟩
  · rw [if_pos hst] at h
    exact .inl (Option.some_inj.1 h).symm

/-- `rd_kafka_timer_schedule` of a timer off the list, at a positive clock and a delay that is
not negative. -/
theorem Timers.WF.schedule (hw : s.WF) (ht : t ∉ s.timers) {now extraUs : ℤ} (hnow : 0 < now)
    (hextra : 0 ≤ (s.tmr t).interval + extraUs) {s' : Timers ι κ}
    (h : timerSchedule s t now extraUs = some s') : s'.WF := by
  rcases timerSchedule_cases h with rfl | ⟨hst, rfl⟩
  · exact hw
  · exact hw.scheduleNext ht hst (by omega)

omit [DecidableEq ι] in
/-- A timer that is not started is not on the list. -/
theorem Timers.WF.not_mem_of_not_started (hw : s.WF) (hst : ¬timerStarted (s.tmr t)) :
    t ∉ s.timers :=
  fun h => hst (hw.started_of_mem t h)

omit [DecidableEq ι] in
/-- A timer that is not scheduled is not on the list. -/
theorem Timers.WF.not_mem_of_not_scheduled (hw : s.WF) (hsch : ¬timerScheduled (s.tmr t)) :
    t ∉ s.timers :=
  fun h => hsch ((hw.mem_iff t).1 h)

/-- The `if (rd_kafka_timer_scheduled(rtmr)) rd_kafka_timer_unschedule(rkts, rtmr)` that
`rd_kafka_timer_stop`, `_exp_backoff` and `_override_once` begin with leaves the timer off the
list and otherwise as it was. -/
theorem Timers.WF.unscheduleIf (hw : s.WF) (t : ι) :
    let s' := if timerScheduled (s.tmr t) then timerUnschedule s t else s
    s'.WF ∧ t ∉ s'.timers ∧ s'.tmr t = { s.tmr t with next := 0 } ∧ s'.enabled = s.enabled := by
  by_cases hsch : timerScheduled (s.tmr t)
  · rw [if_pos hsch]
    exact ⟨hw.unschedule t, hw.nodup.not_mem_erase, timerUnschedule_tmr_self s t, rfl⟩
  · have hnext : (s.tmr t).next = 0 := not_not.1 hsch
    rw [if_neg hsch]
    exact ⟨hw, hw.not_mem_of_not_scheduled hsch, by rw [← hnext], rfl⟩

/-- `rd_kafka_timer_stop` keeps the shape, and leaves the timer stopped and off the list. -/
theorem Timers.WF.stop (hw : s.WF) (t : ι) :
    (timerStop s t).1.WF ∧ t ∉ (timerStop s t).1.timers ∧
      ¬timerStarted ((timerStop s t).1.tmr t) ∧ (timerStop s t).1.enabled = s.enabled := by
  unfold timerStop
  by_cases hst : timerStarted (s.tmr t)
  · rw [if_neg (not_not.2 hst)]
    obtain ⟨hw', ht', htmr, hen⟩ := hw.unscheduleIf t
    dsimp only at hw' ht' htmr hen ⊢
    generalize (if timerScheduled (s.tmr t) then timerUnschedule s t else s) = s' at *
    refine ⟨hw'.set ht' (by rw [htmr]) (le_refl 0), ht', ?_, hen⟩
    simp [timerStarted]
  · rw [if_pos hst]
    exact ⟨hw, hw.not_mem_of_not_started hst, hst, rfl⟩

/-- `rd_kafka_timer_start0` at a positive clock, with an interval that is not negative. -/
theorem Timers.WF.start0 (hw : s.WF) {now interval : ℤ} (hnow : 0 < now) (hint : 0 ≤ interval)
    {oneshot restart : Bool} {callback : κ} {s' : Timers ι κ}
    (h : timerStart0 s t now interval oneshot restart callback = some s') : s'.WF := by
  unfold timerStart0 at h
  by_cases hkeep : (!restart && decide (timerScheduled (s.tmr t))) = true
  · rw [if_pos hkeep] at h
    cases h
    exact hw
  · rw [if_neg hkeep] at h
    obtain ⟨hw', ht', -, -⟩ := hw.stop t
    dsimp only at h
    generalize (timerStop s t).1 = s₁ at *
    -- the started timer is off the list, so setting it up keeps the shape
    have hint' : 0 ≤ (if interval = 0 then 1 else interval) := by
      by_cases h0 : interval = 0
      · rw [if_pos h0]
        decide
      · rw [if_neg h0]
        exact hint
    refine (hw'.set ht' ?_ ?_).schedule ht' hnow ?_ h
    · exact hw'.next_eq_zero_of_not_mem ht'
    · exact hint'
    · simpa using hint'

/-- The truncated jitter of `rd_kafka_timer_exp_backoff`, at most 100 % of the interval either
way, is at most the interval either way. -/
theorem tdiv_hundred_mem {i j : ℤ} (hi : 0 ≤ i) (hj₁ : -100 ≤ j) (hj₂ : j ≤ 100) :
    -i ≤ (j * i).tdiv 100 ∧ (j * i).tdiv 100 ≤ i := by
  have hlo : -100 * i ≤ j * i := Int.mul_le_mul_of_nonneg_right hj₁ hi
  have hhi : j * i ≤ 100 * i := Int.mul_le_mul_of_nonneg_right hj₂ hi
  by_cases hx : 0 ≤ j * i
  · rw [Int.tdiv_eq_ediv_of_nonneg hx]
    omega
  · rw [← Int.neg_neg (j * i), Int.neg_tdiv, Int.tdiv_eq_ediv_of_nonneg (by omega)]
    omega

/-- Converted to the `int extra_us`, a jitter no larger than the interval either way still
takes no more than the interval off: it is unchanged when it fits in an `int`, and otherwise
the interval is at least `2^31`, more than any `int` takes off. -/
theorem add_toSigned_nonneg {i j : ℤ} (hj₁ : -i ≤ j) (hj₂ : j ≤ i) :
    0 ≤ i + CInt.toSigned 32 j := by
  by_cases hr : CInt.InRange 32 j
  · rw [CInt.toSigned_of_inRange (by decide) hr]
    omega
  · have hr' := CInt.inRange_toSigned (by decide : 0 < 32) j
    unfold CInt.InRange at hr hr'
    omega

/-- What `rd_kafka_timer_exp_backoff` does when nothing overflows: unschedule the timer if it
is scheduled, then set its interval and schedule it with a jitter, converted to `int`, which
are the minimum backoff and `0`, the maximum backoff and `0`, or the doubled interval and the
jitter drawn for it. -/
theorem timerExpBackoff_cases {now minimumBackoff maximumBackoff jitterPct : ℤ}
    {s' : Timers ι κ} (h : timerExpBackoff s t now minimumBackoff maximumBackoff jitterPct = some s') :
    let s₀ := if timerScheduled (s.tmr t) then timerUnschedule s t else s
    ∃ interval jitter : ℤ,
      ((interval = minimumBackoff ∧ jitter = 0) ∨
        (maximumBackoff ≠ -1 ∧ interval = maximumBackoff ∧ jitter = 0) ∨
        (interval = (s₀.tmr t).interval * 2 ∧ jitter = (jitterPct * interval).tdiv 100)) ∧
      timerSchedule (s₀.set t { s₀.tmr t with interval := interval }) t now
        (CInt.toSigned 32 jitter) = some s' := by
  unfold timerExpBackoff at h
  dsimp only at h ⊢
  generalize (if timerScheduled (s.tmr t) then timerUnschedule s t else s) = s₀ at h ⊢
  -- the three 64-bit operations are exact
  obtain ⟨interval, hi, h⟩ := Option.bind_eq_some_iff.1 h
  obtain ⟨-, rfl⟩ := CInt.mul_eq_some_iff.1 hi
  obtain ⟨p, hp, h⟩ := Option.bind_eq_some_iff.1 h
  obtain ⟨-, rfl⟩ := CInt.mul_eq_some_iff.1 hp
  obtain ⟨sum, hsum, h⟩ := Option.bind_eq_some_iff.1 h
  obtain ⟨-, rfl⟩ := CInt.add_eq_some_iff.1 hsum
  by_cases hlow : (s₀.tmr t).interval * 2 + (jitterPct * ((s₀.tmr t).interval * 2)).tdiv 100 <
      minimumBackoff
  · rw [if_pos hlow] at h
    exact ⟨_, _, .inl ⟨rfl, rfl⟩, h⟩
  · rw [if_neg hlow] at h
    by_cases hhigh : maximumBackoff ≠ -1 ∧ (s₀.tmr t).interval * 2 +
        (jitterPct * ((s₀.tmr t).interval * 2)).tdiv 100 > maximumBackoff
    · rw [if_pos hhigh] at h
      exact ⟨_, _, .inr (.inl ⟨hhigh.1, rfl, rfl⟩), h⟩
    · rw [if_neg hhigh] at h
      exact ⟨_, _, .inr (.inr ⟨rfl, rfl⟩), h⟩

/-- `rd_kafka_timer_exp_backoff` at a positive clock, with backoffs that are not negative (or
no maximum, `-1`) and a jitter of at most 100 % either way. -/
theorem Timers.WF.expBackoff (hw : s.WF) {now minimumBackoff maximumBackoff jitterPct : ℤ}
    (hnow : 0 < now) (hmin : 0 ≤ minimumBackoff) (hmax : maximumBackoff = -1 ∨ 0 ≤ maximumBackoff)
    (hj₁ : -100 ≤ jitterPct) (hj₂ : jitterPct ≤ 100) {s' : Timers ι κ}
    (h : timerExpBackoff s t now minimumBackoff maximumBackoff jitterPct = some s') : s'.WF := by
  obtain ⟨hw', ht', -, -⟩ := hw.unscheduleIf t
  obtain ⟨interval, jitter, hchoice, h⟩ := timerExpBackoff_cases h
  generalize (if timerScheduled (s.tmr t) then timerUnschedule s t else s) = s₀ at *
  -- each of the three choices gives an interval and a delay that are not negative
  have hchoice' : 0 ≤ interval ∧ 0 ≤ interval + CInt.toSigned 32 jitter := by
    have hzero : CInt.toSigned 32 0 = 0 := rfl
    rcases hchoice with ⟨rfl, rfl⟩ | ⟨hne, rfl, rfl⟩ | ⟨rfl, rfl⟩
    · omega
    · omega
    · have hi : 0 ≤ (s₀.tmr t).interval * 2 := by
        have := hw'.interval_nonneg t
        omega
      obtain ⟨hlo, hhi⟩ := tdiv_hundred_mem hi hj₁ hj₂
      exact ⟨hi, add_toSigned_nonneg hlo hhi⟩
  refine (hw'.set ht' ?_ ?_).schedule ht' hnow ?_ h
  · exact hw'.next_eq_zero_of_not_mem ht'
  · exact hchoice'.1
  · simpa using hchoice'.2

/-- What `rd_kafka_timer_override_once` does when its sum does not overflow. -/
theorem timerOverrideOnce_eq {now interval : ℤ} {s' : Timers ι κ}
    (h : timerOverrideOnce s t now interval = some s') :
    s' = timerScheduleNext (if timerScheduled (s.tmr t) then timerUnschedule s t else s) t
      (now + interval) := by
  obtain ⟨a, ha, rfl⟩ := Option.map_eq_some_iff.1 h
  obtain ⟨-, rfl⟩ := CInt.add_eq_some_iff.1 ha
  rfl

/-- `rd_kafka_timer_override_once` of a started timer, at a positive clock and an interval that
is not negative. -/
theorem Timers.WF.overrideOnce (hw : s.WF) {now interval : ℤ} (hnow : 0 < now)
    (hint : 0 ≤ interval) (hst : timerStarted (s.tmr t)) {s' : Timers ι κ}
    (h : timerOverrideOnce s t now interval = some s') : s'.WF := by
  rw [timerOverrideOnce_eq h]
  obtain ⟨hw', ht', htmr, -⟩ := hw.unscheduleIf t
  dsimp only at hw' ht' htmr
  generalize (if timerScheduled (s.tmr t) then timerUnschedule s t else s) = s₀ at *
  exact hw'.scheduleNext ht' (by rw [htmr]; exact hst) (by omega)

end WF

/-! ## Calls and firing keep the shape -/

/-- A call that keeps the shape, made at a positive clock: intervals and backoffs not negative
(a maximum backoff of `-1` is none), a jitter of at most 100 % either way, and an override only
of a started timer. -/
def TimerCall.Ok (s : Timers ι κ) (now : ℤ) : TimerCall ι κ → Prop
  | .start _ interval _ _ _ => 0 < now ∧ 0 ≤ interval
  | .stop _ => True
  | .expBackoff _ minimumBackoff maximumBackoff jitterPct =>
    0 < now ∧ 0 ≤ minimumBackoff ∧ (maximumBackoff = -1 ∨ 0 ≤ maximumBackoff) ∧
      -100 ≤ jitterPct ∧ jitterPct ≤ 100
  | .overrideOnce t interval => 0 < now ∧ 0 ≤ interval ∧ timerStarted (s.tmr t)

/-- Calls that are each `TimerCall.Ok` where they are made. -/
def CallsOk : Timers ι κ → List (ℤ × TimerCall ι κ) → Prop
  | _, [] => True
  | s, c :: cs => c.2.Ok s c.1 ∧ ∀ s', timerCall s c.1 c.2 = some s' → CallsOk s' cs

/-- Callbacks that, called in a state of the right shape, make calls that are each
`TimerCall.Ok` and return at a positive clock. -/
def CallbacksOk (cb : κ → Timers ι κ → CallbackRun ι κ) : Prop :=
  ∀ k s, Timers.WF s → CallsOk s (cb k s).calls ∧ 0 < (cb k s).clock

section Run

variable {s : Timers ι κ} {t : ι}

theorem Timers.WF.call (hw : s.WF) {now : ℤ} {c : TimerCall ι κ} (hok : c.Ok s now)
    {s' : Timers ι κ} (h : timerCall s now c = some s') : s'.WF := by
  cases c with
  | start t interval oneshot restart callback => exact hw.start0 hok.1 hok.2 h
  | stop t =>
    cases h
    exact (hw.stop t).1
  | expBackoff t minimumBackoff maximumBackoff jitterPct =>
    obtain ⟨hnow, hmin, hmax, hj₁, hj₂⟩ := hok
    exact hw.expBackoff hnow hmin hmax hj₁ hj₂ h
  | overrideOnce t interval => exact hw.overrideOnce hok.1 hok.2.1 hok.2.2 h

theorem Timers.WF.calls : ∀ {s s' : Timers ι κ} {calls : List (ℤ × TimerCall ι κ)}, s.WF →
    CallsOk s calls → timerCalls s calls = some s' → s'.WF
  | _, _, [], hw, _, h => by
    cases h
    exact hw
  | _, _, c :: cs, hw, hok, h => by
    obtain ⟨s₁, h₁, h⟩ := Option.bind_eq_some_iff.1 h
    exact (hw.call hok.1 h₁).calls (hok.2 s₁ h₁) h

variable {cb : κ → Timers ι κ → CallbackRun ι κ}

/-- One firing keeps the shape: the timer is off the list while its callback runs, and is
rescheduled only if it is then started and off the list. -/
theorem Timers.WF.runFire (hcb : CallbacksOk cb) (hw : s.WF) {s' : Timers ι κ}
    (h : timersRunFire cb s t = some s') : s'.WF := by
  unfold timersRunFire at h
  have hw1 := hw.unschedule t
  have ht1 : t ∉ (timerUnschedule s t).timers := hw.nodup.not_mem_erase
  have hn1 : ((timerUnschedule s t).tmr t).next = 0 := by simp
  dsimp only at h
  generalize timerUnschedule s t = s1 at *
  -- a oneshot timer is disabled before its callback, off the list either way
  have hw2 : (if (s1.tmr t).oneshot then s1.set t { s1.tmr t with interval := 0 }
      else s1).WF := by
    by_cases ho : (s1.tmr t).oneshot
    · rw [if_pos ho]
      exact hw1.set ht1 hn1 (le_refl 0)
    · rw [if_neg ho]
      exact hw1
  generalize (if (s1.tmr t).oneshot then s1.set t { s1.tmr t with interval := 0 } else s1) = s2
    at hw2 h
  split at h
  · cases h
  · rename_i k _
    obtain ⟨hcalls, hclock⟩ := hcb k s2 hw2
    obtain ⟨s3, h3, h⟩ := Option.bind_eq_some_iff.1 h
    have hw3 := hw2.calls hcalls h3
    by_cases hre : (!(s1.tmr t).oneshot && decide (timerStarted (s3.tmr t)) &&
        !decide (timerScheduled (s3.tmr t))) = true
    · rw [if_pos hre] at h
      have hsch : ¬timerScheduled (s3.tmr t) := by
        simp only [Bool.and_eq_true, Bool.not_eq_true', decide_eq_false_iff_not] at hre
        exact hre.2
      exact hw3.schedule (hw3.not_mem_of_not_scheduled hsch) hclock
        (by simpa using hw3.interval_nonneg t) h
    · rw [if_neg hre] at h
      cases h
      exact hw3

/-- The firing loop keeps the shape, however often callbacks change the list. -/
theorem Timers.WF.runLoop (hcb : CallbacksOk cb) {now : ℤ} :
    ∀ {fuel : ℕ} {s s' : Timers ι κ} {fired fired' : List ι}, s.WF →
      timersRunLoop cb now fuel s fired = some (s', fired') → s'.WF := by
  intro fuel
  -- one firing per unit of fuel, each keeping the shape
  induction fuel with
  | zero =>
    intro s s' fired fired' _ h
    cases h
  | succ fuel ih =>
    intro s s' fired fired' hw h
    rw [timersRunLoop] at h
    split at h
    · cases h
      exact hw
    · rename_i t rest _
      by_cases hdue : (s.tmr t).next ≤ now
      · rw [if_pos hdue] at h
        obtain ⟨s1, hfire, hloop⟩ := Option.bind_eq_some_iff.1 h
        exact ih (hw.runFire hcb hfire) hloop
      · rw [if_neg hdue] at h
        cases h
        exact hw

end Run

/-! ## What puts a timer on the list -/

/-- A call that may put timer `t` on the list: a start, backoff or override of it. -/
def TimerCall.Revives (t : ι) : TimerCall ι κ → Prop
  | .start u _ _ _ _ => u = t
  | .stop _ => False
  | .expBackoff u _ _ _ => u = t
  | .overrideOnce u _ => u = t

section Frame

variable {s : Timers ι κ} {t u : ι}

theorem mem_of_mem_unscheduleIf
    (h : u ∈ (if timerScheduled (s.tmr t) then timerUnschedule s t else s).timers) :
    u ∈ s.timers := by
  by_cases hsch : timerScheduled (s.tmr t)
  · rw [if_pos hsch, timerUnschedule_timers] at h
    exact List.mem_of_mem_erase h
  · rwa [if_neg hsch] at h

theorem mem_timerScheduleNext {absTime : ℤ} (h : u ∈ (timerScheduleNext s t absTime).timers) :
    u = t ∨ u ∈ s.timers := by
  rw [timerScheduleNext_eq] at h
  exact (List.mem_orderedInsert _).1 h

theorem mem_timerSchedule {now extraUs : ℤ} {s' : Timers ι κ}
    (h : timerSchedule s t now extraUs = some s') (hu : u ∈ s'.timers) : u = t ∨ u ∈ s.timers := by
  rcases timerSchedule_cases h with rfl | ⟨-, rfl⟩
  · exact .inr hu
  · exact mem_timerScheduleNext hu

theorem mem_timerStop (h : u ∈ (timerStop s t).1.timers) : u ∈ s.timers := by
  unfold timerStop at h
  by_cases hst : timerStarted (s.tmr t)
  · rw [if_neg (not_not.2 hst)] at h
    exact mem_of_mem_unscheduleIf h
  · rwa [if_pos hst] at h

/-- A call puts on the list no timer but its own, and only by a start, backoff or override. -/
theorem mem_timerCall {now : ℤ} {c : TimerCall ι κ} {s' : Timers ι κ}
    (h : timerCall s now c = some s') (hu : u ∈ s'.timers) : c.Revives u ∨ u ∈ s.timers := by
  cases c with
  | start t interval oneshot restart callback =>
    simp only [timerCall] at h
    unfold timerStart0 at h
    by_cases hkeep : (!restart && decide (timerScheduled (s.tmr t))) = true
    · rw [if_pos hkeep] at h
      cases h
      exact .inr hu
    · rw [if_neg hkeep] at h
      rcases mem_timerSchedule h hu with rfl | hu
      · exact .inl rfl
      · exact .inr (mem_timerStop hu)
  | stop t =>
    cases h
    exact .inr (mem_timerStop hu)
  | expBackoff t minimumBackoff maximumBackoff jitterPct =>
    -- whichever interval and jitter are chosen, only `t` is scheduled
    obtain ⟨interval, jitter, -, h⟩ := timerExpBackoff_cases h
    rcases mem_timerSchedule h hu with rfl | hu
    · exact .inl rfl
    · exact .inr (mem_of_mem_unscheduleIf hu)
  | overrideOnce t interval =>
    simp only [timerCall] at h
    rw [timerOverrideOnce_eq h] at hu
    rcases mem_timerScheduleNext hu with rfl | hu
    · exact .inl rfl
    · exact .inr (mem_of_mem_unscheduleIf hu)

theorem mem_timerCalls : ∀ {s s' : Timers ι κ} {calls : List (ℤ × TimerCall ι κ)},
    (∀ c ∈ calls, ¬c.2.Revives u) → timerCalls s calls = some s' → u ∈ s'.timers →
      u ∈ s.timers
  | _, _, [], _, h, hu => by
    cases h
    exact hu
  | _, _, c :: cs, hrev, h, hu => by
    obtain ⟨s₁, h₁, h⟩ := Option.bind_eq_some_iff.1 h
    have hmem := mem_timerCalls (fun c' hc' => hrev c' (List.mem_cons_of_mem _ hc')) h hu
    exact (mem_timerCall h₁ hmem).resolve_left (hrev c List.mem_cons_self)

variable {cb : κ → Timers ι κ → CallbackRun ι κ}

/-- A firing puts on the list no timer but the one fired, when no callback revives it. -/
theorem mem_timersRunFire (hrev : ∀ k s, ∀ c ∈ (cb k s).calls, ¬c.2.Revives u)
    {s' : Timers ι κ} (h : timersRunFire cb s t = some s') (hu : u ∈ s'.timers) :
    u = t ∨ u ∈ s.timers := by
  unfold timersRunFire at h
  dsimp only at h
  have h1 : ∀ v, v ∈ (timerUnschedule s t).timers → v ∈ s.timers :=
    fun _ hv => List.mem_of_mem_erase hv
  generalize timerUnschedule s t = s1 at h h1
  have h2 : ∀ v, v ∈ (if (s1.tmr t).oneshot then s1.set t { s1.tmr t with interval := 0 }
      else s1).timers → v ∈ s.timers := by
    intro v hv
    by_cases ho : (s1.tmr t).oneshot
    · rw [if_pos ho] at hv
      exact h1 v hv
    · rw [if_neg ho] at hv
      exact h1 v hv
  generalize (if (s1.tmr t).oneshot then s1.set t { s1.tmr t with interval := 0 } else s1) = s2
    at h h2
  split at h
  · cases h
  · rename_i k _
    -- the calls of the callback add nothing, and the rescheduling only `t`
    obtain ⟨s3, h3, h⟩ := Option.bind_eq_some_iff.1 h
    have h3' : u ∈ s3.timers → u ∈ s.timers := fun hv => h2 u (mem_timerCalls (hrev k s2) h3 hv)
    split at h
    · rcases mem_timerSchedule h hu with rfl | hu
      · exact .inl rfl
      · exact .inr (h3' hu)
    · cases h
      exact .inr (h3' hu)

/-- **A timer off the list is not fired** by a firing loop whose callbacks do not start, back
off or override it, and is still off the list after it. -/
theorem timersRunLoop_not_fired (hrev : ∀ k s, ∀ c ∈ (cb k s).calls, ¬c.2.Revives t)
    {now : ℤ} : ∀ {fuel : ℕ} {s s' : Timers ι κ} {fired fired' : List ι}, t ∉ s.timers →
      timersRunLoop cb now fuel s fired = some (s', fired') →
      ∃ new, fired' = fired ++ new ∧ t ∉ new ∧ t ∉ s'.timers := by
  intro fuel
  -- each firing fires the head of the list, which is not `t`, and does not put `t` back
  induction fuel with
  | zero =>
    intro s s' fired fired' _ h
    cases h
  | succ fuel ih =>
    intro s s' fired fired' ht h
    rw [timersRunLoop] at h
    split at h
    · cases h
      exact ⟨[], (List.append_nil _).symm, List.not_mem_nil, ht⟩
    · rename_i u rest hcons
      have hut : u ≠ t := ne_of_mem_of_not_mem (hcons ▸ List.mem_cons_self) ht
      by_cases hdue : (s.tmr u).next ≤ now
      · rw [if_pos hdue] at h
        obtain ⟨s1, hfire, hloop⟩ := Option.bind_eq_some_iff.1 h
        have ht1 : t ∉ s1.timers := fun h1 =>
          (mem_timersRunFire hrev hfire h1).elim (fun h2 => hut h2.symm) ht
        obtain ⟨new, rfl, hnew, ht'⟩ := ih ht1 hloop
        refine ⟨u :: new, by simp, ?_, ht'⟩
        exact fun hmem => (List.mem_cons.1 hmem).elim (fun h' => hut h'.symm) hnew
      · rw [if_neg hdue] at h
        cases h
        exact ⟨[], (List.append_nil _).symm, List.not_mem_nil, ht⟩

end Frame

/-! ## Runs -/

/-- What happens to the timers: a call at a clock, or a firing loop at a clock with its fuel. -/
inductive TimerEvent (ι κ : Type) where
  | call (now : ℤ) (c : TimerCall ι κ)
  | run (now : ℤ) (fuel : ℕ)

/-- A call that may put timer `t` on the list. -/
def TimerEvent.Revives (t : ι) : TimerEvent ι κ → Prop
  | .call _ c => c.Revives t
  | .run _ _ => False

/-- Events one after another: the timers after them and, in order, the timers fired. -/
def timersEvents (cb : κ → Timers ι κ → CallbackRun ι κ) :
    Timers ι κ → List (TimerEvent ι κ) → Option (Timers ι κ × List ι)
  | s, [] => some (s, [])
  | s, .call now c :: es => (timerCall s now c).bind fun s => timersEvents cb s es
  | s, .run now fuel :: es =>
    (timersRunLoop cb now fuel s []).bind fun r =>
      (timersEvents cb r.1 es).map fun r' => (r'.1, r.2 ++ r'.2)

/-- Events whose calls are each `TimerCall.Ok` where they are made. -/
def EventsOk (cb : κ → Timers ι κ → CallbackRun ι κ) :
    Timers ι κ → List (TimerEvent ι κ) → Prop
  | _, [] => True
  | s, .call now c :: es => c.Ok s now ∧ ∀ s', timerCall s now c = some s' → EventsOk cb s' es
  | s, .run now fuel :: es =>
    ∀ r, timersRunLoop cb now fuel s [] = some r → EventsOk cb r.1 es

section Events

variable {cb : κ → Timers ι κ → CallbackRun ι κ}

/-- **The shape holds over every run** whose calls, and whose callbacks' calls, are
`TimerCall.Ok`: sorted by next firing time, each timer once, exactly the scheduled ones. -/
theorem timersEvents_wf (hcb : CallbacksOk cb) :
    ∀ {es : List (TimerEvent ι κ)} {s : Timers ι κ} {r : Timers ι κ × List ι}, s.WF →
      EventsOk cb s es → timersEvents cb s es = some r → r.1.WF
  | [], _, _, hw, _, h => by
    cases h
    exact hw
  | .call now c :: es, s, r, hw, hok, h => by
    obtain ⟨s₁, h₁, h⟩ := Option.bind_eq_some_iff.1 h
    exact timersEvents_wf hcb (hw.call hok.1 h₁) (hok.2 s₁ h₁) h
  | .run now fuel :: es, s, r, hw, hok, h => by
    obtain ⟨r₁, hloop, hrest⟩ := Option.bind_eq_some_iff.1 h
    obtain ⟨r₂, hevents, rfl⟩ := Option.map_eq_some_iff.1 hrest
    show r₂.1.WF
    exact timersEvents_wf hcb (hw.runLoop hcb hloop) (hok r₁ hloop) hevents

/-- A timer off the list is never fired, and stays off, over a run of events and callbacks
that do not start, back off or override it. -/
theorem timersEvents_not_fired {t : ι} (hrev : ∀ k s, ∀ c ∈ (cb k s).calls, ¬c.2.Revives t) :
    ∀ {es : List (TimerEvent ι κ)} {s : Timers ι κ} {r : Timers ι κ × List ι},
      (∀ e ∈ es, ¬e.Revives t) → t ∉ s.timers → timersEvents cb s es = some r →
      t ∉ r.2 ∧ t ∉ r.1.timers
  | [], _, _, _, ht, h => by
    cases h
    exact ⟨List.not_mem_nil, ht⟩
  | .call now c :: es, s, r, hes, ht, h => by
    obtain ⟨s₁, h₁, h⟩ := Option.bind_eq_some_iff.1 h
    have ht' : t ∉ s₁.timers := fun hmem =>
      (mem_timerCall h₁ hmem).elim (hes _ List.mem_cons_self) ht
    exact timersEvents_not_fired hrev (fun e he => hes e (List.mem_cons_of_mem _ he)) ht' h
  | .run now fuel :: es, s, r, hes, ht, h => by
    obtain ⟨r₁, hloop, hrest⟩ := Option.bind_eq_some_iff.1 h
    obtain ⟨r₂, hevents, rfl⟩ := Option.map_eq_some_iff.1 hrest
    obtain ⟨new, hfired, hnew, ht₁⟩ := timersRunLoop_not_fired hrev ht hloop
    obtain ⟨hfired₂, ht₂⟩ :=
      timersEvents_not_fired hrev (fun e he => hes e (List.mem_cons_of_mem _ he)) ht₁ hevents
    refine ⟨fun hmem => ?_, ht₂⟩
    rw [hfired, List.nil_append] at hmem
    rcases List.mem_append.1 hmem with h₁ | h₂
    · exact hnew h₁
    · exact hfired₂ h₂

/-- **The shape holds in every reachable state, and a stop there is for good.**  Every state
reached from `rd_kafka_timers_init` by calls that are `TimerCall.Ok`, with callbacks whose calls
are too, has the shape; and from it, `rd_kafka_timer_stop` of a timer followed by any events, and
callbacks, that do not start, back off or override it, never fires the timer and leaves it off
the list. -/
theorem timersEvents_wf_stop_never_fired (hcb : CallbacksOk cb) {es₀ : List (TimerEvent ι κ)}
    (hok : EventsOk cb timersInit es₀) {r₀ : Timers ι κ × List ι}
    (h₀ : timersEvents cb timersInit es₀ = some r₀) :
    r₀.1.WF ∧
      ∀ t : ι, (∀ k s, ∀ c ∈ (cb k s).calls, ¬c.2.Revives t) →
        ∀ (now : ℤ) (es : List (TimerEvent ι κ)), (∀ e ∈ es, ¬e.Revives t) →
          ∀ r, timersEvents cb r₀.1 (.call now (.stop t) :: es) = some r →
            t ∉ r.2 ∧ t ∉ r.1.timers := by
  have hw := timersEvents_wf hcb timersInit_wf hok h₀
  refine ⟨hw, fun t hrev now es hes r h => ?_⟩
  -- the stop takes `t` off the list, where no later event puts it back
  obtain ⟨s₁, h₁, h⟩ := Option.bind_eq_some_iff.1 h
  cases h₁
  exact timersEvents_not_fired hrev hes (hw.stop t).2.1 h

/-- Timer `0` started with an interval of 1000 at clock 1 fires in the run at 2000 and is
rescheduled at 7000; stopped at 2500, it is not fired by the run at 8000. -/
theorem timersEvents_wf_stop_never_fired_started :
    ∃ r₀, timersEvents (fun _ _ => ⟨[], 6000⟩) (timersInit : Timers ℕ Unit)
        [.call 1 (.start 0 1000 false true ()), .run 2000 3] = some r₀ ∧ r₀.2 = [0] ∧
      r₀.1.WF ∧ ∃ r, timersEvents (fun _ _ => ⟨[], 6000⟩) r₀.1
        [.call 2500 (.stop 0), .run 8000 3] = some r ∧ 0 ∉ r.2 ∧ 0 ∉ r.1.timers := by
  obtain ⟨r, hr⟩ := Option.isSome_iff_exists.1 (by decide +kernel :
    ((timersEvents (fun _ _ => ⟨[], 6000⟩) (timersInit : Timers ℕ Unit)
        [.call 1 (.start 0 1000 false true ()), .run 2000 3]).bind fun r₀ =>
      (timersEvents (fun _ _ => ⟨[], 6000⟩) r₀.1 [.call 2500 (.stop 0), .run 8000 3]).map
        fun r => (r₀, r)).isSome)
  obtain ⟨r₀, h₀, hr⟩ := Option.bind_eq_some_iff.1 hr
  obtain ⟨r', h, rfl⟩ := Option.map_eq_some_iff.1 hr
  have hfired : r₀.2 = [0] := by
    have hmap := congrArg (Option.map Prod.snd) h₀
    rw [Option.map_some] at hmap
    exact Option.some_inj.1 (hmap.symm.trans (by decide +kernel))
  have hcb : CallbacksOk fun (_ : Unit) (_ : Timers ℕ Unit) => (⟨[], 6000⟩ : CallbackRun ℕ Unit) :=
    fun _ _ _ => ⟨trivial, show (0 : ℤ) < 6000 by decide⟩
  have hok : EventsOk (fun _ _ => ⟨[], 6000⟩) (timersInit : Timers ℕ Unit)
      [.call 1 (.start 0 1000 false true ()), .run 2000 3] :=
    ⟨⟨by decide, by decide⟩, fun _ _ _ _ => trivial⟩
  obtain ⟨hw, hstop⟩ := timersEvents_wf_stop_never_fired hcb hok h₀
  exact ⟨r₀, h₀, hfired, hw, r', h,
    hstop 0 (fun _ _ _ hc => absurd hc List.not_mem_nil) 2500 _
      (by simp [TimerEvent.Revives]) r' h⟩

end Events

/-- `rd_kafka_timer_override_once` of a stopped timer schedules it although it is not started,
so `rd_kafka_timer_stop` leaves it on the list, and the next run calls its callback. -/
theorem timerStop_overridden_fires :
    (timersEvents (fun _ _ => ⟨[], 1000⟩) (timersInit : Timers ℕ Unit)
        [.call 1 (.start 0 1000 false true ()), .call 2 (.stop 0), .call 3 (.overrideOnce 0 500),
          .call 4 (.stop 0)]).map
      (fun r => (decide (0 ∈ r.1.timers), decide (timerStarted (r.1.tmr 0)))) =
      some (true, false) ∧
    (timersEvents (fun _ _ => ⟨[], 1000⟩) (timersInit : Timers ℕ Unit)
        [.call 1 (.start 0 1000 false true ()), .call 2 (.stop 0), .call 3 (.overrideOnce 0 500),
          .call 4 (.stop 0), .run 1000 2]).map Prod.snd = some [0] := by
  decide +kernel

end Rdkafka
