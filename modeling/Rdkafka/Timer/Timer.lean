import Mathlib.Logic.Function.Basic
import Rdkafka.Lib.CInt
import Rdkafka.Lib.KeySorted

/-!
# Timers

This file models `src/rdkafka_timer.c`: the timers of an `rd_kafka_timers_t`, linked on the
list `rkts_timers` in order of their next firing time.  A timer is *started* when its interval
is not `0` (`rd_kafka_timer_started`) and *scheduled* when its next firing time is not `0`
(`rd_kafka_timer_scheduled`), and the code tracks the two separately:
`rd_kafka_timer_stop` unschedules only a timer that is started, while
`rd_kafka_timer_override_once` schedules a timer whether it is started or not.

Timers are named by a type `ι` and callbacks, each with its `rtmr_arg`, by `κ`.  Every call
reads the clock `rd_clock()`, which the model takes as an argument.  `rd_kafka_timers_run`
fires the due timers at the head of the list and calls their callbacks, which may themselves
call any of the timer functions: what a callback does is given as the calls it makes.

Clock readings, intervals and backoffs are `rd_ts_t`, 64 bits: a function whose arithmetic on
them overflows returns `none`.  The `extra_us` of `rd_kafka_timer_schedule` is an `int`.
-/

set_option autoImplicit false

namespace Rdkafka

/-- `rd_kafka_timer_t`.  `callback` is `rtmr_callback` with its `rtmr_arg`, `none` while it is
`NULL`. -/
structure Timer (κ : Type) where
  next : ℤ
  interval : ℤ
  oneshot : Bool
  callback : Option κ
  deriving DecidableEq, Repr

/-- A timer as its owner allocates it, zeroed. -/
def Timer.zero {κ : Type} : Timer κ := ⟨0, 0, false, none⟩

/-- `rd_kafka_timers_t`: the list `rkts_timers`, the timers it links, and `rkts_enabled`. -/
structure Timers (ι κ : Type) where
  timers : List ι
  tmr : ι → Timer κ
  enabled : Bool

variable {ι κ : Type} [DecidableEq ι]

/-- The timers with timer `t` replaced by `r`. -/
def Timers.set (s : Timers ι κ) (t : ι) (r : Timer κ) : Timers ι κ :=
  { s with tmr := Function.update s.tmr t r }

@[simp] theorem Timers.set_timers (s : Timers ι κ) (t : ι) (r : Timer κ) :
    (s.set t r).timers = s.timers := rfl

@[simp] theorem Timers.set_tmr_self (s : Timers ι κ) (t : ι) (r : Timer κ) :
    (s.set t r).tmr t = r :=
  Function.update_self _ _ _

@[simp] theorem Timers.set_tmr_of_ne (s : Timers ι κ) {t u : ι} (r : Timer κ) (h : u ≠ t) :
    (s.set t r).tmr u = s.tmr u :=
  Function.update_of_ne h _ _

/-- `rd_kafka_timers_init`: no timer on the list, every timer zeroed. -/
def timersInit : Timers ι κ := ⟨[], fun _ => Timer.zero, true⟩

/-- `rd_kafka_timer_started`. -/
def timerStarted (r : Timer κ) : Prop := r.interval ≠ 0

instance (r : Timer κ) : Decidable (timerStarted r) := inferInstanceAs (Decidable (_ ≠ _))

/-- `rd_kafka_timer_scheduled`. -/
def timerScheduled (r : Timer κ) : Prop := r.next ≠ 0

instance (r : Timer κ) : Decidable (timerScheduled r) := inferInstanceAs (Decidable (_ ≠ _))

/-- `rd_kafka_timer_cmp`: `RD_CMP` of the next firing times. -/
def timerCmp (a b : Timer κ) : ℤ :=
  if a.next < b.next then -1 else if a.next > b.next then 1 else 0

/-- `rd_kafka_timer_unschedule`: `TAILQ_REMOVE` and a next firing time of `0`. -/
def timerUnschedule (s : Timers ι κ) (t : ι) : Timers ι κ :=
  { s.set t { s.tmr t with next := 0 } with timers := s.timers.erase t }

/-- `rd_kafka_timer_schedule_next`: insert at the head when the list is empty or its head
fires later, and otherwise with `TAILQ_INSERT_SORTED`, before the first timer that
`rd_kafka_timer_cmp` puts after this one.  The condition variable and the wake-up queue that
are signalled on a new head are left out. -/
def timerScheduleNext (s : Timers ι κ) (t : ι) (absTime : ℤ) : Timers ι κ :=
  let s := s.set t { s.tmr t with next := absTime }
  match s.timers with
  | [] => { s with timers := [t] }
  | first :: _ =>
    if (s.tmr first).next > (s.tmr t).next then { s with timers := t :: s.timers }
    else
      { s with
        timers := s.timers.orderedInsert (fun a b => timerCmp (s.tmr a) (s.tmr b) < 0) t }

/-- `rd_kafka_timer_schedule`: schedule a started timer, while the timers are enabled, one
interval plus `extraUs` after `now`. -/
def timerSchedule (s : Timers ι κ) (t : ι) (now extraUs : ℤ) : Option (Timers ι κ) :=
  if ¬timerStarted (s.tmr t) then some s
  else if !s.enabled then some s
  else
    (CInt.add 64 now (s.tmr t).interval).bind fun a =>
    (CInt.add 64 a extraUs).map (timerScheduleNext s t)

/-- `rd_kafka_timer_stop`, with whether the timer was started: a timer that is not started is
left as it is, scheduled or not. -/
def timerStop (s : Timers ι κ) (t : ι) : Timers ι κ × Bool :=
  if ¬timerStarted (s.tmr t) then (s, false)
  else
    let s := if timerScheduled (s.tmr t) then timerUnschedule s t else s
    (s.set t { s.tmr t with interval := 0 }, true)

/-- `rd_kafka_timer_start0`. -/
def timerStart0 (s : Timers ι κ) (t : ι) (now interval : ℤ) (oneshot restart : Bool)
    (callback : κ) : Option (Timers ι κ) :=
  if !restart && decide (timerScheduled (s.tmr t)) then some s
  else
    let s := (timerStop s t).1
    let s := s.set t { s.tmr t with
      interval := if interval = 0 then 1 else interval
      callback := some callback
      oneshot := oneshot }
    timerSchedule s t now 0

/-- `rd_kafka_timer_exp_backoff`.  `jitterPct` is the value `rd_jitter(-max_jitter,
max_jitter)` drew.  The doubled interval, the `int64_t` jitter and their sum are computed in
64 bits, and the division truncates; the jitter is then converted to the `int extra_us` of
`rd_kafka_timer_schedule`. -/
def timerExpBackoff (s : Timers ι κ) (t : ι) (now minimumBackoff maximumBackoff jitterPct : ℤ) :
    Option (Timers ι κ) :=
  let s := if timerScheduled (s.tmr t) then timerUnschedule s t else s
  (CInt.mul 64 (s.tmr t).interval 2).bind fun interval =>
  (CInt.mul 64 jitterPct interval).bind fun p =>
  let jitter := p.tdiv 100
  -- `rtmr_interval + jitter`, the same sum in both comparisons
  (CInt.add 64 interval jitter).bind fun sum =>
  let (interval, jitter) :=
    if sum < minimumBackoff then (minimumBackoff, 0)
    else if maximumBackoff ≠ -1 ∧ sum > maximumBackoff then (maximumBackoff, 0)
    else (interval, jitter)
  timerSchedule (s.set t { s.tmr t with interval := interval }) t now (CInt.toSigned 32 jitter)

/-- `rd_kafka_timer_override_once`: unschedule the timer if it is scheduled and schedule it
`interval` after `now`, whether it is started or not. -/
def timerOverrideOnce (s : Timers ι κ) (t : ι) (now interval : ℤ) : Option (Timers ι κ) :=
  let s := if timerScheduled (s.tmr t) then timerUnschedule s t else s
  (CInt.add 64 now interval).map (timerScheduleNext s t)

/-! ## Calls and firing -/

/-- A call of one of the timer functions. -/
inductive TimerCall (ι κ : Type) where
  /-- `rd_kafka_timer_start0(rkts, t, interval, oneshot, restart, callback, arg)`. -/
  | start (t : ι) (interval : ℤ) (oneshot restart : Bool) (callback : κ)
  /-- `rd_kafka_timer_stop(rkts, t, lock)`. -/
  | stop (t : ι)
  /-- `rd_kafka_timer_exp_backoff(rkts, t, minimum_backoff, maximum_backoff, max_jitter)`,
  with the jitter it drew. -/
  | expBackoff (t : ι) (minimumBackoff maximumBackoff jitterPct : ℤ)
  /-- `rd_kafka_timer_override_once(rkts, t, interval)`. -/
  | overrideOnce (t : ι) (interval : ℤ)
  deriving DecidableEq, Repr

/-- A call made when the clock reads `now`. -/
def timerCall (s : Timers ι κ) (now : ℤ) : TimerCall ι κ → Option (Timers ι κ)
  | .start t interval oneshot restart callback =>
    timerStart0 s t now interval oneshot restart callback
  | .stop t => some (timerStop s t).1
  | .expBackoff t minimumBackoff maximumBackoff jitterPct =>
    timerExpBackoff s t now minimumBackoff maximumBackoff jitterPct
  | .overrideOnce t interval => timerOverrideOnce s t now interval

/-- Calls made one after another, each at the clock it reads. -/
def timerCalls : Timers ι κ → List (ℤ × TimerCall ι κ) → Option (Timers ι κ)
  | s, [] => some s
  | s, c :: cs => (timerCall s c.1 c.2).bind fun s => timerCalls s cs

/-- What a callback does when it is fired: the calls it makes, each with the clock it reads,
and the clock that `rd_kafka_timer_schedule` reads after it returns. -/
structure CallbackRun (ι κ : Type) where
  calls : List (ℤ × TimerCall ι κ)
  clock : ℤ

/-- The body of the firing loop of `rd_kafka_timers_run`, for the due timer `t` at the head of
the list: unschedule it, disable it if it is a oneshot timer, call its callback (`cb` says what
each callback does from the state it is called in), and reschedule the timer unless it is a
oneshot timer, was stopped or was scheduled by the callback.  `none` for a `NULL` callback,
and when a call overflows. -/
def timersRunFire (cb : κ → Timers ι κ → CallbackRun ι κ) (s : Timers ι κ) (t : ι) :
    Option (Timers ι κ) :=
  let s := timerUnschedule s t
  let oneshot := (s.tmr t).oneshot
  let s := if oneshot then s.set t { s.tmr t with interval := 0 } else s
  match (s.tmr t).callback with
  | none => none
  | some c =>
    let r := cb c s
    (timerCalls s r.calls).bind fun s =>
      if !oneshot && decide (timerStarted (s.tmr t)) && !decide (timerScheduled (s.tmr t))
      then timerSchedule s t r.clock 0
      else some s

/-- The firing loop of `rd_kafka_timers_run` at the clock `now`: fire the head of the list
while it is due.  It returns the timers and, in order, the timers whose callbacks were called;
`none` for a `NULL` callback, an overflow, or when `fuel` runs out, as the loop need not end
when callbacks keep scheduling due timers.  The waiting around the loop is left out. -/
def timersRunLoop (cb : κ → Timers ι κ → CallbackRun ι κ) (now : ℤ) :
    ℕ → Timers ι κ → List ι → Option (Timers ι κ × List ι)
  | 0, _, _ => none
  | fuel + 1, s, fired =>
    match s.timers with
    | [] => some (s, fired)
    | t :: _ =>
      if (s.tmr t).next ≤ now then
        (timersRunFire cb s t).bind fun s => timersRunLoop cb now fuel s (fired ++ [t])
      else some (s, fired)

end Rdkafka
