import RtThread.Lib.Queue
import RtThread.Lib.Run
import Mathlib.Data.BitVec
import Mathlib.Logic.Function.Basic

/-!
# Timers (`timer.c`)

Timers wait in a list sorted by expiry, hard timers in one and soft timers in
another. `rt_timer_check` runs in the tick interrupt, with interrupts off: it takes
due timers from the head of the hard list and calls their functions, which may
themselves start, stop and control timers. `Step` is one operation of a thread or
of a callback, or one step of the loop of `rt_timer_check`.

`RT_TIMER_SKIP_LIST_LEVEL` is 1, its default, so a timer list has one row.
-/

namespace RtThread.Timer

/-- `rt_tick_t`. -/
abbrev Tick := BitVec 32

/-- `RT_TICK_MAX`. -/
def rtTickMax : Tick := 0xffffffff#32

/-- `rt_tick_from_millisecond` (`clock.c`); -1 is `RT_WAITING_FOREVER`. -/
def rtTickFromMillisecond (tickPerSecond : ℕ) (ms : ℤ) : Tick :=
  if ms < 0 then -1#32
  else BitVec.ofInt 32 (tickPerSecond * (ms / 1000)) + BitVec.ofInt 32 ((tickPerSecond * (ms % 1000) + 999) / 1000)

/-- `struct rt_timer`: the bits of `parent.flag`, and the two ticks. -/
structure RtTimer where
  activated : Bool
  periodic : Bool
  softTimer : Bool
  initTick : Tick
  timeoutTick : Tick

/-- `_rt_timer_init`. -/
def rtTimerInit (time : Tick) (periodic softTimer : Bool) : RtTimer :=
  { activated := false, periodic, softTimer, initTick := time, timeoutTick := 0 }

/-- `rt_timer_control`'s commands. -/
inductive Ctrl
  | getTime
  | setTime (time : Tick)
  | setOneshot
  | setPeriodic

/-- All timers, the two timer lists and `rt_tick`. -/
structure Timers (T : Type*) where
  timer : T → RtTimer
  /-- `rt_timer_list` -/
  hardList : List T
  /-- `rt_soft_timer_list` -/
  softList : List T
  tick : Tick

namespace Timers

variable {T : Type*} [DecidableEq T] (s : Timers T)

/-- Change one timer. -/
def modify (t : T) (f : RtTimer → RtTimer) : Timers T :=
  { s with timer := Function.update s.timer t (f (s.timer t)) }

def setActivated (t : T) (v : Bool) : Timers T := s.modify t fun x => { x with activated := v }

/-- The timer is linked in a timer list. -/
def Linked (t : T) : Prop := t ∈ s.hardList ∨ t ∈ s.softList

/-- `_rt_timer_remove`: unlink the timer's row from whatever list it is in. -/
def remove (t : T) : Timers T :=
  { s with hardList := s.hardList.filter (· ≠ t), softList := s.softList.filter (· ≠ t) }

/-- The walk of `rt_timer_start` stops before timer `x`: it expires after `t`. -/
def expiresAfter (t x : T) : Bool :=
  let d := (s.timer x).timeoutTick - (s.timer t).timeoutTick
  if d = 0 then false else d < rtTickMax / 2

/-- Insert the timer into its list: behind the timers that expire no later. -/
def link (usingSoft : Bool) (t : T) : Timers T :=
  if usingSoft && (s.timer t).softTimer then
    { s with softList := Queue.insertBefore (s.expiresAfter t) t s.softList }
  else { s with hardList := Queue.insertBefore (s.expiresAfter t) t s.hardList }

/-- `rt_timer_start`; `usingSoft` is `RT_USING_TIMER_SOFT`. A failed `RT_ASSERT` stops the
system. -/
def rtTimerStart (usingSoft : Bool) (t : T) : Option (Timers T) :=
  let s := (s.remove t).setActivated t false
  if (s.timer t).initTick < rtTickMax / 2 then
    let s := s.modify t fun x => { x with timeoutTick := s.tick + x.initTick }
    some ((s.link usingSoft t).setActivated t true)
  else none

/-- `rt_timer_stop`: whether it returns `RT_EOK`, and the new state. -/
def rtTimerStop (t : T) : Bool × Timers T :=
  if (s.timer t).activated = false then (false, s)
  else (true, (s.remove t).setActivated t false)

/-- `rt_timer_control`: the tick it hands out, and the new state. -/
def rtTimerControl (t : T) : Ctrl → Option Tick × Timers T
  | .getTime => (some (s.timer t).initTick, s)
  | .setTime time => (none, s.modify t fun x => { x with initTick := time })
  | .setOneshot => (none, s.modify t fun x => { x with periodic := false })
  | .setPeriodic => (none, s.modify t fun x => { x with periodic := true })

/-- `rt_timer_check`'s test: the timer is due at `currentTick`. -/
def due (currentTick : Tick) (t : T) : Bool :=
  currentTick - (s.timer t).timeoutTick < rtTickMax / 2

/-- `rt_timer_check` starts the timer again after its callback. -/
def restarts (t : T) : Bool := (s.timer t).periodic && (s.timer t).activated

/-- What `rt_timer_check` does after the callback of `t`. -/
def afterCallback (usingSoft : Bool) (t : T) : Option (Timers T) :=
  if s.restarts t then (s.setActivated t false).rtTimerStart usingSoft t
  else some (s.setActivated t false)

end Timers

/-- Where `rt_timer_check` is. -/
inductive Pc (T : Type*)
  /-- not running -/
  | idle
  /-- at the head of its loop -/
  | checking (currentTick : Tick)
  /-- in the callback of a timer -/
  | calling (t : T)

/-- The timers, the loop, and a history of `rt_timer_start`: at which tick a timer was last
started, and how many starts came before. -/
structure Sys (T : Type*) where
  timers : Timers T
  pc : Pc T
  startTick : T → Tick
  turn : T → ℕ
  starts : ℕ

namespace Sys

variable {T : Type*} [DecidableEq T] (k : Sys T)

/-- Record a start of `t`. -/
def started (t : T) (s : Timers T) : Sys T :=
  { k with
    timers := s
    startTick := Function.update k.startTick t k.timers.tick
    turn := Function.update k.turn t k.starts
    starts := k.starts + 1 }

/-- Record the return of the callback of `t`, and the tick it is read at. -/
def returned (t : T) (s : Timers T) : Sys T :=
  { (if k.timers.restarts t then k.started t s else { k with timers := s }) with
    pc := .checking k.timers.tick }

/-- Outside of the callbacks. -/
def Outside : Prop := ∀ t, k.pc ≠ .calling t

end Sys

/-- What threads, callbacks and the tick interrupt do. -/
inductive Act (T : Type*)
  | start (t : T)
  | stop (t : T)
  | control (t : T) (c : Ctrl)
  /-- the tick interrupt: `++ rt_tick`, then `rt_timer_check` -/
  | tick
  /-- `rt_timer_check` alone -/
  | check
  /-- `rt_timer_check` unlinks the first timer and calls its function -/
  | call (t : T)
  /-- the function of the timer returns -/
  | ret
  /-- `rt_timer_check` returns -/
  | leave

section Step

variable {T : Type*} [DecidableEq T] (usingSoft : Bool)

/-- Timer functions are called by threads (`idle`) and by callbacks. -/
def Pc.Callable : Pc T → Prop
  | .checking _ => False
  | _ => True

/-- One step. -/
inductive Step : Sys T → Act T → Sys T → Prop
  | start {k : Sys T} {t : T} {s : Timers T} : k.pc.Callable →
      k.timers.rtTimerStart usingSoft t = some s → Step k (.start t) (k.started t s)
  | stop {k : Sys T} {t : T} : k.pc.Callable →
      Step k (.stop t) { k with timers := (k.timers.rtTimerStop t).2 }
  | control {k : Sys T} {t : T} {c : Ctrl} : k.pc.Callable →
      Step k (.control t c) { k with timers := (k.timers.rtTimerControl t c).2 }
  | tick {k : Sys T} : k.pc = .idle →
      Step k .tick { k with
        timers := { k.timers with tick := k.timers.tick + 1 }
        pc := .checking (k.timers.tick + 1) }
  | check {k : Sys T} : k.pc = .idle → Step k .check { k with pc := .checking k.timers.tick }
  | call {k : Sys T} {ct : Tick} {t : T} {l : List T} : k.pc = .checking ct →
      k.timers.hardList = t :: l → k.timers.due ct t = true →
      Step k (.call t) { k with timers := k.timers.remove t, pc := .calling t }
  | ret {k : Sys T} {t : T} {s : Timers T} : k.pc = .calling t →
      k.timers.afterCallback usingSoft t = some s →
      Step k .ret (k.returned t s)
  | leave {k : Sys T} {ct : Tick} : k.pc = .checking ct →
      (∀ t ∈ k.timers.hardList.head?, k.timers.due ct t = false) →
      Step k .leave { k with pc := .idle }

/-- Timers as `rt_timer_init` leaves them, at any tick. -/
def Init (k : Sys T) : Prop :=
  (∀ t, ∃ time p so, k.timers.timer t = rtTimerInit time p so) ∧
    k.timers.hardList = [] ∧ k.timers.softList = [] ∧ k.pc = .idle

/-- A callback that leaves its own timer started does so in periodic mode. -/
def NoSelfStart (k : Sys T) : Act T → Prop
  | .ret => ∀ t, k.pc = .calling t → k.timers.Linked t → (k.timers.timer t).periodic = true
  | _ => True

/-- **Timer state consistency** in state `k`: outside of the callbacks a timer's flag says
whether it is linked; and after `rt_timer_stop` returns, its function is not called before the
next `rt_timer_start`. -/
structure StateConsistent (k : Sys T) : Prop where
  flag : k.Outside → ∀ t, (k.timers.timer t).activated = true ↔ k.timers.Linked t
  stopped : ∀ t k₁, Step usingSoft k (.stop t) k₁ →
    ∀ k₂, Run.Reach (· = k₁) (Step usingSoft) (fun _ a => a ≠ .start t) k₂ →
      ∀ k₃, ¬ Step usingSoft k₂ (.call t) k₃

/-! ## Callbacks that call no timer function -/

/-- The loop of `rt_timer_check` with such callbacks: the timers it calls. -/
inductive Loop : Sys T → List T → Sys T → Prop
  | done {k k' : Sys T} : Step usingSoft k .leave k' → Loop k [] k'
  | fire {k k₁ k₂ k' : Sys T} {t : T} {fired : List T} : Step usingSoft k (.call t) k₁ →
      Step usingSoft k₁ .ret k₂ → Loop k₂ fired k' → Loop k (t :: fired) k'

/-- Only threads call the timer functions. -/
def QuietCallbacks (k : Sys T) : Act T → Prop
  | .start _ => k.pc = .idle
  | .stop _ => k.pc = .idle
  | .control _ _ => k.pc = .idle
  | _ => True

/-- **`rt_timer_check` returns** from the head of its loop, and calls each timer that is due there
once. -/
def CheckReturns (k : Sys T) (ct : Tick) : Prop :=
  ∃ fired k', Loop usingSoft k fired k' ∧ fired.Nodup ∧
    ∀ t, t ∈ fired ↔ t ∈ k.timers.hardList ∧ k.timers.due ct t = true

/-- A thread's call, or a tick with the timers its check calls. -/
inductive Op (T : Type*)
  | start (t : T)
  | stop (t : T)
  | tick (fired : List T)

inductive OpStep : Sys T → Op T → Sys T → Prop
  | start {k k' : Sys T} {t : T} : k.pc = .idle → Step usingSoft k (.start t) k' →
      OpStep k (.start t) k'
  | stop {k k' : Sys T} {t : T} : k.pc = .idle → Step usingSoft k (.stop t) k' →
      OpStep k (.stop t) k'
  | tick {k k₁ k' : Sys T} {fired : List T} : Step usingSoft k .tick k₁ →
      Loop usingSoft k₁ fired k' → OpStep k (.tick fired) k'

/-- **Timers expire on time** from state `k` on. -/
structure OnTime (k : Sys T) : Prop where
  /-- the hard list is sorted by the ticks left -/
  sorted : k.timers.hardList.Pairwise fun a b =>
    ((k.timers.timer a).timeoutTick - k.timers.tick).toNat ≤
      ((k.timers.timer b).timeoutTick - k.timers.tick).toNat
  /-- a hard timer is active exactly while it is in the list -/
  active : ∀ t, (usingSoft && (k.timers.timer t).softTimer) = false →
    ((k.timers.timer t).activated = true ↔ t ∈ k.timers.hardList)
  /-- the next check calls an active timer exactly if the tick is then its start tick plus its
  `init_tick`; one started with 0 ticks it calls as well -/
  fires : ∀ fired k', OpStep usingSoft k (.tick fired) k' → ∀ t ∈ k.timers.hardList,
    (t ∈ fired ↔ k.timers.tick + 1 = k.startTick t + (k.timers.timer t).initTick ∨
      (k.timers.timer t).initTick = 0)
  /-- it calls no other timer -/
  only : ∀ fired k', OpStep usingSoft k (.tick fired) k' → ∀ t ∈ fired, t ∈ k.timers.hardList
  /-- timers that expire at the same tick are called in the order they were started -/
  order : ∀ fired k', OpStep usingSoft k (.tick fired) k' → fired.Pairwise fun a b =>
    (k.timers.timer a).timeoutTick = (k.timers.timer b).timeoutTick → k.turn a < k.turn b
  /-- the check returns, unless an active timer is periodic with 0 ticks -/
  returns : (∀ t ∈ k.timers.hardList, (k.timers.timer t).periodic = true →
    (k.timers.timer t).initTick ≠ 0) → ∃ fired k', OpStep usingSoft k (.tick fired) k'

end Step

end RtThread.Timer
