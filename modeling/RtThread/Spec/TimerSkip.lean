import RtThread.Spec.Timer
import RtThread.Lib.SkipList

/-!
# Timers in several rows (`timer.c`)

With `RT_TIMER_SKIP_LIST_LEVEL` above 1 a timer list is a skip list with so many rows. Everything but the search of
`rt_timer_start` is as with one row; `Alike` relates the two.
-/

namespace RtThread.Timer

open SkipList

/-- All timers, the two timer lists and `rt_tick`. -/
structure SkipTimers (T : Type*) where
  timer : T → RtTimer
  /-- the rows of `rt_timer_list` -/
  hardRows : List (List T)
  /-- the rows of `rt_soft_timer_list` -/
  softRows : List (List T)
  tick : Tick
  /-- `random_nr` -/
  randomNr : BitVec 32

/-- How many of `n` rows above the last get the timer too. -/
def rowsAbove (mask : BitVec 32) : ℕ → BitVec 32 → ℕ
  | 0, _ => 0
  | n + 1, tstNr => if tstNr &&& mask = 0 then rowsAbove mask n (tstNr >>> ((mask + 1) >>> 1).toNat) + 1 else 0

namespace SkipTimers

variable {T : Type*} [DecidableEq T] (s : SkipTimers T)

/-- The last rows alone. -/
def flat : Timers T :=
  { timer := s.timer, hardList := s.hardRows.getLast?.getD [], softList := s.softRows.getLast?.getD [], tick := s.tick }

/-- Change one timer. -/
def modify (t : T) (f : RtTimer → RtTimer) : SkipTimers T :=
  { s with timer := Function.update s.timer t (f (s.timer t)) }

def setActivated (t : T) (v : Bool) : SkipTimers T := s.modify t fun x => { x with activated := v }

/-- `_rt_timer_remove` -/
def remove (t : T) : SkipTimers T :=
  { s with
    hardRows := s.hardRows.map fun row => row.filter (· ≠ t)
    softRows := s.softRows.map fun row => row.filter (· ≠ t) }

/-- The search of `rt_timer_start` goes on behind timer `x`. -/
def passes (t x : T) : Bool := !s.flat.expiresAfter t x

/-- Insert the timer into the rows of its list. -/
def linkRows (mask : BitVec 32) (t : T) (rows : List (List T)) : Option (List (List T)) :=
  (search (s.passes t) none rows).map fun heads =>
    insertRows t (rowsAbove mask (rows.length - 1) (s.randomNr + 1) + 1) heads rows

def link (usingSoft : Bool) (mask : BitVec 32) (t : T) : Option (SkipTimers T) :=
  if usingSoft && (s.timer t).softTimer then
    (s.linkRows mask t s.softRows).map fun rows => { s with softRows := rows, randomNr := s.randomNr + 1 }
  else (s.linkRows mask t s.hardRows).map fun rows => { s with hardRows := rows, randomNr := s.randomNr + 1 }

/-- `rt_timer_start`; `mask` is `RT_TIMER_SKIP_LIST_MASK`. -/
def rtTimerStart (usingSoft : Bool) (mask : BitVec 32) (t : T) : Option (SkipTimers T) :=
  let s := (s.remove t).setActivated t false
  if (s.timer t).initTick < rtTickMax / 2 then
    let s := s.modify t fun x => { x with timeoutTick := s.tick + x.initTick }
    (s.link usingSoft mask t).map fun s => s.setActivated t true
  else none

/-- `rt_timer_stop` -/
def rtTimerStop (t : T) : SkipTimers T :=
  if (s.timer t).activated = false then s else (s.remove t).setActivated t false

/-- `rt_timer_control` -/
def rtTimerControl (t : T) : Ctrl → SkipTimers T
  | .getTime => s
  | .setTime time => s.modify t fun x => { x with initTick := time }
  | .setOneshot => s.modify t fun x => { x with periodic := false }
  | .setPeriodic => s.modify t fun x => { x with periodic := true }

/-- What `rt_timer_check` does after the callback of `t`. -/
def afterCallback (usingSoft : Bool) (mask : BitVec 32) (t : T) : Option (SkipTimers T) :=
  if s.flat.restarts t then (s.setActivated t false).rtTimerStart usingSoft mask t else some (s.setActivated t false)

end SkipTimers

/-- The timers, and where `rt_timer_check` is. -/
structure SkipSys (T : Type*) where
  timers : SkipTimers T
  pc : Pc T

section Step

variable {T : Type*} [DecidableEq T] (usingSoft : Bool) (mask : BitVec 32)

/-- One step. -/
inductive SkipStep : SkipSys T → Act T → SkipSys T → Prop
  | start {k : SkipSys T} {t : T} {s : SkipTimers T} : k.pc.Callable →
      k.timers.rtTimerStart usingSoft mask t = some s → SkipStep k (.start t) { k with timers := s }
  | stop {k : SkipSys T} {t : T} : k.pc.Callable →
      SkipStep k (.stop t) { k with timers := k.timers.rtTimerStop t }
  | control {k : SkipSys T} {t : T} {c : Ctrl} : k.pc.Callable →
      SkipStep k (.control t c) { k with timers := k.timers.rtTimerControl t c }
  | tick {k : SkipSys T} : k.pc = .idle →
      SkipStep k .tick
        { timers := { k.timers with tick := k.timers.tick + 1 }, pc := .checking (k.timers.tick + 1) }
  | check {k : SkipSys T} : k.pc = .idle → SkipStep k .check { k with pc := .checking k.timers.tick }
  | call {k : SkipSys T} {ct : Tick} {t : T} {l : List T} : k.pc = .checking ct →
      k.timers.hardRows.getLast? = some (t :: l) → k.timers.flat.due ct t = true →
      SkipStep k (.call t) { timers := k.timers.remove t, pc := .calling t }
  | ret {k : SkipSys T} {t : T} {s : SkipTimers T} : k.pc = .calling t →
      k.timers.afterCallback usingSoft mask t = some s →
      SkipStep k .ret { timers := s, pc := .checking k.timers.tick }
  | leave {k : SkipSys T} {ct : Tick} : k.pc = .checking ct →
      (∀ row ∈ k.timers.hardRows.getLast?, ∀ t ∈ row.head?, k.timers.flat.due ct t = false) →
      SkipStep k .leave { k with pc := .idle }

/-- Timers as `rt_timer_init` leaves them, and lists as `rt_system_timer_init` does, with any number of rows. -/
def SkipInit (k : SkipSys T) : Prop :=
  (∀ t, ∃ time p so, k.timers.timer t = rtTimerInit time p so) ∧
    (∃ n, k.timers.hardRows = List.replicate (n + 1) [] ∧ k.timers.softRows = List.replicate (n + 1) []) ∧ k.pc = .idle

/-- The loop of `rt_timer_check` with callbacks that call no timer function. -/
inductive SkipLoop : SkipSys T → List T → SkipSys T → Prop
  | done {k k' : SkipSys T} : SkipStep usingSoft mask k .leave k' → SkipLoop k [] k'
  | fire {k k₁ k₂ k' : SkipSys T} {t : T} {fired : List T} : SkipStep usingSoft mask k (.call t) k₁ →
      SkipStep usingSoft mask k₁ .ret k₂ → SkipLoop k₂ fired k' → SkipLoop k (t :: fired) k'

/-- A thread's call, or a tick with the timers its check calls. -/
inductive SkipOpStep : SkipSys T → Op T → SkipSys T → Prop
  | start {k k' : SkipSys T} {t : T} : k.pc = .idle → SkipStep usingSoft mask k (.start t) k' →
      SkipOpStep k (.start t) k'
  | stop {k k' : SkipSys T} {t : T} : k.pc = .idle → SkipStep usingSoft mask k (.stop t) k' →
      SkipOpStep k (.stop t) k'
  | tick {k k₁ k' : SkipSys T} {fired : List T} : SkipStep usingSoft mask k .tick k₁ →
      SkipLoop usingSoft mask k₁ fired k' → SkipOpStep k (.tick fired) k'

/-! ## What is promised -/

/-- **The rows stay a skip list**, and every search finds its places: `rt_timer_start` fails for nothing but the check
of its ticks. -/
structure RowsKept (k : SkipSys T) : Prop where
  hard : Nested k.timers.hardRows
  soft : Nested k.timers.softRows
  starts : ∀ t, (k.timers.timer t).initTick < rtTickMax / 2 → (k.timers.rtTimerStart usingSoft mask t).isSome

/-- The last row is the list of a system with one row; the soft timers are left out, as no check calls them here. -/
structure Alike (k : SkipSys T) (K : Sys T) : Prop where
  timer : K.timers.timer = k.timers.timer
  list : k.timers.hardRows.getLast? = some K.timers.hardList
  tick : K.timers.tick = k.timers.tick
  pc : K.pc = k.pc

end Step

/-- The operations so far. -/
def logOp {σ T : Type*} (_ : σ) (op : Op T) (_ : σ) (ops : List (Op T)) : List (Op T) := ops ++ [op]

end RtThread.Timer
