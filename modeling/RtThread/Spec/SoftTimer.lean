import RtThread.Spec.Timer

/-!
# Soft timers (`rt_soft_timer_check`)

The timer thread walks over the soft timer list. It saves the node behind a due timer, unlinks
the timer, calls its function with the scheduler unlocked, and goes on at the saved node.

`SoftStep.env` is anything else that happens meanwhile, as in `Spec/Timer.lean`: timer functions
called by the callback, by preempting threads and by interrupt handlers, and the tick interrupt with
its `rt_timer_check`. The scan itself moves while no interrupt runs; the test of a timer, the step to
the next node and the unlinking are one move.
-/

namespace RtThread.Timer

/-- A node of a timer list. -/
inductive Node (T : Type*)
  | timer (t : T)
  /-- the head of `rt_soft_timer_list` -/
  | softHead
  /-- the head of `rt_timer_list` -/
  | hardHead

section

variable {T : Type*} [DecidableEq T]

/-- The node behind `t` in a list with the given head. -/
def nodeAfter (head : Node T) (t : T) : List T → Node T
  | [] => head
  | [_] => head
  | x :: y :: l => if x = t then .timer y else nodeAfter head t (y :: l)

/-- `n->next` for the node of timer `t`; `rt_list_remove` leaves a node that points to itself. -/
def Timers.next (s : Timers T) (t : T) : Node T :=
  if t ∈ s.softList then nodeAfter .softHead t s.softList
  else if t ∈ s.hardList then nodeAfter .hardHead t s.hardList
  else .timer t

omit [DecidableEq T] in
/-- The first node of the soft timer list. -/
def Timers.softFirst (s : Timers T) : Node T :=
  match s.softList with
  | [] => .softHead
  | t :: _ => .timer t

/-- Where `rt_soft_timer_check` is. -/
inductive Scan (T : Type*)
  /-- not running -/
  | idle
  /-- it has read the tick -/
  | entered (currentTick : Tick)
  /-- at the head of its loop, with node `n` -/
  | checking (currentTick : Tick) (n : Node T)
  /-- in the callback of a timer -/
  | calling (t : T) (n : Node T)
  /-- it has read the tick again, and not locked the scheduler yet -/
  | returned (currentTick : Tick) (t : T) (n : Node T)

/-- The local variable `n`. -/
def Scan.node : Scan T → Option (Node T)
  | .checking _ n | .calling _ n | .returned _ _ n => some n
  | _ => none

/-- The timers, and the scan of the timer thread. -/
structure Soft (T : Type*) where
  sys : Sys T
  scan : Scan T

/-- Record what happens to `t` after its callback. -/
def Sys.resumed (k : Sys T) (t : T) (s : Timers T) : Sys T :=
  if k.timers.restarts t then k.started t s else { k with timers := s }

/-- What happens. -/
inductive SoftAct (T : Type*)
  /-- a step of a callback, another thread or an interrupt -/
  | env (a : Act T)
  /-- `rt_soft_timer_check` is called and reads the tick -/
  | enter
  /-- it locks the scheduler and reads the first node -/
  | first
  /-- it unlinks a due timer and calls its function -/
  | call (t : T)
  /-- the function returns, and the tick is read -/
  | ret
  /-- it locks the scheduler, and restarts the timer or marks it as stopped -/
  | resume
  /-- it returns -/
  | leave

/-- One step; soft timers are configured in. -/
inductive SoftStep : Soft T → SoftAct T → Soft T → Prop
  | env {k : Soft T} {a : Act T} {x : Sys T} : Step true k.sys a x →
      SoftStep k (.env a) { k with sys := x }
  | enter {k : Soft T} : k.sys.pc = .idle → k.scan = .idle →
      SoftStep k .enter { k with scan := .entered k.sys.timers.tick }
  | first {k : Soft T} {ct : Tick} : k.sys.pc = .idle → k.scan = .entered ct →
      SoftStep k .first { k with scan := .checking ct k.sys.timers.softFirst }
  | call {k : Soft T} {ct : Tick} {t : T} : k.sys.pc = .idle → k.scan = .checking ct (.timer t) →
      k.sys.timers.due ct t = true →
      SoftStep k (.call t)
        { sys := { k.sys with timers := k.sys.timers.remove t }
          scan := .calling t (k.sys.timers.next t) }
  | ret {k : Soft T} {t : T} {n : Node T} : k.sys.pc = .idle → k.scan = .calling t n →
      SoftStep k .ret { k with scan := .returned k.sys.timers.tick t n }
  | resume {k : Soft T} {ct : Tick} {t : T} {n : Node T} {s : Timers T} : k.sys.pc = .idle →
      k.scan = .returned ct t n → k.sys.timers.afterCallback true t = some s →
      SoftStep k .resume { sys := k.sys.resumed t s, scan := .checking ct n }
  | leave {k : Soft T} {ct : Tick} {n : Node T} : k.sys.pc = .idle → k.scan = .checking ct n →
      (∀ t, n = .timer t → k.sys.timers.due ct t = false) → n ≠ .hardHead →
      SoftStep k .leave { k with scan := .idle }

omit [DecidableEq T] in
/-- Timers as `rt_timer_init` leaves them. -/
def SoftInit (k : Soft T) : Prop := Init k.sys ∧ k.scan = .idle

/-- Nobody stops the active timer whose node the scan has saved. -/
def NoStopSaved (k : Soft T) : SoftAct T → Prop
  | .env (.stop t) => k.scan.node = some (.timer t) → (k.sys.timers.timer t).activated = false
  | _ => True

/-- A history of `rt_timer_stop`: the timers stopped with `RT_EOK`, and not started since. -/
def stoppedLog (k : Soft T) (a : SoftAct T) (_ : Soft T) (stopped : T → Bool) : T → Bool :=
  match a with
  | .env (.stop t) => if (k.sys.timers.rtTimerStop t).1 then Function.update stopped t true else stopped
  | .env (.start t) => Function.update stopped t false
  | _ => stopped

/-- **The scan respects stops** in state `k`: it calls a timer only if that is linked in the soft timer
list, due at the tick it has read, and not stopped. -/
structure RespectsStop (k : Soft T) (stopped : T → Bool) : Prop where
  linked : ∀ t k', SoftStep k (.call t) k' → t ∈ k.sys.timers.softList
  due : ∀ t k', SoftStep k (.call t) k' →
    ∀ ct n, k.scan = .checking ct n → k.sys.timers.due ct t = true
  started : ∀ t k', SoftStep k (.call t) k' → stopped t = false

/-- A state of a run with its history, where every step satisfies `ok`. -/
abbrev SoftReach (ok : Soft T → SoftAct T → Prop) : Soft T × (T → Bool) → Prop :=
  Run.Reach (fun p => SoftInit p.1 ∧ p.2 = fun _ => false) (Run.Logged SoftStep stoppedLog)
    fun p a => ok p.1 a

end

end RtThread.Timer
