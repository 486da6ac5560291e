import RtThread.Lib.Run
import Mathlib.Data.Int.Notation
import Mathlib.Data.Nat.Notation
import Mathlib.Logic.Function.Basic

/-!
# Completions (`components/drivers/src/completion.c`)

One completion, the thread that waits on it, and the callers `C` of `rt_completion_done`: threads and
interrupt handlers. A step is what runs with interrupts off, or the test of the flag that
`rt_completion_done` makes before it turns them off.
-/

namespace RtThread.Completion

/-- What `rt_completion_wait` returns. -/
inductive Err
  | eok
  | etimeout
  deriving DecidableEq

/-- Where the waiting thread is. -/
inductive Waiter
  /-- in no call -/
  | idle
  /-- in the suspended list; its timer runs if `timeout > 0` -/
  | suspended (timeout : ℤ)
  /-- resumed with `thread->error`, and not running yet -/
  | resumed (error : Err)
  deriving DecidableEq

structure State (C : Type) where
  /-- `RT_COMPLETED` -/
  flag : Bool
  waiter : Waiter
  /-- in `rt_completion_done`, behind a test that found the completion uncompleted -/
  tested : C → Bool

inductive Act (C : Type)
  /-- `rt_completion_wait`, up to its exit or to `rt_schedule` -/
  | wait (timeout : ℤ)
  /-- the timer of the waiting thread runs out -/
  | timer
  /-- the waiting thread runs again -/
  | resume
  /-- `rt_completion_done`, its test -/
  | test (c : C)
  /-- `rt_completion_done`, what it does with interrupts off -/
  | done (c : C)
  deriving DecidableEq

variable {C : Type} [DecidableEq C]

/-- `rt_completion_init`. -/
def rtCompletionInit (C : Type) : State C := ⟨false, .idle, fun _ => false⟩

namespace State

/-- The state after `rt_completion_init`. -/
def Init (s : State C) : Prop := s = rtCompletionInit C

variable (s : State C)

/-- `rt_completion_wait`, up to its exit or to `rt_schedule`. -/
def wait (timeout : ℤ) : State C :=
  if s.flag = true then { s with flag := false }
  else if timeout = 0 then s
  else { s with waiter := .suspended timeout }

/-- `rt_completion_done` behind its test: it resumes the thread in the suspended list. -/
def done : State C :=
  match s.waiter with
  | .suspended _ => { s with flag := true, waiter := .resumed .eok }
  | _ => { s with flag := true }

def step : Act C → Option (State C)
  | .wait timeout =>
    match s.waiter with
    | .idle => some (s.wait timeout)
    | _ => none
  | .timer =>
    match s.waiter with
    | .suspended timeout => if timeout > 0 then some { s with waiter := .resumed .etimeout } else none
    | _ => none
  | .resume =>
    match s.waiter with
    | .resumed _ => some { s with flag := false, waiter := .idle }
    | _ => none
  | .test c =>
    if s.tested c = true then none
    else if s.flag = true then some s
    else some { s with tested := Function.update s.tested c true }
  | .done c =>
    if s.tested c = true then some { s.done with tested := Function.update s.tested c false } else none

/-- What a wait that returns in this step returns. -/
def returns : Act C → Option Err
  | .wait timeout => if s.flag = true then some .eok else if timeout = 0 then some .etimeout else none
  | .resume =>
    match s.waiter with
    | .resumed error => some error
    | _ => none
  | _ => none

end State

/-! ## What becomes of the dones -/

/-- The dones that found the completion uncompleted, numbered in their order. -/
structure Log where
  dones : ℕ
  /-- those that no wait has consumed -/
  unconsumed : List ℕ
  /-- for each wait that has returned: what it returned, and the dones that it consumed -/
  waits : List (Err × List ℕ)

/-- A wait that clears a set flag consumes the dones since the flag was cleared last. -/
def log (s : State C) (a : Act C) (s' : State C) (g : Log) : Log :=
  match a, s.returns a with
  | .done _, _ => { g with dones := g.dones + 1, unconsumed := g.unconsumed ++ [g.dones] }
  | _, some error =>
    if s.flag = true ∧ s'.flag = false then
      { g with unconsumed := [], waits := g.waits ++ [(error, g.unconsumed)] }
    else { g with waits := g.waits ++ [(error, [])] }
  | _, none => g

/-- The runs of a completion whose steps all satisfy `ok`. -/
abbrev Runs (ok : State C → Act C → Prop) : State C × Log → Prop :=
  Run.Reach (fun p => p.1.Init ∧ p.2 = ⟨0, [], []⟩)
    (Run.Logged (fun s a s' => s.step a = some s') log) (fun p a => ok p.1 a)

/-- Done number `d` is consumed by wait number `k`, which returned `RT_EOK`. -/
def Consumed (g : Log) (k d : ℕ) : Prop := ∃ ds, g.waits[k]? = some (.eok, ds) ∧ d ∈ ds

/-- **No done is lost**: exactly one wait that returned `RT_EOK` consumed it, or none did and the flag is
left for the next wait; a wait that timed out consumed nothing. -/
def NoneLost (s : State C) (g : Log) : Prop :=
  (∀ d < g.dones, (∃! k, Consumed g k d) ∨ (∀ k, ¬Consumed g k d) ∧ s.flag = true) ∧
    ∀ ds, (Err.etimeout, ds) ∈ g.waits → ds = []

/-- The step does not complete the completion between the timeout of the waiting thread and its exit. -/
def KeepsDone (s : State C) : Act C → Prop
  | .done _ => s.waiter ≠ .resumed .etimeout
  | _ => True

instance (s : State C) (a : Act C) : Decidable (KeepsDone s a) := by
  cases a <;> unfold KeepsDone <;> infer_instance

end RtThread.Completion
