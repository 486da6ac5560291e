import RtThread.Lib.Run
import Mathlib.Logic.Function.Basic
import Mathlib.Data.List.Basic

/-!
# Work queues (`workqueue.c`)

One work queue with its worker thread, the works `W`, and the callers `C`: other threads, interrupt
handlers and the timer thread, which runs `_delayed_work_timeout_handler`. A step is what runs with
interrupts off, or one test; `rt_list_remove` and `rt_list_isempty` are one step where interrupts are
on. A work is linked in no other queue.

`step` is `none` where the system stops: a null queue, or the code of a work that is none.
-/

namespace RtThread.WorkQueue

/-- Where `_workqueue_thread_entry` is. -/
inductive Worker (W : Type)
  /-- at `rt_list_isempty` -/
  | test
  /-- at `rt_thread_suspend` -/
  | suspend
  /-- at `rt_schedule`, or in it -/
  | schedule
  | dequeue
  /-- in `work_func`; `none` is the head of the list, taken for a work -/
  | work (w : Option W)
  /-- behind `work_func` -/
  | clear
  /-- at `_workqueue_work_completion` -/
  | completion
  deriving DecidableEq

/-- Where the call of a caller is. `k` is what `_workqueue_cancel_delayed_work` returns to: a cancel, or
a submit of the work in so many ticks. -/
inductive Call (W : Type)
  | idle
  /-- at `rt_thread_resume` of the worker -/
  | resume
  /-- `rt_workqueue_cancel_work_sync`, in `rt_sem_take` and behind it -/
  | syncTake (w : W)
  | syncTaken (w : W)
  /-- `rt_workqueue_cancel_all_work`, at `node`; `none` is the head of the list -/
  | cancelAll (node : Option W)
  | cancelNode (node : W) (next : Option W)
  /-- `_workqueue_cancel_delayed_work`, which calls itself `depth` deep: its four steps -/
  | cancelDelayed (w : W) (depth : ℕ) (k : Option ℕ)
  | cancelPending (w : W) (depth : ℕ) (k : Option ℕ)
  | cancelSubmitting (w : W) (depth : ℕ) (k : Option ℕ)
  | stopTimer (w : W) (depth : ℕ) (k : Option ℕ)
  | detach (w : W) (depth : ℕ) (k : Option ℕ)
  /-- `_workqueue_submit_delayed_work`, its first two steps and `rt_timer_start` -/
  | attach (w : W) (ticks : ℕ)
  | attached (w : W) (ticks : ℕ)
  | startTimer (w : W)
  /-- `_delayed_work_timeout_handler`, at its beginning and behind its section -/
  | timeout (w : W)
  | expired (w : W)
  deriving DecidableEq

/-- The queue, its works and its callers. -/
structure State (W C : Type) where
  workList : List W
  workCurrent : Option W
  worker : Worker W
  /-- the worker is suspended by its own loop -/
  suspended : Bool
  /-- `RT_WORK_STATE_PENDING` -/
  pending : W → Bool
  /-- `RT_WORK_STATE_SUBMITTING` -/
  submitting : W → Bool
  /-- `workqueue` of a delayed work is the queue, and not null -/
  workqueue : W → Bool
  /-- the timer of a delayed work is active -/
  timer : W → Bool
  /-- the calls that lock the scheduler; `rt_scheduler_lock_nest` is their number -/
  locked : List C
  call : C → Call W

inductive Act (W C : Type)
  /-- the worker goes on -/
  | worker
  /-- `rt_workqueue_submit_work` -/
  | submit (c : C) (w : W) (time : ℕ)
  | dowork (c : C) (w : W)
  | critical (c : C) (w : W)
  | cancel (c : C) (w : W)
  | cancelSync (c : C) (w : W)
  | cancelAll (c : C)
  /-- the timer of a delayed work runs out -/
  | timer (c : C) (w : W)
  /-- a call goes on -/
  | cont (c : C)

namespace State

variable {W C : Type} [DecidableEq W] [DecidableEq C] (s : State W C)

def setCall (c : C) (p : Call W) : State W C := { s with call := Function.update s.call c p }

/-! ## The worker -/

/-- `rt_thread_resume(queue->work_thread)`; it refuses unless the worker is suspended. -/
def resume : State W C := { s with suspended := false }

/-- One step of `_workqueue_thread_entry`. -/
def workerStep : Option (State W C) :=
  match s.worker with
  | .test => some { s with worker := if s.workList = [] then .suspend else .dequeue }
  | .suspend => some { s with worker := .schedule, suspended := true }
  | .schedule => if s.suspended then none else some { s with worker := .dequeue }
  | .dequeue =>
    match s.workList with
    | [] => some { s with worker := .work none }
    | w :: workList => some { s with
        workList
        workCurrent := some w
        pending := Function.update s.pending w false
        worker := .work (some w) }
  | .work (some _) => some { s with worker := .clear }
  | .work none => none
  | .clear => some { s with workCurrent := none, worker := .completion }
  | .completion =>
    -- whoever waits for the semaphore gets it, and its value stays 0
    some { s with
      worker := .test
      call := fun c => match s.call c with
        | .syncTake w => .syncTaken w
        | p => p }

/-! ## Submits -/

/-- The work goes to the end of the list, and the worker is resumed unless it is at work. -/
def link (c : C) (w : W) : State W C :=
  { s with workList := s.workList.erase w ++ [w] }.setCall c (if s.workCurrent = none then .resume else .idle)

/-- `_workqueue_submit_work`. -/
def submitWork (c : C) (w : W) : State W C :=
  if s.pending w then s.setCall c .idle
  else if s.workCurrent = some w then s.setCall c .idle
  else { s with pending := Function.update s.pending w true }.link c w

/-- `_workqueue_submit_delayed_work`, to its first section. -/
def submitDelayed (c : C) (w : W) (ticks : ℕ) : State W C :=
  s.setCall c (if s.workqueue w then .cancelDelayed w 0 (some ticks) else .attach w ticks)

/-- `rt_workqueue_critical_work`. -/
def criticalWork (c : C) (w : W) : State W C :=
  if s.workCurrent = some w then s else s.link c w

/-! ## Cancels -/

/-- `_workqueue_cancel_work`. -/
def cancelWork (w : W) : State W C :=
  if s.workCurrent = some w then s
  else { s with workList := s.workList.erase w, pending := Function.update s.pending w false }

/-- `rt_workqueue_cancel_work_sync`, to `rt_sem_take`, or to its end. -/
def cancelWorkSync (c : C) (w : W) : State W C :=
  if s.workCurrent = some w then s.setCall c (.syncTake w)
  else { s with workList := s.workList.erase w, pending := Function.update s.pending w false }

/-- `node->next`: of the last one it is the head, and a node that is not linked is linked to itself. -/
def next (w : W) : Option W :=
  if w ∈ s.workList then (s.workList.dropWhile (· ≠ w)).tail.head? else some w

/-- `_workqueue_cancel_delayed_work` returns `RT_EOK`. -/
def cancelled (w : W) : ℕ → Option ℕ → Call W
  | depth + 1, k => .detach w depth k
  | 0, some ticks => .attach w ticks
  | 0, none => .idle

/-! ## Steps -/

/-- A call goes on. -/
def cont (c : C) : Option (State W C) :=
  match s.call c with
  | .idle | .syncTake _ => none
  | .resume => some (s.resume.setCall c .idle)
  | .syncTaken w => some ({ s with pending := Function.update s.pending w false }.setCall c .idle)
  | .cancelAll none => some ({ s with locked := s.locked.erase c }.setCall c .idle)
  | .cancelAll (some w) => some (s.setCall c (.cancelNode w (s.next w)))
  | .cancelNode w next => some ({ s with workList := s.workList.erase w }.setCall c (.cancelAll next))
  | .cancelDelayed w depth k =>
    -- `-EINVAL` goes up to the first call
    some (s.setCall c (if s.workqueue w then .cancelPending w depth k else .idle))
  | .cancelPending w depth k =>
    -- `rt_workqueue_cancel_work` of a delayed work comes back to `_workqueue_cancel_delayed_work`
    some (s.setCall c (if s.pending w then .cancelDelayed w (depth + 1) k else .cancelSubmitting w depth k))
  | .cancelSubmitting w depth k =>
    some (s.setCall c (if s.submitting w then .stopTimer w depth k else .detach w depth k))
  | .stopTimer w depth k =>
    some ({ s with
      timer := Function.update s.timer w false
      submitting := Function.update s.submitting w false }.setCall c (.detach w depth k))
  | .detach w depth k =>
    some ({ s with
      workqueue := Function.update s.workqueue w false
      pending := Function.update s.pending w false }.setCall c (cancelled w depth k))
  | .attach w ticks =>
    some ({ s with workqueue := Function.update s.workqueue w true }.setCall c (.attached w ticks))
  | .attached w 0 => if s.workqueue w then some (s.submitWork c w) else none
  | .attached w (_ + 1) =>
    some ({ s with
      timer := Function.update s.timer w false
      submitting := Function.update s.submitting w true }.setCall c (.startTimer w))
  | .startTimer w => some ({ s with timer := Function.update s.timer w true }.setCall c .idle)
  | .timeout w =>
    some ({ s with
      timer := Function.update s.timer w false
      submitting := Function.update s.submitting w false }.setCall c (.expired w))
  | .expired w => if s.workqueue w then some (s.submitWork c w) else none

variable (delayed : W → Bool)

/-- One step; `delayed` is `RT_WORK_TYPE_DELAYED` of the works. -/
def step : Act W C → Option (State W C)
  | .worker => if s.locked = [] then s.workerStep else none
  | .submit c w time =>
    if s.call c = .idle then some (if delayed w then s.submitDelayed c w time else s.submitWork c w)
    else none
  | .dowork c w => if s.call c = .idle then some (s.submitWork c w) else none
  | .critical c w => if s.call c = .idle then some (s.criticalWork c w) else none
  | .cancel c w =>
    if s.call c = .idle then
      some (if delayed w then s.setCall c (.cancelDelayed w 0 none) else s.cancelWork w)
    else none
  | .cancelSync c w => if s.call c = .idle then some (s.cancelWorkSync c w) else none
  | .cancelAll c =>
    if s.call c = .idle then
      some ({ s with locked := c :: s.locked }.setCall c (.cancelAll s.workList.head?))
    else none
  | .timer c w =>
    if s.call c = .idle ∧ s.timer w then
      some ({ s with timer := Function.update s.timer w false }.setCall c (.timeout w))
    else none
  | .cont c => s.cont c

end State

/-- `rt_workqueue_create`. -/
def rtWorkqueueCreate (W C : Type) : State W C where
  workList := []
  workCurrent := none
  worker := .test
  suspended := false
  pending := fun _ => false
  submitting := fun _ => false
  workqueue := fun _ => false
  timer := fun _ => false
  locked := []
  call := fun _ => .idle

/-- The queue has just been created. -/
def State.Init {W C : Type} (s : State W C) : Prop := s = rtWorkqueueCreate W C

/-! ## What the cancels promised -/

variable {W C : Type} [DecidableEq W] [DecidableEq C]

/-- The works cancelled with `RT_EOK` and not submitted since; and for each call of
`rt_workqueue_cancel_all_work` the works that were linked when it began, and were not submitted since. -/
structure Log (W C : Type) where
  cancelled : W → Bool
  toCancel : C → W → Bool

/-- `_workqueue_submit_work` links the work. -/
def State.accepts (s : State W C) (w : W) : Bool := !s.pending w ∧ s.workCurrent ≠ some w

/-- The work whose submit an action refuses with `-RT_EBUSY`; whoever submits a delayed work does not look. -/
def State.busy (s : State W C) (delayed : W → Bool) : Act W C → Option W
  | .submit _ w _ => if !delayed w ∧ !s.accepts w then some w else none
  | .dowork _ w => if !s.accepts w then some w else none
  | .critical _ w => if s.workCurrent = some w then some w else none
  | _ => none

/-- **`RT_WORK_STATE_PENDING` tells the truth.** -/
def State.Truthful (s : State W C) : Prop := ∀ w, s.pending w = true ↔ w ∈ s.workList

/-- The work that an action submits: it goes to the end of the list. -/
def State.submits (s : State W C) (delayed : W → Bool) : Act W C → Option W
  | .submit _ w _ => if !delayed w ∧ s.accepts w then some w else none
  | .dowork _ w => if s.accepts w then some w else none
  | .critical _ w => if s.workCurrent = some w then none else some w
  | .cont c => match s.call c with
    | .attached w 0 | .expired w => if s.accepts w then some w else none
    | _ => none
  | _ => none

/-- The work that an action takes out of the list to cancel it. -/
def State.removes (s : State W C) (delayed : W → Bool) : Act W C → Option W
  | .cancel _ w => if delayed w ∨ s.workCurrent = some w then none else some w
  | .cancelSync _ w => if s.workCurrent = some w then none else some w
  | .cont c => match s.call c with
    | .cancelNode w _ => some w
    | _ => none
  | _ => none

/-- The work whose cancel an action ends with `RT_EOK` without a look at the list. -/
def State.finishes (s : State W C) : Act W C → Option W
  | .cont c => match s.call c with
    | .syncTaken w | .detach w 0 none => some w
    | _ => none
  | _ => none

/-- The work whose cancel an action ends with `RT_EOK`. -/
def State.cancels (s : State W C) (delayed : W → Bool) (a : Act W C) : Option W :=
  match a, s.finishes a with
  | .cancel _ _, _ | .cancelSync _ _, _ => s.removes delayed a
  | _, w => w

def log (delayed : W → Bool) (s : State W C) (a : Act W C) (_ : State W C) (g : Log W C) : Log W C :=
  match s.submits delayed a, s.cancels delayed a with
  | some w, _ =>
    { cancelled := Function.update g.cancelled w false
      toCancel := fun c => Function.update (g.toCancel c) w false }
  | none, some w => { g with cancelled := Function.update g.cancelled w true }
  | none, none => match a with
    | .cancelAll c => { g with toCancel := Function.update g.toCancel c fun w => w ∈ s.workList }
    | .cont c => match s.call c with
      | .cancelAll none => { g with cancelled := fun w => g.cancelled w || g.toCancel c w }
      | _ => g
    | _ => g

/-- Runs from the creation of the queue. -/
abbrev Runs (delayed : W → Bool) (ok : State W C → Act W C → Prop) : State W C × Log W C → Prop :=
  Run.Reach (fun p => p.1.Init ∧ p.2 = ⟨fun _ => false, fun _ _ => false⟩)
    (Run.Logged (fun s a s' => s.step delayed a = some s') (log delayed)) (fun p a => ok p.1 a)

/-- No work is linked or unlinked without its flag, and none that is linked loses it:
`rt_workqueue_critical_work` finds the work running or queued, `rt_workqueue_cancel_all_work` takes out no linked
work, and neither `rt_workqueue_cancel_work_sync` behind its wait nor the end of `_workqueue_cancel_delayed_work`
finds the work linked. -/
def KeepsFlag (s : State W C) : Act W C → Prop
  | .critical _ w => s.workCurrent = some w ∨ w ∈ s.workList
  | .cont c =>
    match s.call c with
    | .cancelNode w _ | .syncTaken w | .detach w _ _ => w ∉ s.workList
    | _ => True
  | _ => True

instance (s : State W C) (a : Act W C) : Decidable (KeepsFlag s a) := by
  unfold KeepsFlag
  split
  · infer_instance
  · split <;> infer_instance
  · infer_instance

end RtThread.WorkQueue
