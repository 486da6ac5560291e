import RtThread.Spec.Timer

/-!
# Cancelling delayed work (`workqueue.c`)

`rt_workqueue_cancel_work` and `rt_workqueue_submit_work` as whole calls, on any queues `Q` and works
`W`: the public cancel and `_workqueue_cancel_delayed_work` call each other. `WorkQueue.State.step`
has the same code in steps, beside the worker and other callers.

A call is `none` if it does not return: `fuel` bounds how deep the calls nest, and a failed
`RT_ASSERT` stops the system.
-/

namespace RtThread.WorkCancel

open Timer (Tick rtTickMax)

/-- `RT_EOK`, `-RT_EBUSY`, and `-EINVAL` or `-RT_EINVAL`. -/
inductive Ret
  | ok
  | busy
  | inval
  deriving DecidableEq

/-- The timer of a delayed work: no timer object, or one that is out of the timer list or in it. -/
inductive WorkTimer
  | detached
  | stopped
  | armed
  deriving DecidableEq

/-- The queues and the works. -/
structure State (Q W : Type) where
  workList : Q → List W
  workCurrent : Q → Option W
  /-- the worker of the queue is suspended -/
  suspended : Q → Bool
  /-- `RT_WORK_TYPE_DELAYED` -/
  delayed : W → Bool
  /-- `RT_WORK_STATE_PENDING` -/
  pending : W → Bool
  /-- `RT_WORK_STATE_SUBMITTING` -/
  submitting : W → Bool
  /-- `workqueue` of a delayed work -/
  workqueue : W → Option Q
  timer : W → WorkTimer
  /-- the sections that set the flag run `rt_timer_init`, those that clear it `rt_timer_detach` -/
  registered : ∀ w, submitting w = true ↔ timer w ≠ .detached

namespace State

variable {Q W : Type} [DecidableEq Q] [DecidableEq W] (s : State Q W)

/-! ## Work -/

/-- `rt_list_remove(&work->list)`, from whatever queue it is in. -/
def listRemove (w : W) : State Q W := { s with workList := fun q => (s.workList q).erase w }

/-- `rt_thread_resume(queue->work_thread)`. -/
def resume (q : Q) : State Q W := { s with suspended := Function.update s.suspended q false }

/-- `_workqueue_submit_work`. -/
def workqueueSubmitWork (q : Q) (w : W) : Ret × State Q W :=
  if s.pending w then (.busy, s)
  else if s.workCurrent q = some w then (.busy, s)
  else
    let s := s.listRemove w
    let s := { s with
      workList := Function.update s.workList q (s.workList q ++ [w])
      pending := Function.update s.pending w true }
    (.ok, if s.workCurrent q = none then s.resume q else s)

/-- `_workqueue_cancel_work`. -/
def workqueueCancelWork (q : Q) (w : W) : Ret × State Q W :=
  if s.workCurrent q = some w then (.busy, s)
  else (.ok, { s.listRemove w with pending := Function.update s.pending w false })

/-! ## Sections for delayed work -/

/-- `rt_timer_stop`, `rt_timer_detach`, and `RT_WORK_STATE_SUBMITTING` cleared. -/
def stopTimer (w : W) : State Q W := { s with
  timer := Function.update s.timer w .detached
  submitting := Function.update s.submitting w false
  registered := fun x => by
    by_cases hx : x = w
    · simp [hx]
    · simpa [hx] using s.registered x }

/-- The last section of `_workqueue_cancel_delayed_work`. -/
def detach (w : W) : State Q W := { s with
  workqueue := Function.update s.workqueue w none
  pending := Function.update s.pending w false }

/-- `RT_WORK_STATE_SUBMITTING` set, and `rt_timer_init`: `rt_object_init` asserts that the timer is
not in use yet. -/
def initTimer (w : W) : Option (State Q W) :=
  if s.timer w = .detached then
    some { s with
      timer := Function.update s.timer w .stopped
      submitting := Function.update s.submitting w true
      registered := fun x => by
        by_cases hx : x = w
        · simp [hx]
        · simpa [hx] using s.registered x }
  else none

/-- `rt_timer_start` asserts that the timer is one, and that its ticks are less than half of the
range. -/
def startTimer (w : W) (ticks : Tick) : Option (State Q W) :=
  if h : s.timer w ≠ .detached ∧ ticks < rtTickMax / 2 then
    some { s with
      timer := Function.update s.timer w .armed
      registered := fun x => by
        by_cases hx : x = w
        · simpa [hx] using (s.registered w).2 h.1
        · simpa [hx] using s.registered x }
  else none

/-- `_workqueue_submit_delayed_work`, from its first section on. -/
def attach (q : Q) (w : W) (ticks : Tick) : Option (Ret × State Q W) :=
  let s := { s with workqueue := Function.update s.workqueue w (some q) }
  if ticks = 0 then some (.ok, (s.workqueueSubmitWork q w).2)
  else
    match s.initTimer w with
    | none => none
    | some s => (s.startTimer w ticks).map fun s => (.ok, s)

end State

/-! ## Cancel and submit -/

variable {Q W : Type} [DecidableEq Q] [DecidableEq W]

mutual

/-- `_workqueue_cancel_delayed_work`. -/
def workqueueCancelDelayedWork : ℕ → State Q W → W → Option (Ret × State Q W)
  | 0, _, _ => none
  | fuel + 1, s, w =>
    match s.workqueue w with
    | none => some (.inval, s)
    | some q =>
      if s.pending w then
        match rtWorkqueueCancelWork fuel s q w with
        | none => none
        | some (.ok, s) => some (.ok, s.detach w)
        | some r => some r
      else if s.submitting w then some (.ok, (s.stopTimer w).detach w)
      else some (.ok, s.detach w)

/-- `rt_workqueue_cancel_work`. -/
def rtWorkqueueCancelWork : ℕ → State Q W → Q → W → Option (Ret × State Q W)
  | 0, _, _, _ => none
  | fuel + 1, s, q, w =>
    if s.delayed w then workqueueCancelDelayedWork fuel s w
    else some (s.workqueueCancelWork q w)

end

/-- `_workqueue_submit_delayed_work`. -/
def workqueueSubmitDelayedWork (fuel : ℕ) (s : State Q W) (q : Q) (w : W) (ticks : Tick) :
    Option (Ret × State Q W) :=
  match s.workqueue w with
  | none => s.attach q w ticks
  | some q' =>
    if q' ≠ q then some (.inval, s)
    else
      match workqueueCancelDelayedWork fuel s w with
      | none => none
      | some (.ok, s) => s.attach q w ticks
      | some r => some r

/-- `rt_workqueue_submit_work`. -/
def rtWorkqueueSubmitWork (fuel : ℕ) (s : State Q W) (q : Q) (w : W) (time : Tick) :
    Option (Ret × State Q W) :=
  if s.delayed w then workqueueSubmitDelayedWork fuel s q w time
  else some (s.workqueueSubmitWork q w)

/-! ## What the calls promise -/

/-- The work is neither linked nor armed, and its flags are clear. -/
structure State.Clean (s : State Q W) (w : W) : Prop where
  unlinked : ∀ q, w ∉ s.workList q
  unarmed : s.timer w ≠ .armed
  submitting : s.submitting w = false
  pending : s.pending w = false

/-- **The cancel returns**, and leaves the work clean if it cancels it. -/
def CancelReturns (s : State Q W) (q : Q) (w : W) : Prop :=
  ∃ fuel ret s', rtWorkqueueCancelWork fuel s q w = some (ret, s') ∧ (ret = .ok → s'.Clean w)

/-- **The submit returns**, and leaves a work that waits for the queue clean before it attaches it
again. -/
def SubmitReturns (s : State Q W) (q : Q) (w : W) (time : Tick) : Prop :=
  ∃ fuel r, rtWorkqueueSubmitWork fuel s q w time = some r ∧
    (s.workqueue w = some q →
      ∃ s', workqueueCancelDelayedWork fuel s w = some (.ok, s') ∧ s'.Clean w)

/-- The work is neither `RT_WORK_STATE_PENDING` nor linked. -/
def State.Unqueued (s : State Q W) (w : W) : Prop := s.pending w = false ∧ ∀ q, w ∉ s.workList q

end RtThread.WorkCancel
