import RtThread.Spec.WorkCancel

/-!
# Cancelling delayed work does not always return

* `pending_endless`: the cancel of a work that waits in a queue calls itself in the same state,
  for ever.
* `cancel_eq`: the cancel of any other work returns at once.
* `cancel_returns_iff`: when the cancel and the submit of a delayed work return and do what they
  promise, in every state.
* `cancel_endless`: a work submitted and cancelled at once.
-/

namespace RtThread.WorkCancel

open Timer (Tick rtTickMax)

variable {Q W : Type} [DecidableEq W] {s s' : State Q W} {q : Q} {w : W}

/-! ## The two cancels -/

/-- **A pending work**: the two cancels call each other, and neither clears the flag before. -/
theorem pending_endless (hd : s.delayed w = true) (hp : s.pending w = true)
    (hq : s.workqueue w = some q) : ∀ fuel, workqueueCancelDelayedWork fuel s w = none ∧
      ∀ q', rtWorkqueueCancelWork fuel s q' w = none := by
  intro fuel
  induction fuel with
  | zero => exact ⟨by rw [workqueueCancelDelayedWork], fun q' => by rw [rtWorkqueueCancelWork]⟩
  | succ fuel ih =>
    refine ⟨?_, fun q' => ?_⟩
    · rw [workqueueCancelDelayedWork, hq]
      simp only
      rw [if_pos hp, ih.2 q]
    · rw [rtWorkqueueCancelWork, if_pos hd]
      exact ih.1

/-- The timer is stopped, and the flag cleared, if it is set. -/
def State.stopped (s : State Q W) (w : W) : State Q W :=
  if s.submitting w then s.stopTimer w else s

theorem stopped_timer : (s.stopped w).timer w = .detached ∧ (s.stopped w).submitting w = false := by
  unfold State.stopped
  split
  · simp [State.stopTimer]
  · rename_i hs
    have := s.registered w
    simpa [hs] using this

theorem stopped_workList : (s.stopped w).workList = s.workList := by
  unfold State.stopped
  split <;> rfl

/-- **Any other work** is detached at once. -/
theorem cancel_eq (hp : s.pending w = false) (hq : s.workqueue w = some q) (fuel : ℕ) :
    workqueueCancelDelayedWork (fuel + 1) s w = some (.ok, (s.stopped w).detach w) := by
  rw [workqueueCancelDelayedWork, hq]
  simp only
  rw [if_neg (by simp [hp])]
  unfold State.stopped
  split <;> rfl

/-- It is clean then, unless it is linked without its flag. -/
theorem clean_iff : ((s.stopped w).detach w).Clean w ↔ ∀ q, w ∉ s.workList q := by
  obtain ⟨ht, hs⟩ := stopped_timer (s := s) (w := w)
  refine ⟨fun h q => ?_, fun h => ⟨fun q => ?_, ?_, hs, ?_⟩⟩
  · have := h.unlinked q
    change w ∉ (s.stopped w).workList q at this
    rwa [stopped_workList] at this
  · change w ∉ (s.stopped w).workList q
    rw [stopped_workList]
    exact h q
  · change (s.stopped w).timer w ≠ .armed
    rw [ht]
    decide
  · simp [State.detach]

/-- **`_workqueue_cancel_delayed_work`** of a work that is attached to a queue cancels it cleanly
exactly if the work is not queued. -/
theorem cancel_clean_iff (hd : s.delayed w = true) (hq : s.workqueue w = some q) :
    (∃ fuel ret s', workqueueCancelDelayedWork fuel s w = some (ret, s') ∧ (ret = .ok → s'.Clean w)) ↔
      s.Unqueued w := by
  constructor
  · rintro ⟨fuel, ret, s', hr, hc⟩
    have hp : s.pending w = false := by
      by_contra hp
      rw [(pending_endless hd (by simpa using hp) hq fuel).1] at hr
      cases hr
    cases fuel with
    | zero => rw [workqueueCancelDelayedWork] at hr; cases hr
    | succ fuel =>
      rw [cancel_eq hp hq, Option.some.injEq, Prod.mk.injEq] at hr
      obtain ⟨rfl, rfl⟩ := hr
      exact ⟨hp, clean_iff.1 (hc rfl)⟩
  · rintro ⟨hp, hl⟩
    exact ⟨1, .ok, _, cancel_eq hp hq 0, fun _ => clean_iff.2 hl⟩

/-- `rt_workqueue_cancel_work` leaves delayed work to `_workqueue_cancel_delayed_work`. -/
theorem cancelWork_eq (hd : s.delayed w = true) (fuel : ℕ) :
    rtWorkqueueCancelWork (fuel + 1) s q w = workqueueCancelDelayedWork fuel s w := by
  rw [rtWorkqueueCancelWork, if_pos hd]

theorem cancelReturns_iff (hd : s.delayed w = true) :
    CancelReturns s q w ↔ ∃ fuel ret s', workqueueCancelDelayedWork fuel s w = some (ret, s') ∧
      (ret = .ok → s'.Clean w) := by
  constructor
  · rintro ⟨fuel, ret, s', hr, hc⟩
    cases fuel with
    | zero => rw [rtWorkqueueCancelWork] at hr; cases hr
    | succ fuel => exact ⟨fuel, ret, s', by rwa [cancelWork_eq hd] at hr, hc⟩
  · rintro ⟨fuel, ret, s', hr, hc⟩
    exact ⟨fuel + 1, ret, s', by rwa [cancelWork_eq hd], hc⟩

/-! ## Submits -/

variable [DecidableEq Q]

omit [DecidableEq Q] in
/-- `rt_timer_init` of a timer that is not in use. -/
theorem initTimer_ok (ht : s.timer w = .detached) :
    ∃ s', s.initTimer w = some s' ∧ s'.timer w = .stopped := by
  unfold State.initTimer
  rw [if_pos ht]
  exact ⟨_, rfl, by simp⟩

omit [DecidableEq Q] in
theorem startTimer_iff {ticks : Tick} : (∃ s', s.startTimer w ticks = some s') ↔
    s.timer w ≠ .detached ∧ ticks < rtTickMax / 2 := by
  unfold State.startTimer
  split
  · rename_i h
    exact ⟨fun _ => h, fun _ => ⟨_, rfl⟩⟩
  · rename_i h
    exact ⟨fun ⟨s', hs⟩ => (by cases hs), fun h' => absurd h' h⟩

/-- `_workqueue_submit_delayed_work` returns from its first section on exactly if there are no ticks,
or the timer is not in use and they are less than half of the range. -/
theorem attach_iff {ticks : Tick} : (∃ r, s.attach q w ticks = some r) ↔
    ticks = 0 ∨ s.submitting w = false ∧ ticks < rtTickMax / 2 := by
  have hreg := s.registered w
  unfold State.attach
  simp only
  split
  · rename_i h0
    exact ⟨fun _ => .inl h0, fun _ => ⟨_, rfl⟩⟩
  rename_i h0
  set s₁ : State Q W := { s with workqueue := Function.update s.workqueue w (some q) } with hs₁
  by_cases ht : s.timer w = .detached
  · have hs : s.submitting w = false := by simpa [ht] using hreg
    obtain ⟨s₂, h₂, ht₂⟩ := initTimer_ok (s := s₁) ht
    rw [h₂]
    simp only [Option.map_eq_some_iff, hs, true_and, h0, false_or]
    constructor
    · rintro ⟨r, s₃, h₃, -⟩
      exact (startTimer_iff.1 ⟨s₃, h₃⟩).2
    · intro hlt
      obtain ⟨s₃, h₃⟩ := startTimer_iff.2 ⟨by rw [ht₂]; decide, hlt⟩
      exact ⟨_, s₃, h₃, rfl⟩
  · -- the timer is in use
    have hs : s.submitting w = true := hreg.2 ht
    have hnone : s₁.initTimer w = none := if_neg ht
    rw [hnone]
    simp only [hs, h0, reduceCtorEq, exists_false, Bool.true_eq_false, false_and, or_false]

/-- **Delayed work is cancelled and submitted again** by calls that return, and is clean in between,
exactly if, attached to the queue, it is not queued, and the timer can be started. -/
theorem cancel_returns_iff (hd : s.delayed w = true) :
    (CancelReturns s q w ↔ ∀ q', s.workqueue w = some q' → s.Unqueued w) ∧
      ∀ time, SubmitReturns s q w time ↔
        (s.workqueue w = none → time = 0 ∨ s.submitting w = false ∧ time < rtTickMax / 2) ∧
        (s.workqueue w = some q → s.Unqueued w ∧ time < rtTickMax / 2) := by
  constructor
  · rw [cancelReturns_iff hd]
    cases hq : s.workqueue w with
    | none =>
      refine ⟨fun _ q' h => (by cases h), fun _ => ⟨1, .inval, s, ?_, by simp⟩⟩
      rw [workqueueCancelDelayedWork, hq]
    | some q₀ =>
      rw [cancel_clean_iff hd hq]
      exact ⟨fun h _ _ => h, fun h => h q₀ rfl⟩
  intro time
  unfold SubmitReturns rtWorkqueueSubmitWork workqueueSubmitDelayedWork
  simp only [if_pos hd]
  cases hq : s.workqueue w with
  | none =>
    -- nothing to cancel
    simp only [reduceCtorEq, false_implies, and_true, true_implies, exists_const]
    exact attach_iff
  | some q₀ =>
    by_cases hqq : q₀ = q
    · subst hqq
      simp only [ne_eq, not_true_eq_false, if_false, reduceCtorEq, false_implies, true_and,
        true_implies]
      constructor
      · rintro ⟨fuel, r, hr, s', hc, hclean⟩
        have hu := (cancel_clean_iff hd hq).1 ⟨fuel, .ok, s', hc, fun _ => hclean⟩
        rw [hc] at hr
        refine ⟨hu, ?_⟩
        rcases attach_iff.1 ⟨r, hr⟩ with rfl | ⟨-, ht⟩
        · decide
        · exact ht
      · rintro ⟨hu, ht⟩
        have hc := cancel_eq hu.1 hq 0
        obtain ⟨r, hr⟩ := (attach_iff (s := (s.stopped w).detach w) (q := q₀)).2
          (.inr ⟨stopped_timer.2, ht⟩)
        exact ⟨1, r, by rw [hc]; exact hr, _, hc, clean_iff.2 hu.2⟩
    · -- another queue has it
      simp only [ne_eq, hqq, not_false_eq_true, if_true, reduceCtorEq, false_implies,
        Option.some.injEq, and_true, iff_true]
      exact ⟨0, _, rfl⟩

/-! ## A work that waits in the queue -/

/-- One queue whose worker sleeps, and one delayed work. -/
def created : State Unit Unit where
  workList := fun _ => []
  workCurrent := fun _ => none
  suspended := fun _ => true
  delayed := fun _ => true
  pending := fun _ => false
  submitting := fun _ => false
  workqueue := fun _ => none
  timer := fun _ => .detached
  registered := fun _ => by decide

/-- With its timer running the work can be cancelled and submitted again. -/
theorem cancel_returns_timer : ∃ s, rtWorkqueueSubmitWork 1 created () () 1 = some (.ok, s) ∧
    s.timer () = .armed ∧ CancelReturns s () () ∧ SubmitReturns s () () 0 := by
  refine ⟨_, rfl, rfl, (cancel_returns_iff rfl).1.2 fun _ _ => ⟨rfl, ?_⟩,
    ((cancel_returns_iff rfl).2 0).2 ⟨fun _ => .inl rfl, fun _ => ⟨⟨rfl, ?_⟩, by decide⟩⟩⟩
  · exact fun _ => List.not_mem_nil
  · exact fun _ => List.not_mem_nil

/-- **A work that waits in the queue is never cancelled**, nor submitted again: the cancel does not
return. -/
theorem cancel_endless : ∃ s, rtWorkqueueSubmitWork 1 created () () 0 = some (.ok, s) ∧
    s.delayed () = true ∧ ¬ CancelReturns s () () ∧ ∀ time, ¬ SubmitReturns s () () time := by
  refine ⟨_, rfl, rfl, ?_, ?_⟩
  · rintro ⟨fuel, ret, s', hr, -⟩
    rw [(pending_endless rfl rfl rfl fuel).2] at hr
    cases hr
  · rintro time ⟨fuel, r, -, h⟩
    obtain ⟨s', hr, -⟩ := h rfl
    rw [(pending_endless rfl rfl rfl fuel).1] at hr
    cases hr

end RtThread.WorkCancel
