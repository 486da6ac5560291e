import RtThread.Spec.WorkQueue
import RtThread.Lib.Queue

/-!
# Works come to be done, and cancelled works do not

* `step_cases`: the steps, by what they do to the list, to the worker and to the calls.
* `queue_strands_none`: **the worker sleeps on an empty list**, unless somebody is about to resume it, as
  long as nobody tries to between its look at the list and its sleep; `queue_strands` otherwise.
* `worker_runs_submitted`: **the worker takes a linked work that is not cancelled**, as long as no cancel
  empties the list once it is awake; `worker_runs_head`: it takes the list for a work, otherwise.
-/

namespace RtThread.WorkQueue

variable {W C : Type} [DecidableEq W] [DecidableEq C] {delayed : W → Bool} {s s' : State W C} {a : Act W C}
  {c d : C} {w v : W} {p : Call W} {g : Log W C}

/-! ## Steps -/

/-- A call is neither about to resume the worker nor in `rt_workqueue_cancel_all_work`. -/
def Call.plain : Call W → Bool
  | .resume | .cancelAll _ | .cancelNode _ _ => false
  | _ => true

/-- The caller `c` goes on to `p`, and the worker is where it was. -/
structure Calls (s s' : State W C) (c : C) (p : Call W) : Prop where
  call : s'.call = Function.update s.call c p
  worker : s'.worker = s.worker
  workCurrent : s'.workCurrent = s.workCurrent
  suspended : s'.suspended = s.suspended
  locked : s'.locked = s.locked

/-- What a step does. -/
inductive StepCase (delayed : W → Bool) (s : State W C) : Act W C → State W C → Prop
  | worker {s' : State W C} : s.locked = [] → s.workerStep = some s' → StepCase delayed s .worker s'
  /-- a work is submitted -/
  | link {a : Act W C} {s' : State W C} {c : C} {w : W} : s.submits delayed a = some w →
    (∀ d, a = .cont d → d = c) → (s.call c).plain = true →
    Calls s s' c (if s.workCurrent = none then .resume else .idle) →
    s'.workList = s.workList.erase w ++ [w] → StepCase delayed s a s'
  /-- a work is cancelled -/
  | remove {a : Act W C} {s' : State W C} {c : C} {w : W} : s.submits delayed a = none →
    s.removes delayed a = some w → s.cancels delayed a = some w → (s.call c).plain = true →
    (∀ d, a ≠ .cont d) → Calls s s' c (s.call c) → s'.workList = s.workList.erase w → StepCase delayed s a s'
  /-- `rt_workqueue_cancel_all_work` takes a node out of the list -/
  | node {s' : State W C} {c : C} {w : W} {next : Option W} : s.call c = .cancelNode w next →
    Calls s s' c (.cancelAll next) → s'.workList = s.workList.erase w → StepCase delayed s (.cont c) s'
  | next {c : C} {w : W} : s.call c = .cancelAll (some w) →
    StepCase delayed s (.cont c) (s.setCall c (.cancelNode w (s.next w)))
  | enter {c : C} : s.call c = .idle → StepCase delayed s (.cancelAll c)
    ({ s with locked := c :: s.locked }.setCall c (.cancelAll s.workList.head?))
  | leave {c : C} : s.call c = .cancelAll none → StepCase delayed s (.cont c)
    ({ s with locked := s.locked.erase c }.setCall c .idle)
  | resume {c : C} : s.call c = .resume → StepCase delayed s (.cont c) (s.resume.setCall c .idle)
  /-- a call goes on, away from the list -/
  | other {a : Act W C} {s' : State W C} {c : C} {p : Call W} : s.submits delayed a = none → s.removes delayed a = none →
    s.cancels delayed a = s.finishes a → (∀ d, a ≠ .cancelAll d) → (∀ d, a = .cont d → d = c) →
    (s.call c).plain = true → p.plain = true →
    Calls s s' c p → s'.workList = s.workList → StepCase delayed s a s'

omit [DecidableEq C] in
theorem accepts_iff : s.accepts w = true ↔ s.pending w = false ∧ s.workCurrent ≠ some w := by
  simp [State.accepts]

omit [DecidableEq C] in
theorem not_accepts (h : s.pending w = true ∨ s.workCurrent = some w) : s.accepts w = false := by
  rcases h with h | h <;> simp [State.accepts, h]

/-- **`_workqueue_submit_work`** refuses, or links the work. -/
theorem submitWork_cases (s : State W C) (c : C) (w : W) :
    (s.accepts w = false ∧ s.submitWork c w = s.setCall c .idle) ∨
      s.accepts w = true ∧ s.submitWork c w = { s with pending := Function.update s.pending w true }.link c w := by
  unfold State.submitWork
  by_cases hp : s.pending w = true
  · rw [if_pos hp]
    exact .inl ⟨not_accepts (.inl hp), rfl⟩
  · rw [if_neg hp]
    by_cases hc : s.workCurrent = some w
    · rw [if_pos hc]
      exact .inl ⟨not_accepts (.inr hc), rfl⟩
    · rw [if_neg hc]
      exact .inr ⟨accepts_iff.2 ⟨by simpa using hp, hc⟩, rfl⟩

omit [DecidableEq W] in
theorem setCall_calls (s : State W C) (c : C) (p : Call W) : Calls s (s.setCall c p) c p :=
  ⟨rfl, rfl, rfl, rfl, rfl⟩

/-- A step that submits a work, or has it refused. -/
theorem step_submit (hsub : s.submits delayed a = if s.accepts w then some w else none)
    (hrem : s.removes delayed a = none) (hcan : s.cancels delayed a = s.finishes a)
    (hall : ∀ d, a ≠ .cancelAll d) (hd : ∀ d, a = .cont d → d = c) (hc : (s.call c).plain = true) :
    StepCase delayed s a (s.submitWork c w) := by
  rcases submitWork_cases s c w with ⟨hacc, hs⟩ | ⟨hacc, hs⟩
  · rw [hacc, if_neg (by nofun)] at hsub
    rw [hs]
    exact .other hsub hrem hcan hall hd hc rfl (setCall_calls s c .idle) rfl
  · rw [hacc, if_pos rfl] at hsub
    rw [hs]
    exact .link hsub hd hc ⟨rfl, rfl, rfl, rfl, rfl⟩ rfl

/-- A call goes on by itself. -/
theorem cont_cases (h : s.cont c = some s') : StepCase delayed s (.cont c) s' := by
  unfold State.cont at h
  cases hc : s.call c with
  | idle | syncTake =>
    rw [hc] at h
    cases h
  | resume =>
    rw [hc] at h
    cases h
    exact .resume hc
  | cancelAll node =>
    rw [hc] at h
    cases node with
    | none =>
      cases h
      exact .leave hc
    | some w =>
      cases h
      exact .next hc
  | cancelNode w next =>
    rw [hc] at h
    cases h
    exact .node hc ⟨rfl, rfl, rfl, rfl, rfl⟩ rfl
  | syncTaken w =>
    rw [hc] at h
    cases h
    exact .other (by simp [State.submits, hc]) (by simp [State.removes, hc]) rfl nofun (by rintro _ ⟨⟩; rfl) (by rw [hc]; rfl) rfl
      ⟨rfl, rfl, rfl, rfl, rfl⟩ rfl
  | cancelDelayed w depth k | cancelPending w depth k | cancelSubmitting w depth k =>
    rw [hc] at h
    cases h
    refine .other (by simp [State.submits, hc]) (by simp [State.removes, hc]) rfl nofun
      (by rintro _ ⟨⟩; rfl) (by rw [hc]; rfl) ?_ (setCall_calls s c _) rfl
    split <;> rfl
  | stopTimer w depth k | attach w k | startTimer w | timeout w =>
    rw [hc] at h
    cases h
    exact .other (by simp [State.submits, hc]) (by simp [State.removes, hc]) rfl nofun (by rintro _ ⟨⟩; rfl) (by rw [hc]; rfl) rfl
      ⟨rfl, rfl, rfl, rfl, rfl⟩ rfl
  | detach w depth k =>
    rw [hc] at h
    cases h
    refine .other (by simp [State.submits, hc]) (by simp [State.removes, hc]) rfl nofun
      (by rintro _ ⟨⟩; rfl) (by rw [hc]; rfl) ?_ ⟨rfl, rfl, rfl, rfl, rfl⟩ rfl
    cases depth <;> cases k <;> rfl
  | attached w ticks =>
    rw [hc] at h
    cases ticks with
    | zero =>
      simp only at h
      split at h
      · cases h
        exact step_submit (by simp [State.submits, hc]) (by simp [State.removes, hc]) rfl nofun
          (by rintro _ ⟨⟩; rfl) (by rw [hc]; rfl)
      · cases h
    | succ ticks =>
      cases h
      exact .other (by simp [State.submits, hc]) (by simp [State.removes, hc]) rfl nofun
        (by rintro _ ⟨⟩; rfl) (by rw [hc]; rfl) rfl ⟨rfl, rfl, rfl, rfl, rfl⟩ rfl
  | expired w =>
    rw [hc] at h
    simp only at h
    split at h
    · cases h
      exact step_submit (by simp [State.submits, hc]) (by simp [State.removes, hc]) rfl nofun
        (by rintro _ ⟨⟩; rfl) (by rw [hc]; rfl)
    · cases h

/-- A cancel that takes the work out of the list, if it is not the current one. -/
theorem step_cancel {q : Call W} (hsub : s.submits delayed a = none)
    (hrem : s.removes delayed a = if s.workCurrent = some w then none else some w)
    (hcan : s.cancels delayed a = s.removes delayed a) (hfin : s.finishes a = none)
    (hall : ∀ d, a ≠ .cancelAll d) (hcont : ∀ d, a ≠ .cont d) (hc : (s.call c).plain = true)
    (hq : q.plain = true) (hs : s' = if s.workCurrent = some w then s.setCall c q else
      { s with workList := s.workList.erase w, pending := Function.update s.pending w false }) :
    StepCase delayed s a s' := by
  by_cases hcur : s.workCurrent = some w
  · rw [if_pos hcur] at hrem hs
    rw [hs]
    exact .other hsub hrem (by rw [hcan, hrem, hfin]) hall (fun d h => absurd h (hcont d)) hc hq
      (setCall_calls s c q) rfl
  · rw [if_neg hcur] at hrem hs
    rw [hs]
    exact .remove hsub hrem (hcan.trans hrem) hc hcont
      ⟨(Function.update_eq_self c s.call).symm, rfl, rfl, rfl, rfl⟩ rfl

/-- **The steps.** -/
theorem step_cases (h : s.step delayed a = some s') : StepCase delayed s a s' := by
  cases a with
  | worker =>
    simp only [State.step] at h
    split at h
    · rename_i hl
      exact .worker hl h
    · cases h
  | cont c => exact cont_cases h
  | submit c w time =>
    simp only [State.step] at h
    split at h
    swap
    · cases h
    rename_i hc
    cases h
    cases hd : delayed w with
    | true =>
      refine .other (by simp [State.submits, hd]) rfl rfl nofun nofun (by rw [hc]; rfl) ?_
        (setCall_calls s c _) rfl
      split <;> rfl
    | false => exact step_submit (by simp [State.submits, hd]) rfl rfl nofun nofun (by rw [hc]; rfl)
  | dowork c w =>
    simp only [State.step] at h
    split at h
    swap
    · cases h
    rename_i hc
    cases h
    exact step_submit rfl rfl rfl nofun nofun (by rw [hc]; rfl)
  | critical c w =>
    simp only [State.step] at h
    split at h
    swap
    · cases h
    rename_i hc
    cases h
    unfold State.criticalWork
    have hplain : (s.call c).plain = true := by rw [hc]; rfl
    split
    · rename_i hcur
      exact .other (by simp [State.submits, hcur]) rfl rfl nofun nofun hplain hplain
        ⟨(Function.update_eq_self c s.call).symm, rfl, rfl, rfl, rfl⟩ rfl
    · rename_i hcur
      exact .link (by simp [State.submits, hcur]) nofun hplain ⟨rfl, rfl, rfl, rfl, rfl⟩ rfl
  | cancel c w =>
    simp only [State.step] at h
    split at h
    swap
    · cases h
    rename_i hc
    cases h
    have hplain : (s.call c).plain = true := by rw [hc]; rfl
    cases hd : delayed w with
    | true =>
      exact .other rfl (by simp [State.removes, hd]) (by simp [State.cancels, State.removes, State.finishes, hd])
        nofun nofun hplain rfl (setCall_calls s c _) rfl
    | false =>
      refine step_cancel (c := c) (w := w) rfl (by simp [State.removes, hd]) rfl rfl nofun nofun hplain hplain ?_
      show s.cancelWork w = _
      unfold State.cancelWork
      rw [show s.setCall c (s.call c) = s from ?_]
      unfold State.setCall
      rw [Function.update_eq_self]
  | cancelSync c w =>
    simp only [State.step] at h
    split at h
    swap
    · cases h
    rename_i hc
    cases h
    exact step_cancel (c := c) rfl rfl rfl rfl nofun nofun (by rw [hc]; rfl) rfl rfl
  | cancelAll c =>
    simp only [State.step] at h
    split at h
    swap
    · cases h
    rename_i hc
    cases h
    exact .enter hc
  | timer c w =>
    simp only [State.step] at h
    split at h
    swap
    · cases h
    rename_i hc
    cases h
    exact .other rfl rfl rfl nofun nofun (by rw [hc.1]; rfl) rfl ⟨rfl, rfl, rfl, rfl, rfl⟩ rfl

/-! ## The worker's sleep -/

/-- Nobody tries to resume the worker between its look at the list and its sleep, with a work linked. -/
def ResumesAsleep (s : State W C) : Act W C → Prop
  | .cont c => s.call c = .resume → s.worker = .suspend → s.workList = []
  | _ => True

/-- The worker is at a work. -/
def Worker.busy : Worker W → Bool
  | .work (some _) | .clear => true
  | _ => false

/-- The worker sleeps in `rt_schedule` only, has a current work while it is busy only, and is about to be
resumed if it goes to sleep, or sleeps, beside a work. -/
structure Sleeps (s : State W C) : Prop where
  suspended : s.suspended = true → s.worker = .schedule
  current : s.workCurrent ≠ none → s.worker.busy = true
  resumed : s.worker = .suspend ∨ s.suspended = true → s.workList ≠ [] → ∃ c, s.call c = .resume

omit [DecidableEq W] [DecidableEq C] in
theorem Sleeps.create : Sleeps (rtWorkqueueCreate W C) where
  suspended := nofun
  current := fun h => absurd rfl h
  resumed := fun _ h => absurd rfl h

omit [DecidableEq W] [DecidableEq C] in
/-- The worker is neither asleep nor on its way to sleep. -/
theorem Sleeps.awake (hn : s.suspended = false) (hw : s.worker ≠ .suspend)
    (hcur : s.workCurrent ≠ none → s.worker.busy = true) : Sleeps s := by
  refine ⟨fun e => ?_, hcur, fun e _ => ?_⟩
  · rw [hn] at e
    cases e
  · rw [hn] at e
    exact e.elim (fun e => absurd e hw) nofun

omit [DecidableEq C] in
/-- The worker goes on. -/
theorem Sleeps.worker (h : Sleeps s) (hs : s.workerStep = some s') : Sleeps s' := by
  obtain ⟨hsus, hcur, hres⟩ := h
  have hn : s.worker ≠ .schedule → s.suspended = false := fun hne => by simpa using mt hsus hne
  unfold State.workerStep at hs
  cases hw : s.worker with
  | test =>
    rw [hw] at hs hn hcur
    cases hs
    by_cases hl : s.workList = []
    · exact ⟨fun e => absurd ((hn nofun).symm.trans e) nofun, fun e => absurd (hcur e) nofun,
        fun _ hne => absurd hl hne⟩
    · refine .awake (hn nofun) ?_ fun e => absurd (hcur e) nofun
      rw [show (if s.workList = [] then Worker.suspend else Worker.dequeue : Worker W) = .dequeue from if_neg hl]
      nofun
  | suspend =>
    rw [hw] at hs hcur
    cases hs
    exact ⟨fun _ => rfl, fun e => absurd (hcur e) nofun, fun _ hne => hres (.inl hw) hne⟩
  | schedule =>
    rw [hw] at hs hcur
    simp only at hs
    split at hs
    · cases hs
    · rename_i hsus'
      cases hs
      exact .awake (by simpa using hsus') nofun fun e => absurd (hcur e) nofun
  | dequeue =>
    rw [hw] at hs hn hcur
    simp only at hs
    split at hs
    · cases hs
      exact .awake (hn nofun) nofun fun e => absurd (hcur e) nofun
    · cases hs
      exact .awake (hn nofun) nofun fun _ => rfl
  | work w =>
    rw [hw] at hs hn
    cases w with
    | none => cases hs
    | some w =>
      cases hs
      exact .awake (hn nofun) nofun fun _ => rfl
  | clear =>
    rw [hw] at hs hn
    cases hs
    exact .awake (hn nofun) nofun fun e => absurd rfl e
  | completion =>
    rw [hw] at hs hn hcur
    cases hs
    exact .awake (hn nofun) nofun fun e => absurd (hcur e) nofun

omit [DecidableEq W] in
/-- A call goes on, and is not the one to resume the worker. -/
theorem Sleeps.calls (h : Sleeps s) (hc : Calls s s' c p) (hr : s.call c ≠ .resume)
    (hl : s.workList = [] → s'.workList ≠ [] → s.workCurrent = none → p = .resume) : Sleeps s' where
  suspended := by
    rw [hc.suspended, hc.worker]
    exact h.suspended
  current := by
    rw [hc.workCurrent, hc.worker]
    exact h.current
  resumed := by
    rw [hc.suspended, hc.worker, hc.call]
    intro hsl hne
    by_cases hl' : s.workList = []
    · have hcur : s.workCurrent = none := by
        by_contra hcur
        have hb := h.current hcur
        rcases hsl with e | e
        · rw [e] at hb
          cases hb
        · rw [h.suspended e] at hb
          cases hb
      exact ⟨c, by rw [Function.update_self, hl hl' hne hcur]⟩
    · obtain ⟨d, hd⟩ := h.resumed hsl hl'
      have hdc : d ≠ c := fun e => hr (e ▸ hd)
      exact ⟨d, by rwa [Function.update_of_ne hdc]⟩

omit [DecidableEq C] [DecidableEq W] in
theorem Call.ne_resume (h : (s.call c).plain = true) : s.call c ≠ .resume := by
  intro e
  rw [e] at h
  cases h

/-- **Every step keeps the worker's sleep in order.** -/
theorem sleeps_step (h : Sleeps s) (hok : ResumesAsleep s a) (hs : s.step delayed a = some s') : Sleeps s' := by
  cases step_cases hs with
  | worker hl hw => exact h.worker hw
  | link hsub hd hp hc hl => exact h.calls hc (Call.ne_resume hp) fun _ _ hcur => if_pos hcur
  | remove hsub hrem hcan hp hcont hc hl =>
    refine h.calls hc (Call.ne_resume hp) fun he hne => absurd ?_ hne
    rw [hl, he]
    rfl
  | node hcall hc hl =>
    refine h.calls hc (by rw [hcall]; nofun) fun he hne => absurd ?_ hne
    rw [hl, he]
    rfl
  | @next c w hcall =>
    exact h.calls (setCall_calls s c _) (by rw [hcall]; nofun) fun he hne => absurd he hne
  | @enter c hcall =>
    have h' : Sleeps { s with locked := c :: s.locked } := ⟨h.suspended, h.current, h.resumed⟩
    exact h'.calls (setCall_calls _ c _) (by simp [hcall]) fun he hne => absurd he hne
  | @leave c hcall =>
    have h' : Sleeps { s with locked := s.locked.erase c } := ⟨h.suspended, h.current, h.resumed⟩
    exact h'.calls (setCall_calls _ c _) (by simp [hcall]) fun he hne => absurd he hne
  | @resume c hcall =>
    refine ⟨nofun, h.current, fun e hne => absurd (hok hcall ?_) hne⟩
    exact e.resolve_right nofun
  | other hsub hrem hcan hall hd hp hp' hc hl =>
    exact h.calls hc (Call.ne_resume hp) fun he hne => absurd (hl.trans he) hne

def resumesAsleep (s : State W C) : Act W C → Bool
  | .cont c => s.call c = .resume → s.worker = .suspend → s.workList = []
  | _ => true

omit [DecidableEq C] in
theorem resumesAsleep_iff : resumesAsleep s a = true ↔ ResumesAsleep s a := by
  unfold resumesAsleep ResumesAsleep
  split
  · exact decide_eq_true_iff
  · exact iff_of_true rfl trivial

instance : Decidable (ResumesAsleep s a) := decidable_of_iff _ resumesAsleep_iff

/-- The worker is about to dequeue: it found a work, or has been resumed. -/
def Bound (s : State W C) : Prop := s.worker = .dequeue ∨ s.worker = .schedule ∧ s.suspended = false

/-- The node at which a call of `rt_workqueue_cancel_all_work` goes on. -/
def Call.cursor : Call W → Option W
  | .cancelAll node => node
  | .cancelNode _ next => next
  | _ => none

/-- The steps that keep the worker's work:
* no cancel empties the list, and no call resumes the worker to an empty list, once the worker is awake;
* a cancel that does not look at the list ends with its work not linked;
* nobody moves the node at which another call of `rt_workqueue_cancel_all_work` goes on. -/
structure KeepsWork (delayed : W → Bool) (s : State W C) (a : Act W C) : Prop where
  removes : ∀ w, s.removes delayed a = some w → Bound s → s.workList.erase w ≠ []
  resume : ∀ c, a = .cont c → s.call c = .resume → s.suspended = true → s.workList ≠ []
  finishes : ∀ w, s.finishes a = some w → w ∉ s.workList
  cursor : ∀ d, a ≠ .cont d → ∀ v, (s.call d).cursor = some v →
    s.removes delayed a ≠ some v ∧ s.submits delayed a ≠ some v

/-- The worker dequeues from a list that is not empty. -/
structure Ready (s : State W C) : Prop where
  suspended : s.suspended = true → s.worker = .schedule
  linked : Bound s → s.workList ≠ []

omit [DecidableEq W] [DecidableEq C] in
theorem Ready.create : Ready (rtWorkqueueCreate W C) :=
  ⟨nofun, fun h => h.elim nofun fun h => nomatch h.1⟩

omit [DecidableEq W] [DecidableEq C] in
/-- The worker is awake, and not about to dequeue. -/
theorem Ready.awake (hn : s.suspended = false) (hd : s.worker ≠ .dequeue) (hs : s.worker ≠ .schedule) : Ready s where
  suspended := fun e => nomatch hn.symm.trans e
  linked := fun e => (e.elim hd fun e => hs e.1).elim

omit [DecidableEq C] in
/-- The worker goes on. -/
theorem Ready.worker (h : Ready s) (hs : s.workerStep = some s') : Ready s' := by
  have hn : s.worker ≠ .schedule → s.suspended = false := fun hne => by simpa using mt h.suspended hne
  unfold State.workerStep at hs
  cases hw : s.worker with
  | test =>
    rw [hw] at hs hn
    cases hs
    refine ⟨fun e => absurd ((hn nofun).symm.trans e) nofun, ?_⟩
    by_cases hl : s.workList = []
    · rintro (e | ⟨e, -⟩) <;> simp [hl] at e
    · exact fun _ => hl
  | suspend =>
    rw [hw] at hs
    cases hs
    exact ⟨fun _ => rfl, fun e => e.elim nofun fun e => nomatch e.2⟩
  | schedule =>
    rw [hw] at hs
    simp only at hs
    split at hs
    · cases hs
    · rename_i hsus
      cases hs
      have hsus : s.suspended = false := by simpa using hsus
      exact ⟨fun e => absurd (hsus.symm.trans e) nofun, fun _ => h.linked (.inr ⟨hw, hsus⟩)⟩
  | dequeue =>
    rw [hw] at hs hn
    simp only at hs
    split at hs
    all_goals
      cases hs
      exact .awake (hn nofun) nofun nofun
  | work w =>
    rw [hw] at hs hn
    cases w with
    | none => cases hs
    | some w =>
      cases hs
      exact .awake (hn nofun) nofun nofun
  | clear | completion =>
    rw [hw] at hs hn
    cases hs
    exact .awake (hn nofun) nofun nofun

omit [DecidableEq W] in
/-- A call goes on. -/
theorem Ready.calls (h : Ready s) (hc : Calls s s' c p)
    (hl : Bound s → s.workList ≠ [] → s'.workList ≠ []) : Ready s' := by
  have hb : Bound s' → Bound s := by
    unfold Bound
    rw [hc.worker, hc.suspended]
    exact id
  refine ⟨?_, fun e => hl (hb e) (h.linked (hb e))⟩
  rw [hc.suspended, hc.worker]
  exact h.suspended

/-- **Every step keeps a work for the worker.** -/
theorem ready_step (h : Ready s) (hok : KeepsWork delayed s a) (hs : s.step delayed a = some s') : Ready s' := by
  cases step_cases hs with
  | worker hl hw => exact h.worker hw
  | link hsub hd hp hc hl =>
    refine h.calls hc fun _ _ => ?_
    rw [hl]
    simp
  | remove hsub hrem hcan hp hcont hc hl =>
    refine h.calls hc fun hb _ => ?_
    rw [hl]
    exact hok.removes _ hrem hb
  | node hcall hc hl =>
    refine h.calls hc fun hb _ => ?_
    rw [hl]
    exact hok.removes _ (by simp [State.removes, hcall]) hb
  | @next c w hcall => exact h.calls (setCall_calls s c _) fun _ hne => hne
  | @enter c hcall =>
    have h' : Ready { s with locked := c :: s.locked } := ⟨h.suspended, h.linked⟩
    exact h'.calls (setCall_calls _ c _) fun _ hne => hne
  | @leave c hcall =>
    have h' : Ready { s with locked := s.locked.erase c } := ⟨h.suspended, h.linked⟩
    exact h'.calls (setCall_calls _ c _) fun _ hne => hne
  | @resume c hcall =>
    refine ⟨nofun, fun hb => ?_⟩
    cases hsus : s.suspended with
    | true => exact hok.resume c rfl hcall hsus
    | false => exact h.linked (hb.imp id fun e => ⟨e.1, hsus⟩)
  | other hsub hrem hcan hall hd hp hp' hc hl =>
    refine h.calls hc fun _ hne => ?_
    rwa [hl]

/-! ## Cancels -/

/-- `w` is at the node or behind it. -/
def Ahead (l : List W) (node : Option W) (w : W) : Prop := ∃ v, node = some v ∧ w ∈ l.dropWhile (· ≠ v)

/-- A call of `rt_workqueue_cancel_all_work` goes on at a linked node, and has the works to cancel that are
still linked ahead of it, or before it. -/
def Walks (l : List W) (want : W → Bool) : Call W → Prop
  | .cancelAll node => (∀ v, node = some v → v ∈ l) ∧ ∀ w ∈ l, want w = true → Ahead l node w
  | .cancelNode u next => next ≠ some u ∧ (∀ v, next = some v → v ∈ l) ∧
    ∀ w ∈ l, want w = true → w = u ∨ Ahead l next w
  | _ => True

/-- A call is in `rt_workqueue_cancel_all_work`. -/
def Call.walks : Call W → Bool
  | .cancelAll _ | .cancelNode _ _ => true
  | _ => false

/-- No cancelled work is linked; who walks along the list holds the scheduler, and finds what it is to cancel. -/
structure Cancels (s : State W C) (g : Log W C) : Prop where
  nodup : s.workList.Nodup
  unlinked : ∀ w, g.cancelled w = true → w ∉ s.workList
  locked : ∀ c, (s.call c).walks = true → c ∈ s.locked
  walks : ∀ c, Walks s.workList (g.toCancel c) (s.call c)

omit [DecidableEq C] in
theorem Walks.of_plain {l : List W} {want : W → Bool} (hp : p.plain = true) : Walks l want p := by
  cases p with
  | resume | cancelAll | cancelNode => cases hp
  | _ => trivial

/-- **A walk goes on along another list**, which has the node and what is ahead of it. -/
theorem Walks.change {l l' : List W} {want want' : W → Bool} (h : Walks l want p)
    (hv : ∀ v, p.cursor = some v → v ∈ l → v ∈ l')
    (hw : ∀ w ∈ l', want' w = true → w ∈ l ∧ want w = true ∧
      ∀ v, p.cursor = some v → w ∈ l.dropWhile (· ≠ v) → w ∈ l'.dropWhile (· ≠ v)) : Walks l' want' p := by
  have hahead : ∀ w ∈ l', want' w = true → Ahead l p.cursor w → Ahead l' p.cursor w := by
    rintro w hl hwant ⟨v, hn, hd⟩
    exact ⟨v, hn, (hw w hl hwant).2.2 v hn hd⟩
  cases p with
  | cancelAll node =>
    refine ⟨fun v hn => hv v hn (h.1 v hn), fun w hl hwant => hahead w hl hwant ?_⟩
    exact h.2 w (hw w hl hwant).1 (hw w hl hwant).2.1
  | cancelNode u next =>
    refine ⟨h.1, fun v hn => hv v hn (h.2.1 v hn), fun w hl hwant => ?_⟩
    exact (h.2.2 w (hw w hl hwant).1 (hw w hl hwant).2.1).imp id (hahead w hl hwant)
  | _ => trivial

/-- A work that is not the node leaves the list. -/
theorem Walks.erase {l : List W} {want : W → Bool} (h : Walks l want p) (hl : l.Nodup)
    (hu : p.cursor ≠ some w) : Walks (l.erase w) want p := by
  have hne : ∀ v, p.cursor = some v → v ≠ w := fun v hv e => hu (e ▸ hv)
  refine h.change (fun v hv hm => (List.mem_erase_of_ne (hne v hv)).2 hm) fun y hy hwant => ?_
  obtain ⟨hyw, hyl⟩ := hl.mem_erase_iff.1 hy
  exact ⟨hyl, hwant, fun v hv => Queue.mem_dropWhile_erase (hne v hv) hyw⟩

/-- A work that is not the node goes to the end of the list. -/
theorem Walks.link {l : List W} {want : W → Bool} (h : Walks l want p) (hl : l.Nodup)
    (hu : p.cursor ≠ some w) : Walks (l.erase w ++ [w]) (Function.update want w false) p := by
  have hne : ∀ v, p.cursor = some v → v ≠ w := fun v hv e => hu (e ▸ hv)
  refine (h.erase hl hu).change (fun v hv => List.mem_append_left _) fun y hy hwant => ?_
  have hyw : y ≠ w := by
    rintro rfl
    rw [Function.update_self] at hwant
    cases hwant
  rw [Function.update_of_ne hyw] at hwant
  exact ⟨(List.mem_append.1 hy).resolve_right (by simpa using hyw), hwant,
    fun v hv => Queue.mem_dropWhile_append⟩

omit [DecidableEq C] in
/-- The walk goes on to the next node. -/
theorem Walks.next {want : W → Bool} (h : Walks s.workList want (.cancelAll (some w))) (hl : s.workList.Nodup) :
    Walks s.workList want (.cancelNode w (s.next w)) := by
  have hw : w ∈ s.workList := h.1 w rfl
  have hnext : s.next w = (s.workList.dropWhile (· ≠ w)).tail.head? := if_pos hw
  have hsub : (s.workList.dropWhile (· ≠ w)).Sublist s.workList := List.dropWhile_sublist _
  have hcons : s.workList.dropWhile (· ≠ w) = w :: (s.workList.dropWhile (· ≠ w)).tail :=
    List.eq_cons_of_mem_head? (Queue.head_dropWhile hw)
  have hrest : ∀ v, s.next w = some v → v ∈ (s.workList.dropWhile (· ≠ w)).tail := fun v hv =>
    List.mem_of_mem_head? (hnext ▸ hv)
  refine ⟨fun e => ?_, fun v hv => hsub.subset (List.mem_of_mem_tail (hrest v hv)), fun y hy hwant => ?_⟩
  · have hnd := hl.sublist hsub
    rw [hcons] at hnd
    exact (List.nodup_cons.1 hnd).1 (hrest w e)
  · obtain ⟨v, hv, hm⟩ := h.2 y hy hwant
    cases hv
    refine (Queue.mem_dropWhile_next hl hm).imp id ?_
    rintro ⟨u, -, hu, hyu⟩
    exact ⟨u, hnext.trans hu, hyu⟩

/-- The walk takes its node out of the list. -/
theorem Walks.node {l : List W} {want : W → Bool} {next : Option W} (h : Walks l want (.cancelNode w next))
    (hl : l.Nodup) : Walks (l.erase w) want (.cancelAll next) := by
  have hne : ∀ v, next = some v → v ≠ w := fun v hv e => h.1 (e ▸ hv)
  refine ⟨fun v hv => (List.mem_erase_of_ne (hne v hv)).2 (h.2.1 v hv), fun y hy hwant => ?_⟩
  obtain ⟨hyw, hyl⟩ := hl.mem_erase_iff.1 hy
  obtain ⟨v, hv, hm⟩ := (h.2.2 y hyl hwant).resolve_left hyw
  exact ⟨v, hv, Queue.mem_dropWhile_erase (hne v hv) hyw hm⟩

/-- The walk begins at the first node. -/
theorem Walks.enter (l : List W) : Walks l (fun w => decide (w ∈ l)) (.cancelAll l.head?) := by
  refine ⟨fun v hv => List.mem_of_mem_head? hv, fun w hw _ => ?_⟩
  cases l with
  | nil => cases hw
  | cons v l => exact ⟨v, rfl, by rwa [List.dropWhile_cons_of_neg (by simp)]⟩

omit [DecidableEq C] in
/-- Where nobody walks along the list, it may change at will. -/
theorem Walks.of_unlocked {l : List W} (hl : ∀ c, (s.call c).walks = true → c ∈ s.locked) (hn : s.locked = [])
    (want : W → Bool) (c : C) : Walks l want (s.call c) := by
  have hc : (s.call c).walks ≠ true := fun e => by
    have := hl c e
    rw [hn] at this
    cases this
  cases hp : s.call c with
  | cancelAll | cancelNode =>
    rw [hp] at hc
    exact absurd rfl hc
  | _ => trivial

omit [DecidableEq C] in
theorem Cancels.create : Cancels (rtWorkqueueCreate W C) ⟨fun _ => false, fun _ _ => false⟩ where
  nodup := List.nodup_nil
  unlinked := nofun
  locked := nofun
  walks := fun _ => trivial

theorem log_submit (h : s.submits delayed a = some w) : log delayed s a s' g =
    { cancelled := Function.update g.cancelled w false
      toCancel := fun c => Function.update (g.toCancel c) w false } := by
  unfold log
  rw [h]

theorem log_cancel (h : s.submits delayed a = none) (hw : s.cancels delayed a = some w) :
    log delayed s a s' g = { g with cancelled := Function.update g.cancelled w true } := by
  unfold log
  rw [h, hw]

/-- A call of `rt_workqueue_cancel_all_work` goes on, and is not at its end. -/
theorem log_walk (h : (s.call c).walks = true) (hn : s.call c ≠ .cancelAll none) :
    log delayed s (.cont c) s' g = g := by
  cases hc : s.call c with
  | cancelAll node =>
    cases node with
    | none => exact absurd hc hn
    | some w => simp [log, State.submits, State.cancels, State.finishes, hc]
  | cancelNode u next => simp [log, State.submits, State.cancels, State.finishes, hc]
  | _ =>
    rw [hc] at h
    cases h

/-- A step that neither submits nor cancels a work, away from the list. -/
theorem log_other (h : s.submits delayed a = none) (hw : s.cancels delayed a = none)
    (hall : ∀ d, a ≠ .cancelAll d) (hp : ∀ c, a = .cont c → s.call c ≠ .cancelAll none) :
    log delayed s a s' g = g := by
  unfold log
  rw [h, hw]
  cases a with
  | cancelAll d => exact absurd rfl (hall d)
  | cont c =>
    simp only
    split
    · rename_i hc
      exact absurd hc (hp c rfl)
    · rfl
  | _ => rfl

omit [DecidableEq W] in
/-- A call goes on from `rt_workqueue_cancel_all_work` to it, or from without to without. -/
theorem Calls.locked_of (hc : Calls s s' c p) (h : ∀ d, (s.call d).walks = true → d ∈ s.locked)
    (hp : p.walks = true → (s.call c).walks = true) : ∀ d, (s'.call d).walks = true → d ∈ s'.locked := by
  rw [hc.locked, hc.call]
  refine (Function.forall_update_iff s.call fun d q => q.walks = true → d ∈ s.locked).2 ⟨?_, fun d _ => h d⟩
  exact fun hw => h c (hp hw)

/-- One call goes on, and the others walk along the list as before. -/
theorem Walks.update {l : List W} (want : C → W → Bool) (hc : Walks l (want c) p)
    (h : ∀ d, d ≠ c → Walks l (want d) (s.call d)) : ∀ d, Walks l (want d) (Function.update s.call c p d) :=
  (Function.forall_update_iff s.call fun d q => Walks l (want d) q).2 ⟨hc, h⟩

omit [DecidableEq C] [DecidableEq W] in
theorem Call.walks_plain (h : p.plain = true) : p.walks = true → (s.call c).walks = true := by
  cases p with
  | resume | cancelAll | cancelNode => cases h
  | _ => nofun

omit [DecidableEq C] in
/-- What a step of the worker does to the list: it takes the first work, or nothing. -/
theorem workerStep_list (h : s.workerStep = some s') :
    (s'.workList = s.workList ∨ ∃ w, s.workList = w :: s'.workList) ∧ s'.locked = s.locked ∧
      ∀ c, (s'.call c).walks = (s.call c).walks := by
  unfold State.workerStep at h
  cases hw : s.worker with
  | dequeue =>
    rw [hw] at h
    simp only at h
    split at h
    · cases h
      exact ⟨.inl rfl, rfl, fun _ => rfl⟩
    · rename_i w l hl
      cases h
      exact ⟨.inr ⟨w, hl⟩, rfl, fun _ => rfl⟩
  | schedule =>
    rw [hw] at h
    simp only at h
    split at h
    · cases h
    · cases h
      exact ⟨.inl rfl, rfl, fun _ => rfl⟩
  | work w =>
    rw [hw] at h
    cases w with
    | none => cases h
    | some w =>
      cases h
      exact ⟨.inl rfl, rfl, fun _ => rfl⟩
  | completion =>
    rw [hw] at h
    cases h
    refine ⟨.inl rfl, rfl, fun c => ?_⟩
    dsimp only
    cases s.call c <;> rfl
  | _ =>
    rw [hw] at h
    cases h
    exact ⟨.inl rfl, rfl, fun _ => rfl⟩

/-- **Every step keeps the promises of the cancels.** -/
theorem cancels_step (h : Cancels s g) (hok : KeepsWork delayed s a) (hs : s.step delayed a = some s') :
    Cancels s' (log delayed s a s' g) := by
  obtain ⟨hnd, hun, hloc, hwalk⟩ := h
  cases step_cases hs with
  | worker hl hw =>
    obtain ⟨hlist, hlocked, hcall⟩ := workerStep_list hw
    have hsub : s'.workList.Sublist s.workList := by
      obtain e | ⟨w, e⟩ := hlist
      · rw [e]
      · rw [e]
        exact List.sublist_cons_self w _
    have hloc' : ∀ c, (s'.call c).walks = true → c ∈ s'.locked := fun c hc => by
      rw [hlocked]
      exact hloc c (hcall c ▸ hc)
    exact ⟨hnd.sublist hsub, fun w hw hm => hun w hw (hsub.subset hm), hloc',
      fun c => Walks.of_unlocked hloc' (hlocked.trans hl) _ c⟩
  | @link _ _ c w hsub hd hp hc hl =>
    rw [log_submit hsub]
    refine ⟨?_, fun v (hv : Function.update g.cancelled w false v = true) hm => ?_,
      hc.locked_of hloc ?_, ?_⟩
    · rw [hl]
      exact (List.perm_append_singleton w _).nodup_iff.2 (List.nodup_cons.2 ⟨hnd.not_mem_erase, hnd.erase w⟩)
    · rw [hl] at hm
      have hvw : v ≠ w := by
        rintro rfl
        rw [Function.update_self] at hv
        cases hv
      rw [Function.update_of_ne hvw] at hv
      rcases List.mem_append.1 hm with hm | hm
      · exact hun v hv (List.mem_of_mem_erase hm)
      · exact hvw (by simpa using hm)
    · split <;> nofun
    · rw [hl, hc.call]
      refine Walks.update (fun d => Function.update (g.toCancel d) w false) ?_ fun d hdc => ?_
      · split <;> trivial
      · exact (hwalk d).link hnd fun e => (hok.cursor d (fun e => hdc (hd d e)) w e).2 hsub
  | @remove _ _ c w hsub hrem hcan hp hcont hc hl =>
    rw [log_cancel hsub hcan]
    refine ⟨?_, fun v (hv : Function.update g.cancelled w true v = true) hm => ?_,
      hc.locked_of hloc id, fun d => ?_⟩
    · rw [hl]
      exact hnd.erase w
    · rw [hl] at hm
      obtain ⟨hvw, hm⟩ := hnd.mem_erase_iff.1 hm
      rw [Function.update_of_ne hvw] at hv
      exact hun v hv hm
    · rw [hl, hc.call, Function.update_eq_self]
      exact (hwalk d).erase hnd fun e => (hok.cursor d (hcont d) w e).1 hrem
  | @node _ c w next hcall hc hl =>
    rw [log_walk (by rw [hcall]; rfl) (by rw [hcall]; nofun)]
    refine ⟨?_, fun v hv hm => ?_, hc.locked_of hloc (by rw [hcall]; exact fun _ => rfl), ?_⟩
    · rw [hl]
      exact hnd.erase w
    · rw [hl] at hm
      exact hun v hv (List.mem_of_mem_erase hm)
    · rw [hl, hc.call]
      have hrem : s.removes delayed (.cont c) = some w := by simp [State.removes, hcall]
      refine Walks.update g.toCancel (Walks.node (hcall ▸ hwalk c) hnd) fun d hdc => ?_
      exact (hwalk d).erase hnd fun e => (hok.cursor d (fun e => hdc (by cases e; rfl)) w e).1 hrem
  | @next c w hcall =>
    rw [log_walk (by rw [hcall]; rfl) (by rw [hcall]; nofun)]
    exact ⟨hnd, hun, (setCall_calls s c _).locked_of hloc (by rw [hcall]; exact fun _ => rfl),
      Walks.update g.toCancel (Walks.next (hcall ▸ hwalk c) hnd) fun d _ => hwalk d⟩
  | @enter c hcall =>
    refine ⟨hnd, hun, ?_, ?_⟩
    · refine (Function.forall_update_iff s.call fun d q => q.walks = true → d ∈ c :: s.locked).2 ⟨?_, ?_⟩
      · exact fun _ => List.mem_cons_self
      · exact fun d _ hd => List.mem_cons_of_mem _ (hloc d hd)
    · refine Walks.update (Function.update g.toCancel c _) ?_ fun d hdc => ?_
      · rw [Function.update_self]
        exact Walks.enter s.workList
      · rw [Function.update_of_ne hdc]
        exact hwalk d
  | @leave c hcall =>
    have hlog : log delayed s (.cont c) ({ s with locked := s.locked.erase c }.setCall c .idle) g =
        { g with cancelled := fun w => g.cancelled w || g.toCancel c w } := by
      simp [log, State.submits, State.cancels, State.finishes, hcall]
    rw [hlog]
    refine ⟨hnd, fun w hw hm => ?_, ?_, Walks.update g.toCancel (p := .idle) trivial fun d _ => hwalk d⟩
    · rcases Bool.or_eq_true_iff.1 hw with hw | hw
      · exact hun w hw hm
      · have hc := hwalk c
        rw [hcall] at hc
        obtain ⟨v, hv, -⟩ := hc.2 w hm hw
        cases hv
    · refine (Function.forall_update_iff s.call fun d q => q.walks = true → d ∈ s.locked.erase c).2 ⟨nofun, ?_⟩
      exact fun d hdc hd => (List.mem_erase_of_ne hdc).2 (hloc d hd)
  | @resume c hcall =>
    have hlog : log delayed s (.cont c) (s.resume.setCall c .idle) g = g := by
      simp [log, State.submits, State.cancels, State.finishes, hcall]
    rw [hlog]
    exact ⟨hnd, hun, (setCall_calls s.resume c .idle).locked_of hloc nofun,
      Walks.update g.toCancel (p := .idle) trivial fun d _ => hwalk d⟩
  | @other _ _ c p hsub hrem hcan hall hd hp hp' hc hl =>
    have hloc' := hc.locked_of hloc (Call.walks_plain hp')
    have hwalk' : ∀ d, Walks s'.workList (g.toCancel d) (s'.call d) := by
      rw [hl, hc.call]
      exact Walks.update g.toCancel (.of_plain hp') fun d _ => hwalk d
    cases hf : s.finishes a with
    | none =>
      rw [log_other hsub (hcan.trans hf) hall ?_]
      · exact ⟨hl ▸ hnd, fun w hw => hl ▸ hun w hw, hloc', hwalk'⟩
      · rintro d rfl e
        rw [← hd d rfl, e] at hp
        cases hp
    | some w =>
      rw [log_cancel hsub (hcan.trans hf)]
      refine ⟨hl ▸ hnd, fun v (hv : Function.update g.cancelled w true v = true) => ?_, hloc', hwalk'⟩
      rw [hl]
      by_cases hvw : v = w
      · subst hvw
        exact hok.finishes v hf
      · rw [Function.update_of_ne hvw] at hv
        exact hun v hv

/-- **The worker takes a linked work that is not cancelled.** -/
theorem worker_runs_submitted {r : State W C × Log W C} (h : Runs delayed (KeepsWork delayed) r)
    (hd : r.1.worker = .dequeue) (hs : r.1.step delayed .worker = some s') :
    ∃ w ∈ r.1.workList, s'.worker = .work (some w) ∧ r.2.cancelled w = false := by
  have hI : Ready r.1 ∧ Cancels r.1 r.2 := by
    refine Run.Reach.inv (I := fun r => Ready r.1 ∧ Cancels r.1 r.2) ?_ ?_ h
    · rintro ⟨s, g⟩ ⟨rfl, rfl⟩
      exact ⟨.create, .create⟩
    · rintro ⟨s, g⟩ a ⟨s', g'⟩ ⟨hready, hcan⟩ hok ⟨hs, hg⟩
      obtain rfl : g' = log delayed s a s' g := hg
      exact ⟨ready_step hready hok hs, cancels_step hcan hok hs⟩
  obtain ⟨hready, hcan⟩ := hI
  have hne := hready.linked (.inl hd)
  simp only [State.step] at hs
  split at hs
  swap
  · cases hs
  unfold State.workerStep at hs
  rw [hd] at hs
  cases hlist : r.1.workList with
  | nil => exact absurd hlist hne
  | cons w l =>
    rw [hlist] at hs
    cases hs
    refine ⟨w, List.mem_cons_self, rfl, ?_⟩
    by_contra hc
    exact hcan.unlinked w (by simpa using hc) (hlist ▸ List.mem_cons_self)

/-- A run goes on. -/
theorem Runs.next {ok : State W C → Act W C → Prop} {r : State W C × Log W C} (h : Runs delayed ok r)
    (a : Act W C) (hok : ok r.1 a) (hs : r.1.step delayed a = some s') :
    Runs delayed ok (s', log delayed r.1 a s' r.2) :=
  .step h hok ⟨hs, rfl⟩

/-- Work 1 is submitted, and the worker finds it. -/
theorem worker_runs_submitted_once : ∃ (r : State ℕ Unit × Log ℕ Unit) (s' : State ℕ Unit),
    r.1.workList = [1] ∧ ∃ w ∈ r.1.workList, s'.worker = .work (some w) ∧ r.2.cancelled w = false := by
  have h₀ : Runs (fun _ => false) (KeepsWork fun _ => false)
      (rtWorkqueueCreate ℕ Unit, ⟨fun _ => false, fun _ _ => false⟩) := .init ⟨rfl, rfl⟩
  have h₁ := h₀.next (.dowork () 1) ⟨nofun, nofun, nofun, nofun⟩ rfl
  have h₂ := h₁.next .worker ⟨nofun, nofun, nofun, nofun⟩ rfl
  exact ⟨_, _, rfl, worker_runs_submitted h₂ rfl rfl⟩

/-- **The worker takes the head of the list for a work**: a cancel empties the list between its wake-up and
its dequeue. -/
theorem worker_runs_head : ∃ (r : State ℕ Unit × Log ℕ Unit) (s' : State ℕ Unit),
    Runs (fun _ => false) Run.Any r ∧ r.1.worker = .dequeue ∧
      r.1.step (fun _ => false) .worker = some s' ∧ s'.worker = .work none := by
  obtain ⟨r, hr, h⟩ := Run.Reach.exec_logged (fun (s : State ℕ Unit) a => s.step (fun _ => false) a)
    (fun _ => (⟨fun _ => false, fun _ _ => false⟩ : Log ℕ Unit)) (log fun _ => false) Run.Any
    (show (rtWorkqueueCreate ℕ Unit).Init from rfl)
    [.worker, .worker, .dowork () 1, .cont (), .cancel () 1, .worker]
    (fun (r : State ℕ Unit × Log ℕ Unit) => decide (r.1.worker = .dequeue) &&
      (r.1.step (fun _ => false) .worker).any fun (s : State ℕ Unit) => decide (s.worker = .work none)) (by decide)
  obtain ⟨hd, h⟩ := Bool.and_eq_true_iff.1 h
  obtain ⟨s', hs, hw⟩ := (Option.any_eq_true _ _).1 h
  exact ⟨r, s', hr, of_decide_eq_true hd, hs, of_decide_eq_true hw⟩

end RtThread.WorkQueue
