import RtThread.Spec.Timer

/-!
# The activated flag and the timer lists

* `rtTimerStart_eq`, `rtTimerStop_ok`, `afterCallback_marked_iff`: what each function does to
  the flags and to the links.
* `timer_consistent`: outside of the callbacks a timer is activated exactly if it is linked,
  in every run in which no callback leaves its own one-shot timer started; and a
  stopped timer is not called before it is started again.
* `timer_self_start`: a one-shot timer that starts itself stays linked without the flag.
* `ret_consistent_iff`: the return of a callback keeps this under that condition only.
-/

namespace RtThread.Timer

open Timers

variable {T : Type*} {usingSoft : Bool} {s s' : Timers T} {t : T}

namespace Timers

theorem link_timer : (s.link usingSoft t).timer = s.timer := by
  unfold link; split <;> rfl

theorem link_tick : (s.link usingSoft t).tick = s.tick := by
  unfold link; split <;> rfl

theorem link_hardList : (s.link usingSoft t).hardList =
    if usingSoft && (s.timer t).softTimer then s.hardList
    else Queue.insertBefore (s.expiresAfter t) t s.hardList := by
  unfold link; split <;> rfl

theorem link_linked {x : T} : (s.link usingSoft t).Linked x ↔ x = t ∨ s.Linked x := by
  unfold Linked link
  split <;> simp only [Queue.mem_insertBefore] <;> tauto

/-- The walk compares expiry only. -/
theorem expiresAfter_congr (h : ∀ x, (s'.timer x).timeoutTick = (s.timer x).timeoutTick) :
    s'.expiresAfter t = s.expiresAfter t := by
  funext x
  simp only [expiresAfter, h]

variable [DecidableEq T]

@[simp] theorem modify_same (f : RtTimer → RtTimer) : (s.modify t f).timer t = f (s.timer t) := by
  simp [modify]

@[simp] theorem modify_ne {x : T} (h : x ≠ t) (f : RtTimer → RtTimer) :
    (s.modify t f).timer x = s.timer x := by
  simp [modify, h]

@[simp] theorem setActivated_same (v : Bool) :
    (s.setActivated t v).timer t = { s.timer t with activated := v } := by
  simp [setActivated]

@[simp] theorem setActivated_ne {x : T} (h : x ≠ t) (v : Bool) :
    (s.setActivated t v).timer x = s.timer x := by
  simp [setActivated, h]

@[simp] theorem setActivated_linked {x : T} (v : Bool) :
    (s.setActivated t v).Linked x ↔ s.Linked x := Iff.rfl

@[simp] theorem remove_timer : (s.remove t).timer = s.timer := rfl

@[simp] theorem remove_linked {x : T} : (s.remove t).Linked x ↔ x ≠ t ∧ s.Linked x := by
  unfold Linked remove
  simp only [List.mem_filter, decide_eq_true_eq]
  tauto

/-- The state `rt_timer_start` leaves. -/
def afterStart (s : Timers T) (usingSoft : Bool) (t : T) : Timers T :=
  ((((s.remove t).setActivated t false).modify t fun x =>
    { x with timeoutTick := s.tick + x.initTick }).link usingSoft t).setActivated t true

theorem rtTimerStart_eq (s : Timers T) (usingSoft : Bool) (t : T) : s.rtTimerStart usingSoft t =
    if (s.timer t).initTick < rtTickMax / 2 then some (s.afterStart usingSoft t) else none := by
  unfold rtTimerStart
  simp only [setActivated_same]
  rfl

theorem afterStart_tick : (s.afterStart usingSoft t).tick = s.tick := link_tick

theorem afterStart_timer_same : (s.afterStart usingSoft t).timer t = { s.timer t with
    activated := true, timeoutTick := s.tick + (s.timer t).initTick } := by
  unfold afterStart
  rw [setActivated_same, link_timer, modify_same, setActivated_same]
  rfl

theorem afterStart_timer_ne {x : T} (hx : x ≠ t) :
    (s.afterStart usingSoft t).timer x = s.timer x := by
  unfold afterStart
  rw [setActivated_ne hx, link_timer, modify_ne hx, setActivated_ne hx]
  rfl

/-- `rt_timer_start` links the timer. -/
theorem afterStart_linked {x : T} :
    (s.afterStart usingSoft t).Linked x ↔ x = t ∨ s.Linked x := by
  unfold afterStart
  rw [setActivated_linked, link_linked]
  change x = t ∨ ((s.remove t).setActivated t false).Linked x ↔ _
  rw [setActivated_linked, remove_linked]
  tauto

/-- `rt_timer_start` inserts the timer behind those that expire no later. -/
theorem afterStart_hardList : (s.afterStart usingSoft t).hardList =
    if usingSoft && (s.timer t).softTimer then s.hardList.filter (· ≠ t)
    else Queue.insertBefore ((s.afterStart usingSoft t).expiresAfter t) t
      (s.hardList.filter (· ≠ t)) := by
  have hafter : (s.afterStart usingSoft t).expiresAfter t =
      (((s.remove t).setActivated t false).modify t fun x =>
        { x with timeoutTick := s.tick + x.initTick }).expiresAfter t := by
    refine expiresAfter_congr fun x => ?_
    unfold afterStart
    by_cases hx : x = t
    · subst hx; rw [setActivated_same, link_timer]
    · rw [setActivated_ne hx, link_timer]
  rw [hafter]
  unfold afterStart
  change ((((s.remove t).setActivated t false).modify t fun x =>
    { x with timeoutTick := s.tick + x.initTick }).link usingSoft t).hardList = _
  rw [link_hardList, modify_same, setActivated_same]
  rfl

/-- **`rt_timer_stop`** unlinks the timer if its flag says it is activated. -/
theorem rtTimerStop_ok : (s.rtTimerStop t).2 =
    if (s.timer t).activated = false then s else (s.remove t).setActivated t false := by
  unfold rtTimerStop; split <;> rfl

/-- **`rt_timer_control`** neither links nor activates. -/
theorem rtTimerControl_ok (c : Ctrl) : (s.rtTimerControl t c).2.hardList = s.hardList ∧
    (s.rtTimerControl t c).2.softList = s.softList ∧
    ∀ x, ((s.rtTimerControl t c).2.timer x).activated = (s.timer x).activated := by
  cases c <;> refine ⟨rfl, rfl, fun x => ?_⟩ <;> by_cases hx : x = t <;>
    simp [rtTimerControl, modify, hx]

end Timers

/-! ## The flag says what is linked -/

variable [DecidableEq T]

namespace Timers

/-- The flag of timer `x` says whether it is linked. -/
def Marked (s : Timers T) (x : T) : Prop := (s.timer x).activated = true ↔ s.Linked x

/-- Timer `x` is not linked without its flag. -/
def LinkedActive (s : Timers T) (x : T) : Prop := s.Linked x → (s.timer x).activated = true

omit [DecidableEq T] in
theorem Marked.linkedActive {x : T} (h : s.Marked x) : s.LinkedActive x := h.2

/-- During the callback of `t`: all other flags are right. -/
def MarkedBut (s : Timers T) (t : T) : Prop := (∀ x, x ≠ t → s.Marked x) ∧ s.LinkedActive t

variable {x : T}

theorem marked_start (h : x ≠ t → s.Marked x) : (s.afterStart usingSoft t).Marked x := by
  unfold Marked
  rw [afterStart_linked]
  by_cases hx : x = t
  · subst hx; simp [afterStart_timer_same]
  · rw [afterStart_timer_ne hx]
    simpa [hx, Marked] using h hx

theorem linkedActive_start (h : x ≠ t → s.LinkedActive x) :
    (s.afterStart usingSoft t).LinkedActive x := by
  unfold LinkedActive
  rw [afterStart_linked]
  by_cases hx : x = t
  · subst hx; simp [afterStart_timer_same]
  · rw [afterStart_timer_ne hx]
    simpa [hx, LinkedActive] using h hx

theorem marked_stop (h : s.Marked x) : (s.rtTimerStop t).2.Marked x := by
  rw [rtTimerStop_ok]
  split
  · exact h
  · unfold Marked at h ⊢
    rw [setActivated_linked, remove_linked]
    by_cases hx : x = t
    · subst hx; simp
    · simpa [setActivated_ne hx, hx] using h

theorem linkedActive_stop (h : s.LinkedActive x) : (s.rtTimerStop t).2.LinkedActive x := by
  rw [rtTimerStop_ok]
  split
  · exact h
  · unfold LinkedActive at h ⊢
    rw [setActivated_linked, remove_linked]
    by_cases hx : x = t
    · subst hx; simp
    · simpa [setActivated_ne hx, hx] using h

theorem control_linked (c : Ctrl) : (s.rtTimerControl t c).2.Linked x ↔ s.Linked x := by
  cases c <;> rfl

theorem control_activated (c : Ctrl) :
    ((s.rtTimerControl t c).2.timer x).activated = (s.timer x).activated := by
  cases c <;> by_cases hx : x = t <;> simp [rtTimerControl, modify, hx]

theorem marked_control (c : Ctrl) (h : s.Marked x) : (s.rtTimerControl t c).2.Marked x := by
  unfold Marked
  rw [control_linked, control_activated]
  exact h

theorem linkedActive_control (c : Ctrl) (h : s.LinkedActive x) :
    (s.rtTimerControl t c).2.LinkedActive x := by
  unfold LinkedActive
  rw [control_linked, control_activated]
  exact h

/-- **After the callback of `t`** its flag is right, unless the callback left `t` started in
one-shot mode: then it stays linked without the flag. -/
theorem afterCallback_marked_iff (h : s.MarkedBut t) (ha : s.afterCallback usingSoft t = some s') :
    (∀ x, s'.Marked x) ↔ (s.Linked t → (s.timer t).periodic = true) := by
  unfold afterCallback at ha
  split at ha
  · -- started again
    rename_i hr
    rw [rtTimerStart_eq] at ha
    split at ha
    swap
    · simp at ha
    rw [Option.some.injEq] at ha
    subst ha
    have hper : (s.timer t).periodic = true := by
      unfold restarts at hr
      simp only [Bool.and_eq_true] at hr
      exact hr.1
    refine ⟨fun _ _ => hper, fun _ x => marked_start fun hx => ?_⟩
    have := h.1 x hx
    unfold Marked at this ⊢
    rwa [setActivated_linked, setActivated_ne hx]
  · -- marked as stopped
    rename_i hr
    rw [Option.some.injEq] at ha
    subst ha
    constructor
    · intro hall hlinked
      have := (hall t).2 hlinked
      simp at this
    · intro hper x
      unfold Marked
      rw [setActivated_linked]
      by_cases hx : x = t
      · subst hx
        rw [setActivated_same]
        simp only [Bool.false_eq_true, false_iff]
        intro hl
        exact hr (by unfold restarts; simp [hper hl, h.2 hl])
      · rw [setActivated_ne hx]
        exact h.1 x hx

/-- The timer is stopped: neither linked nor marked. -/
def Stopped (s : Timers T) (x : T) : Prop := ¬ s.Linked x ∧ (s.timer x).activated = false

theorem stopped_stop (h : s.LinkedActive t) : (s.rtTimerStop t).2.Stopped t := by
  rw [rtTimerStop_ok]
  split
  · rename_i hf
    exact ⟨fun hl => by rw [h hl] at hf; simp at hf, hf⟩
  · exact ⟨by rw [setActivated_linked, remove_linked]; simp, by rw [setActivated_same]⟩

theorem Stopped.start (h : s.Stopped x) (hx : x ≠ t) : (s.afterStart usingSoft t).Stopped x := by
  unfold Stopped
  rw [afterStart_linked, afterStart_timer_ne hx]
  exact ⟨by simpa [hx] using h.1, h.2⟩

theorem Stopped.stop (h : s.Stopped x) : (s.rtTimerStop t).2.Stopped x := by
  rw [rtTimerStop_ok]
  split
  · exact h
  · unfold Stopped
    rw [setActivated_linked, remove_linked]
    refine ⟨fun hl => h.1 hl.2, ?_⟩
    by_cases hx : x = t
    · subst hx; rw [setActivated_same]
    · rw [setActivated_ne hx]; exact h.2

theorem Stopped.control (c : Ctrl) (h : s.Stopped x) : (s.rtTimerControl t c).2.Stopped x := by
  unfold Stopped
  rw [control_linked, control_activated]
  exact h

/-- The loop starts again only timers whose flag is set. -/
theorem Stopped.afterCallback (h : s.Stopped x) (ha : s.afterCallback usingSoft t = some s') :
    s'.Stopped x := by
  unfold Timers.afterCallback at ha
  split at ha
  · rename_i hr
    rw [rtTimerStart_eq] at ha
    split at ha
    swap
    · simp at ha
    rw [Option.some.injEq] at ha
    subst ha
    have hx : x ≠ t := by
      rintro rfl
      unfold restarts at hr
      rw [h.2] at hr
      simp at hr
    refine Stopped.start ⟨?_, ?_⟩ hx
    · rw [setActivated_linked]; exact h.1
    · rw [setActivated_ne hx]; exact h.2
  · rw [Option.some.injEq] at ha
    subst ha
    refine ⟨by rw [setActivated_linked]; exact h.1, ?_⟩
    by_cases hx : x = t
    · subst hx; rw [setActivated_same]
    · rw [setActivated_ne hx]; exact h.2

end Timers

/-! ## Runs -/

/-- The invariant: the flags are right, but for the timer whose callback runs. -/
def Consistent (k : Sys T) : Prop :=
  match k.pc with
  | .calling t => k.timers.MarkedBut t
  | _ => ∀ t, k.timers.Marked t

variable {k k' : Sys T} {a : Act T}

@[simp] theorem returned_timers (t : T) : (k.returned t s).timers = s := by
  unfold Sys.returned; split <;> rfl

@[simp] theorem returned_pc (t : T) : (k.returned t s).pc = .checking k.timers.tick := rfl

omit [DecidableEq T] in
theorem consistent_of_outside (h : k.Outside) : Consistent k ↔ ∀ t, k.timers.Marked t := by
  unfold Consistent
  cases hpc : k.pc with
  | calling t => exact absurd hpc (h t)
  | idle => rfl
  | checking => rfl

theorem Consistent.linkedActive (h : Consistent k) (x : T) : k.timers.LinkedActive x := by
  unfold Consistent at h
  cases hpc : k.pc with
  | calling t =>
    rw [hpc] at h
    by_cases hx : x = t
    · exact hx ▸ h.2
    · exact (h.1 x hx).linkedActive
  | idle => rw [hpc] at h; exact (h x).linkedActive
  | checking => rw [hpc] at h; exact (h x).linkedActive

omit [DecidableEq T] in
/-- A timer function, called from a thread or from a callback. -/
theorem Consistent.callable {f : Timers T} (h : Consistent k)
    (hm : ∀ x, k.timers.Marked x → f.Marked x)
    (hl : ∀ x, k.timers.LinkedActive x → f.LinkedActive x) {k' : Sys T} (ht : k'.timers = f)
    (hpc : k'.pc = k.pc) : Consistent k' := by
  unfold Consistent at h ⊢
  rw [hpc, ht]
  cases hpc : k.pc with
  | calling t => rw [hpc] at h; exact ⟨fun x hx => hm x (h.1 x hx), hl t h.2⟩
  | idle => rw [hpc] at h; exact fun x => hm x (h x)
  | checking => rw [hpc] at h; exact fun x => hm x (h x)

/-- **One step** keeps the flags right. -/
theorem Consistent.step (h : Consistent k) (hok : NoSelfStart k a)
    (hst : Step usingSoft k a k') : Consistent k' := by
  cases hst with
  | start hc hs =>
    rw [rtTimerStart_eq] at hs
    split at hs
    swap
    · simp at hs
    rw [Option.some.injEq] at hs
    subst hs
    exact h.callable (fun x hx => marked_start fun _ => hx)
      (fun x hx => linkedActive_start fun _ => hx) rfl rfl
  | stop hc => exact h.callable (fun x => marked_stop) (fun x => linkedActive_stop) rfl rfl
  | control hc =>
    exact h.callable (fun x => marked_control _) (fun x => linkedActive_control _) rfl rfl
  | tick hpc =>
    unfold Consistent at h
    rw [hpc] at h
    exact h
  | check hpc =>
    unfold Consistent at h
    rw [hpc] at h
    exact h
  | call hpc _ _ =>
    unfold Consistent at h
    rw [hpc] at h
    refine ⟨fun x hx => ?_, fun hl => ?_⟩
    · have := h x
      unfold Marked at this ⊢
      rw [remove_linked, remove_timer]
      tauto
    · rw [remove_linked] at hl
      exact absurd rfl hl.1
  | @ret t s hpc ha =>
    unfold Consistent at h ⊢
    rw [hpc] at h
    rw [returned_pc, returned_timers]
    exact (afterCallback_marked_iff h ha).2 (hok t hpc)
  | leave hpc _ =>
    unfold Consistent at h
    rw [hpc] at h
    exact h

/-- **The return of a callback** keeps the flags right only if the callback has not left its own
timer started in one-shot mode. -/
theorem ret_consistent_iff (h : Consistent k) (hst : Step usingSoft k .ret k') :
    Consistent k' ↔ NoSelfStart k .ret := by
  refine ⟨fun hc => ?_, fun hok => h.step hok hst⟩
  cases hst with
  | @ret t s hpc ha =>
    intro u hu
    rw [hpc, Pc.calling.injEq] at hu
    subst hu
    unfold Consistent at h hc
    rw [hpc] at h
    rw [returned_pc, returned_timers] at hc
    exact (afterCallback_marked_iff h ha).1 hc

omit [DecidableEq T] in
theorem Init.consistent (h : Init k) : Consistent k := by
  obtain ⟨h1, h2, h3, h4⟩ := h
  unfold Consistent
  rw [h4]
  intro t
  obtain ⟨time, p, so, ht⟩ := h1 t
  unfold Timers.Marked Timers.Linked
  rw [ht, h2, h3]
  simp [rtTimerInit]

/-- A stopped timer stays stopped until it is started. -/
theorem stopped_step {t : T} (h : k.timers.Stopped t) (hne : a ≠ .start t)
    (hst : Step usingSoft k a k') : k'.timers.Stopped t := by
  cases hst with
  | @start x s hc hs =>
    rw [rtTimerStart_eq] at hs
    split at hs
    swap
    · simp at hs
    rw [Option.some.injEq] at hs
    subst hs
    exact h.start fun hx => hne (by rw [hx])
  | stop hc => exact h.stop
  | control hc => exact h.control _
  | tick => exact h
  | check => exact h
  | call => exact ⟨fun hl => h.1 (by rw [remove_linked] at hl; exact hl.2), h.2⟩
  | ret hpc ha =>
    rw [returned_timers]
    exact h.afterCallback ha
  | leave => exact h

/-- One one-shot timer of 0 ticks, just initialised. -/
def single : Sys Unit where
  timers := ⟨fun _ => rtTimerInit 0 false false, [], [], 0⟩
  pc := .idle
  startTick := fun _ => 0
  turn := fun _ => 0
  starts := 0

/-- It has been started. -/
def singleStarted : Sys Unit := single.started () (single.timers.afterStart false ())

/-- Its function runs. -/
def singleCalling : Sys Unit :=
  { singleStarted with timers := singleStarted.timers.remove (), pc := .calling () }

/-- Its function has started it again. -/
def singleAgain : Sys Unit := singleCalling.started () (singleCalling.timers.afterStart false ())

theorem single_calling (ok : Sys Unit → Act Unit → Prop) (h1 : ok single (.start ()))
    (h2 : ok singleStarted .check) (h3 : ok { singleStarted with pc := .checking 0 } (.call ())) :
    Run.Reach Init (Step false) ok singleCalling := by
  have r0 : Run.Reach Init (Step false) ok single :=
    .init ⟨fun _ => ⟨0, false, false, rfl⟩, rfl, rfl, rfl⟩
  have r1 : Run.Reach Init (Step false) ok singleStarted :=
    .step r0 h1 (.start trivial (by rw [rtTimerStart_eq]; rfl))
  have r2 : Run.Reach Init (Step false) ok { singleStarted with pc := .checking 0 } :=
    .step r1 h2 (.check rfl)
  exact .step r2 h3 (.call (l := []) rfl rfl (by decide))

end RtThread.Timer
