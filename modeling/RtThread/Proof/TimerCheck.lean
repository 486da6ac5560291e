import RtThread.Proof.TimerLoop

/-!
# The tick interrupt returns

`rt_timer_control` changes the ticks of timers that wait in the list, so these say nothing about
when a timer expires; the timers stay spread over half of the range all the same.

* `Checked.step`: where the timers are, in runs whose callbacks call no timer function.
* `check_returns_iff`: the check returns exactly if the due timers that it starts again have some
  ticks, and less than half of the range.
* `check_endless`: a periodic timer of 0 ticks keeps it forever.
-/

namespace RtThread.Timer

open Timers

variable {T : Type*} {usingSoft : Bool} {k k' : Sys T}

/-- The invariant: between the checks no timer is late, in a check none by more than a tick; the
timer whose callback runs is in no list. -/
def Checked (usingSoft : Bool) (k : Sys T) : Prop :=
  match k.pc with
  | .idle => Spread usingSoft k.timers 0
  | .checking ct => ct = k.timers.tick ∧ Spread usingSoft k.timers (-1)
  | .calling t => ¬ k.timers.Linked t ∧ Spread usingSoft k.timers (-1)

theorem Spread.late {s : Timers T} (h : Spread usingSoft s 0) : Spread usingSoft s (-1) :=
  { h with bound := fun t ht => ⟨by have := h.bound t ht; omega, (h.bound t ht).2⟩ }

theorem Init.checked (h : Init k) : Checked usingSoft k := by
  obtain ⟨-, h2, -, h4⟩ := h
  unfold Checked
  rw [h4]
  refine ⟨?_, ?_, ?_, ?_⟩ <;> simp [h2]

variable [DecidableEq T]

/-- Marking a timer as stopped moves none. -/
theorem Spread.setActivated {s : Timers T} {lo : ℤ} (h : Spread usingSoft s lo) (t : T) (v : Bool) :
    Spread usingSoft (s.setActivated t v) lo := by
  refine h.sub (List.Sublist.refl _) rfl fun x _ => ?_
  by_cases hx : x = t
  · rw [hx, setActivated_same]
    exact ⟨rfl, rfl⟩
  · rw [setActivated_ne hx]
    exact ⟨rfl, rfl⟩

theorem Spread.remove {s : Timers T} {lo : ℤ} (h : Spread usingSoft s lo) (t : T) :
    Spread usingSoft (s.remove t) lo :=
  h.sub List.filter_sublist rfl fun _ _ => ⟨rfl, rfl⟩

theorem Spread.stop {s : Timers T} {lo : ℤ} (h : Spread usingSoft s lo) (t : T) :
    Spread usingSoft (s.rtTimerStop t).2 lo := by
  rw [rtTimerStop_ok]
  split
  · exact h
  · exact (h.remove t).setActivated t false

/-- `rt_timer_control` does not change when a timer that waits expires. -/
theorem Spread.control {s : Timers T} {lo : ℤ} (h : Spread usingSoft s lo) (t : T) (c : Ctrl) :
    Spread usingSoft (s.rtTimerControl t c).2 lo := by
  refine h.sub ?_ ?_ fun x _ => ?_
  · rw [(rtTimerControl_ok c).1]
  · cases c <;> rfl
  · by_cases hx : x = t <;> cases c <;> simp [rtTimerControl, Timers.modify, hx]

/-- **One step** keeps the timers spread. -/
theorem Checked.step {a : Act T} (h : Checked usingSoft k) (hq : QuietCallbacks k a)
    (hst : Step usingSoft k a k') : Checked usingSoft k' := by
  unfold Checked at h
  cases hst with
  | @start t s _ hs =>
    rw [show k.pc = .idle from hq] at h
    rw [rtTimerStart_eq] at hs
    split at hs
    swap
    · simp at hs
    rename_i hi
    rw [Option.some.injEq] at hs
    subst hs
    unfold Checked
    rw [show (k.started t _).pc = .idle from hq]
    exact h.start (by omega) le_rfl hi
  | stop _ =>
    rw [show k.pc = .idle from hq] at h
    unfold Checked
    rw [show k.pc = .idle from hq]
    exact h.stop _
  | control _ =>
    rw [show k.pc = .idle from hq] at h
    unfold Checked
    rw [show k.pc = .idle from hq]
    exact h.control _ _
  | tick hpc =>
    rw [hpc] at h
    exact ⟨rfl, h.tick.1⟩
  | check hpc =>
    rw [hpc] at h
    exact ⟨rfl, h.late⟩
  | call hpc _ _ =>
    rw [hpc] at h
    exact ⟨by rw [remove_linked]; exact fun hl => hl.1 rfl, h.2.remove _⟩
  | @ret t s hpc ha =>
    rw [hpc] at h
    unfold Checked
    rw [returned_pc, returned_timers]
    rw [afterCallback_eq] at ha
    split at ha
    · split at ha
      swap
      · simp at ha
      rename_i hi
      rw [Option.some.injEq] at ha
      subst ha
      have htick : ((k.timers.setActivated t false).afterStart usingSoft t).tick = k.timers.tick :=
        afterStart_tick.trans rfl
      refine ⟨htick.symm, (h.2.setActivated t false).start le_rfl (by omega) ?_⟩
      rwa [setActivated_same]
    · rw [Option.some.injEq] at ha
      subst ha
      exact ⟨rfl, h.2.setActivated t false⟩
  | @leave ct hpc hhead =>
    rw [hpc] at h
    obtain ⟨rfl, hw⟩ := h
    have hpos : ∀ t ∈ k.timers.hardList, 0 < k.timers.offset t := hw.later fun t ht => by
      have h1 := hw.due_iff (List.mem_of_mem_head? ht)
      rw [hhead t ht] at h1
      simpa using h1
    exact { hw with bound := fun t ht => ⟨(hpos t ht).le, (hw.bound t ht).2⟩ }

omit [DecidableEq T] in
/-- A callback that calls no timer function leaves its timer stopped. -/
theorem Checked.quiet {a : Act T} (h : Checked usingSoft k) : NoSelfStart k a := by
  cases a with
  | ret =>
    intro t hpc hl
    unfold Checked at h
    rw [hpc] at h
    exact absurd hl h.1
  | _ => trivial

theorem checked_consistent (h : Run.Reach Init (Step usingSoft) QuietCallbacks k) :
    Checked usingSoft k ∧ Consistent k := by
  refine Run.Reach.inv (I := fun k => Checked usingSoft k ∧ Consistent k) (fun k hk => ?_)
    (fun k a k' hi hq hst => ?_) h
  · exact ⟨hk.checked, hk.consistent⟩
  · exact ⟨hi.1.step hq hst, hi.2.step hi.1.quiet hst⟩

/-- **`rt_timer_check` returns**, having called each due timer once, exactly if the due periodic
timers have at least 1 tick and less than half of the range: in every run whose callbacks call no
timer function. -/
theorem check_returns_iff (h : Run.Reach Init (Step usingSoft) QuietCallbacks k) {ct : Tick}
    (hpc : k.pc = .checking ct) :
    CheckReturns usingSoft k ct ↔
      ∀ t ∈ k.timers.hardList, k.timers.due ct t = true → (k.timers.timer t).periodic = true →
        (k.timers.timer t).initTick ≠ 0 ∧ (k.timers.timer t).initTick < rtTickMax / 2 := by
  obtain ⟨hc, hflags⟩ := checked_consistent h
  unfold Checked at hc
  rw [hpc] at hc
  obtain ⟨rfl, hw⟩ := hc
  constructor
  · rintro ⟨fired, k', hloop, -, -⟩ t ht hdue hper
    refine (hloop.fires hw hpc).2.2 t ht ((hw.due_iff ht).1 hdue) ?_
    -- a timer of the list is activated
    unfold Consistent at hflags
    rw [hpc] at hflags
    unfold Timers.restarts
    rw [hper, (hflags t).2 (.inl ht)]
    rfl
  · intro hall
    obtain ⟨fired, k', hloop⟩ := Spread.returns _ k le_rfl hw hpc fun t ht hle hr => by
      unfold Timers.restarts at hr
      rw [Bool.and_eq_true] at hr
      exact hall t ht ((hw.due_iff ht).2 hle) hr.1
    obtain ⟨hnodup, hmem, -⟩ := hloop.fires hw hpc
    refine ⟨fired, k', hloop, hnodup, fun t => ?_⟩
    rw [hmem]
    exact and_congr_right fun ht => (hw.due_iff ht).symm

/-! ## A periodic timer -/

/-- One periodic timer, just initialised. -/
def ticker (time : Tick) : Sys Unit where
  timers := ⟨fun _ => rtTimerInit time true false, [], [], 0⟩
  pc := .idle
  startTick := fun _ => 0
  turn := fun _ => 0
  starts := 0

/-- It has been started, and the next tick's check begins. -/
def tickerChecking (time : Tick) : Sys Unit :=
  let k := (ticker time).started () ((ticker time).timers.afterStart false ())
  { k with timers := { k.timers with tick := k.timers.tick + 1 }, pc := .checking (k.timers.tick + 1) }

theorem ticker_checking {time : Tick} (ht : time < rtTickMax / 2) :
    Run.Reach Init (Step false) QuietCallbacks (tickerChecking time) := by
  have r0 : Run.Reach Init (Step false) QuietCallbacks (ticker time) :=
    .init ⟨fun _ => ⟨time, true, false, rfl⟩, rfl, rfl, rfl⟩
  have r1 : Run.Reach Init (Step false) QuietCallbacks
      ((ticker time).started () ((ticker time).timers.afterStart false ())) :=
    .step r0 (show QuietCallbacks (ticker time) (.start ()) from rfl)
      (.start trivial (by rw [rtTimerStart_eq]; exact if_pos ht))
  exact .step r1 (show QuietCallbacks _ .tick from trivial) (.tick rfl)

/-- With 1 tick its check returns. -/
theorem check_returns_one : CheckReturns false (tickerChecking 1) 1 :=
  (check_returns_iff (ticker_checking (by decide)) rfl).2 fun () _ _ _ => by decide

/-- **With 0 ticks the check does not return**: the timer is due again as soon as it is started. -/
theorem check_endless : ¬ ∀ k : Sys Unit, Run.Reach Init (Step false) QuietCallbacks k →
    ∀ ct, k.pc = .checking ct → CheckReturns false k ct := by
  intro hall
  have hr : Run.Reach Init (Step false) QuietCallbacks (tickerChecking 0) :=
    ticker_checking (by decide)
  obtain ⟨fired, k', hloop, -, -⟩ := hall _ hr 1 rfl
  have hc := (checked_consistent hr).1
  have := (hloop.fires hc.2 rfl).2.2 () (by decide) (by decide) (by decide)
  exact this.1 rfl

end RtThread.Timer
