import RtThread.Proof.Mutex

/-!
# The choice of the scheduler

The running thread is the most urgent one whenever it is in its own code, with the scheduler
unlocked: a call that wakes a thread ends in `rt_schedule`, and so does every interrupt that wakes
one. `rt_mutex_release` is the exception: it gives a running thread back its own priority, and
calls `rt_schedule` only if it has woken a waiter.

* `KeepsUrgent`: the condition, on the two steps that make the running thread less urgent unnoticed.
* `Preemptive`, `preemptive_step`: `rt_schedule` is due, or nobody ready is more urgent.
* `scheduler_choice`: the result, and `scheduler_choice_restored`: it fails without the condition.
-/

namespace RtThread.Ipc

open Sched Kernel

variable {T O : Type} [DecidableEq T] [DecidableEq O] {cfg : Config} {s s' : Kernel T O} {c t u : T}
  {r : Kernel T O × Next O} {idle : T} {o : O} {a : Act T O}

/-- Nobody is ready at a priority more urgent than `p`. -/
def Foremost (s : Kernel T O) (p : ℕ) : Prop := ∀ n < p, s.sched.list (.priority n) = []

/-- A thread that releases a mutex nobody waits for is still the most urgent one at the priority it
gets back, and `rt_enter_critical` does not wrap the lock nesting around before a more urgent thread
has been let in. -/
def KeepsUrgent (s : Kernel T O) : Act T O → Prop
  | .call (.mutexRelease o) => s.sched.lockNest = 0#16 → (s.mutex o).owner = s.sched.current →
    (s.mutex o).hold - 1 = 0#8 → s.waiting (.mutex o) = [] → Foremost s (s.mutex o).originalPriority
  | .call .enterCritical => s.sched.lockNest + 1 = 0#16 →
    ∀ c ∈ s.sched.current, Foremost s (s.sched.priority c)
  | _ => True

instance {p : ℕ} : Decidable (Foremost s p) := by
  unfold Foremost
  infer_instance

def keepsUrgent (s : Kernel T O) : Act T O → Bool
  | .call (.mutexRelease o) => s.sched.lockNest = 0#16 → (s.mutex o).owner = s.sched.current →
    (s.mutex o).hold - 1 = 0#8 → s.waiting (.mutex o) = [] → Foremost s (s.mutex o).originalPriority
  | .call .enterCritical => s.sched.lockNest + 1 = 0#16 →
    ∀ c ∈ s.sched.current, Foremost s (s.sched.priority c)
  | _ => true

omit [DecidableEq O] in
theorem keepsUrgent_iff : keepsUrgent s a = true ↔ KeepsUrgent s a := by
  unfold keepsUrgent KeepsUrgent
  split
  · exact decide_eq_true_iff
  · exact decide_eq_true_iff
  · exact iff_of_true rfl trivial

instance : Decidable (KeepsUrgent s a) := decidable_of_iff _ keepsUrgent_iff

omit [DecidableEq T] [DecidableEq O] in
theorem Foremost.le {p : ℕ} (h : Foremost s p) (hi : s.sched.Inv cfg) (hu : s.sched.stat u = .ready) :
    p ≤ s.sched.priority u := by
  by_contra hlt
  have hmem := hi.mem_of_ready u hu nofun
  rw [h _ (not_le.1 hlt)] at hmem
  cases hmem

/-- `rt_schedule` is due. -/
def Due (s : Kernel T O) (c : T) : Prop := (∃ k, s.pc c = .schedule k) ∨ ∃ k, .schedule k ∈ s.handlers

/-- The current thread is the most urgent one, or `rt_schedule` is due. -/
structure Preemptive (s : Kernel T O) : Prop where
  started : ∀ c, s.sched.current = some c → s.sched.stat c ≠ .init
  least : ∀ c, s.sched.current = some c → s.sched.lockNest = 0#16 →
    Due s c ∨ ∀ u, s.sched.stat u = .ready → s.sched.priority c ≤ s.sched.priority u

namespace Preemptive

omit [DecidableEq T] [DecidableEq O] in
theorem of_init (h : s.Init cfg) : Preemptive s := by
  obtain ⟨th, -, hs⟩ := h.sched
  have hc : s.sched.current = none := by
    rw [hs]
    rfl
  refine ⟨fun c h => ?_, fun c h => ?_⟩
  · rw [hc] at h
    cases h
  · rw [hc] at h
    cases h

omit [DecidableEq T] [DecidableEq O] in
/-- `rt_schedule` has run. -/
theorem of_rescheduled {x : Scheduler T (WaitList O)}
    (hst : ∀ c, x.current = some c → x.stat c ≠ .init) (hre : x.Rescheduled s'.sched) : Preemptive s' := by
  refine ⟨fun c hc => ?_, fun c hc hn => .inr (hre.least (hre.lockNest.symm.trans hn) c hc)⟩
  rcases hre.current with hsame | ⟨u, hu, -, hrun⟩
  · rcases hre.stat c with h | ⟨-, h⟩ | ⟨-, h⟩
    · rw [h]
      exact hst c (hsame.symm.trans hc)
    · rw [h]
      nofun
    · rw [h]
      nofun
  · rw [hc] at hu
    cases hu
    rw [hrun]
    nofun

omit [DecidableEq T] [DecidableEq O] in
/-- `rt_schedule` is due now. -/
theorem of_due (h : Preemptive s) (hcur : s'.sched.current = s.sched.current)
    (hinit : ∀ u, s'.sched.stat u = .init → s.sched.stat u = .init)
    (hdue : ∀ c, s.sched.current = some c → Due s' c) : Preemptive s' :=
  ⟨fun c hc hi => h.started c (hcur.symm.trans hc) (hinit c hi),
    fun c hc _ => .inl (hdue c (hcur.symm.trans hc))⟩

omit [DecidableEq T] [DecidableEq O] in
/-- Nobody has been woken. -/
theorem of_calm (h : Preemptive s) (hcur : s'.sched.current = s.sched.current)
    (hst : ∀ u, s'.sched.stat u = s.sched.stat u) (hdue : ∀ c, Due s c → Due s' c)
    (hln : s'.sched.lockNest = 0#16 → s.sched.lockNest = 0#16)
    (hp : ∀ u, s.sched.stat u ≠ .init → s'.sched.priority u = s.sched.priority u) : Preemptive s' := by
  refine ⟨fun c hc => ?_, fun c hc hn => ?_⟩
  · rw [hst]
    exact h.started c (hcur.symm.trans hc)
  · have hc' := hcur.symm.trans hc
    refine (h.least c hc' (hln hn)).imp (hdue c) fun hle u hu => ?_
    rw [hst] at hu
    rw [hp c (h.started c hc'), hp u (by rw [hu]; nofun)]
    exact hle u hu

end Preemptive

/-- A call that ends without `rt_schedule` keeps all priorities, unless it gives up a mutex nobody waits
for. -/
theorem call_priority {a : Call T O} (hi : s.sched.Inv cfg) (hc : s.sched.current = some c)
    (h : s.call cfg c a = some r) (hn : ∀ k, r.2 ≠ .schedule k) (hu : s.sched.stat u ≠ .init) :
    r.1.sched.priority u = s.sched.priority u ∨ ∃ o, a = .mutexRelease o ∧ (s.mutex o).owner = some c ∧
      (s.mutex o).hold - 1 = 0#8 ∧ s.waiting (.mutex o) = [] ∧
      Reprioritized s.sched r.1.sched c (s.mutex o).originalPriority := by
  have hd := call_called hi hc h
  rcases hd.frame.priority u with hp | ⟨hinit, -⟩ | ⟨o, ho⟩
  · exact .inl hp
  · exact absurd hinit hu
  -- only a mutex call is left
  cases a with
  | mutexTake o' time =>
    refine .inl ?_
    cases rtMutexTake_cases hi hc h with
    | again how => exact setError_priority _
    | own how hv => exact setError_priority _
    | busy how => exact (setError_priority _).trans (setError_priority _)
    | wait => exact absurd rfl (hn _)
  | mutexRelease o' =>
    cases rtMutexRelease_cases hi h with
    | refuse how => exact .inl (setError_priority _)
    | less how hh => exact .inl rfl
    | free how hh hw hre => exact .inr ⟨o', rfl, how, hh, hw, hre⟩
    | hand => exact absurd rfl (hn _)
  | _ => simp [Call.lists] at ho

/-- A call that goes on and ends without `rt_schedule` keeps all priorities. -/
theorem resume_priority {k : Cont O} {elapsed : Time} (hi : s.sched.Inv cfg) (hc : s.sched.current = some c)
    (h : s.resume cfg c elapsed k = some r) (hn : ∀ k, r.2 ≠ .schedule k) (hu : s.sched.stat u ≠ .init) :
    r.1.sched.priority u = s.sched.priority u := by
  have hf := (resume_section hi hc h).framed
  rcases hf.frame.priority u with hp | ⟨hinit, -⟩ | ⟨o, ho⟩
  · exact hp
  · exact absurd hinit hu
  cases k with
  | mutexTake o' time =>
    have hcase : ResumedCase s c o' time _ := mutexTakeResumed_cases
    rw [show s.mutexTakeResumed c o' time = r from Option.some.inj h] at hcase
    cases hcase with
    | busy he hv ht => exact setError_priority _
    | _ => rfl
  | mutexOwn o' =>
    cases h
    rfl
  | mutexWait o' time => exact absurd (mutexWait_ok hi hc h).1 (hn _)
  | _ => simp [Cont.lists] at ho

omit [DecidableEq T] [DecidableEq O] in
theorem Frame.priority_of_started {own : Prop} {W : List (WaitList O)} (h : Frame cfg s s' c own W)
    (hW : ∀ o, .mutex o ∉ W) (hu : s.sched.stat u ≠ .init) : s'.sched.priority u = s.sched.priority u := by
  rcases h.priority u with hp | ⟨hinit, -⟩ | ⟨o, ho⟩
  · exact hp
  · exact absurd hinit hu
  · exact absurd ho (hW o)

omit [DecidableEq O] in
/-- A section of the current thread. -/
theorem Preemptive.after (h : Preemptive s) (hc : s.sched.current = some c) (hh : s.handlers = [])
    (hpc : ∀ k, s.pc c ≠ .schedule k) {own : Prop} {W : List (WaitList O)} (hf : Frame cfg s r.1 c own W)
    (hcalm : (∀ k, r.2 ≠ .schedule k) → ∀ u, r.1.sched.stat u = s.sched.stat u)
    (hle : (∀ k, r.2 ≠ .schedule k) → r.1.sched.lockNest = 0#16 →
      (s.sched.lockNest = 0#16 → ∀ u, s.sched.stat u = .ready → s.sched.priority c ≤ s.sched.priority u) →
      ∀ u, s.sched.stat u = .ready → r.1.sched.priority c ≤ r.1.sched.priority u) :
    Preemptive (after c r) := by
  have hcur : (Ipc.Kernel.after c r).sched.current = s.sched.current := hf.current
  by_cases hk : ∃ k, r.2 = .schedule k
  · obtain ⟨k, hk⟩ := hk
    refine h.of_due hcur (fun u => hf.init_of_init) fun d hd => .inl ⟨k, ?_⟩
    rw [hc] at hd
    cases hd
    show (r.1.setPc c r.2.pc).pc c = _
    rw [setPc_pc_self, hk]
    rfl
  have hk : ∀ k, r.2 ≠ .schedule k := fun k e => hk ⟨k, e⟩
  refine ⟨fun d hd hi => h.started d (hcur.symm.trans hd) (hf.init_of_init hi), fun d hd hn => .inr ?_⟩
  have hd' := hcur.symm.trans hd
  rw [hc] at hd'
  cases hd'
  intro u hu
  refine hle hk hn (fun hn₀ => (h.least c hc hn₀).resolve_left ?_) u ((hcalm hk u).symm.trans hu)
  rintro (⟨k, hk⟩ | ⟨k, hk⟩)
  · exact hpc k hk
  · rw [hh] at hk
    cases hk

/-- A call, up to the section's end. -/
theorem call_least {a : Call T O} (hi : s.sched.Inv cfg) (hc : s.sched.current = some c)
    (hst : s.sched.stat c ≠ .init) (hok : KeepsUrgent s (.call a)) (h : s.call cfg c a = some r)
    (hn : ∀ k, r.2 ≠ .schedule k) (hln : r.1.sched.lockNest = 0#16)
    (hle : s.sched.lockNest = 0#16 → ∀ u, s.sched.stat u = .ready → s.sched.priority c ≤ s.sched.priority u)
    (hu : s.sched.stat u = .ready) : r.1.sched.priority c ≤ r.1.sched.priority u := by
  have hu' : s.sched.stat u ≠ .init := by rw [hu]; nofun
  have huc : u ≠ c := by
    rintro rfl
    exact hi.current u hc hu
  have hlock := (call_called hi hc h).lock
  rcases call_priority hi hc h hn hst with hpc | ⟨o, rfl, how, hh, hw, hre⟩
  · have hpu : r.1.sched.priority u = s.sched.priority u := by
      rcases call_priority hi hc h hn hu' with hp | ⟨o, -, -, -, -, hre⟩
      · exact hp
      · exact hre.other u huc
    rw [hpc, hpu]
    rcases hlock with hl | ⟨rfl, hl⟩ | ⟨-, ⟨-, k, hk⟩ | ⟨-, hpos⟩⟩
    · exact hle (hl.symm.trans hln) u hu
    -- the nesting has wrapped around
    · exact Foremost.le (hok (hl.symm.trans hln) c hc) hi hu
    · exact absurd hk (hn k)
    · rw [hln] at hpos
      exact absurd hpos (by decide)
  · rw [hre.self, hre.other u huc]
    rcases hlock with hl | ⟨hl, -⟩ | ⟨hl, -⟩
    · exact Foremost.le (hok (hl.symm.trans hln) (how.trans hc.symm) hh hw) hi hu
    · cases hl
    · cases hl

omit [DecidableEq T] [DecidableEq O] in
theorem due_handled (h : Due s c) (hpc : r.1.pc = s.pc)
    (hh : ∀ k, Next.schedule k ∈ s.handlers → Next.schedule k ∈ r.1.handlers) : Due (handled r) c := by
  unfold handled
  rcases h with ⟨k, hk⟩ | ⟨k, hk⟩
  · refine .inl ⟨k, ?_⟩
    split
    · rw [hpc, hk]
    · show r.1.pc c = _
      rw [hpc, hk]
  · refine .inr ⟨k, ?_⟩
    split
    · exact hh k hk
    · exact List.mem_cons_of_mem _ (hh k hk)

omit [DecidableEq T] [DecidableEq O] in
/-- A section of an interrupt handler. -/
theorem Preemptive.handled (h : Preemptive s) {W : List (WaitList O)} (hW : ∀ o, .mutex o ∉ W)
    (hf : Framed cfg s c False W r) (hpc : r.1.pc = s.pc)
    (hh : ∀ k, Next.schedule k ∈ s.handlers → Next.schedule k ∈ r.1.handlers) :
    Preemptive (handled r) := by
  obtain ⟨l, hl⟩ := handled_eq r
  by_cases hk : ∃ k, r.2 = .schedule k
  · obtain ⟨k, hk⟩ := hk
    have hmem : Next.schedule k ∈ (Kernel.handled r).handlers := by
      unfold Kernel.handled
      rw [hk]
      exact List.mem_cons_self
    rw [hl] at hmem ⊢
    exact h.of_due hf.frame.current (fun u => hf.frame.init_of_init) fun _ _ => .inr ⟨k, hmem⟩
  · have hcalm := hf.calm fun k e => hk ⟨k, e⟩
    have hdue : ∀ d, Due s d → Due (Kernel.handled r) d := fun d hd => due_handled hd hpc hh
    rw [hl] at hdue ⊢
    exact h.of_calm hf.frame.current hcalm hdue (fun hn => hf.lockNest.symm.trans hn)
      fun u hu => hf.frame.priority_of_started hW hu

/-- **A step keeps `rt_schedule` due, or the running thread the most urgent one.** -/
theorem preemptive_step (hS : Sound cfg idle s) (hok : KeepsUrgent s a) (hs : s.step cfg idle a = some s')
    (h : Preemptive s) : Preemptive s' := by
  cases step_cases hS.inv hS.user hs with
  | boot hc hx =>
    have ht : Touch cfg s.sched _ idle False [] := .makeReady hS.inv hx
    have hnone := ht.current.trans hc
    refine ⟨fun c hc' => ?_, fun c hc' => ?_⟩
    · rw [hnone] at hc'
      cases hc'
    · rw [hnone] at hc'
      cases hc'
  | start hc hidle hx =>
    refine .of_rescheduled (fun c hc' => ?_) (start_rescheduled hS.inv hc hx)
    rw [hc] at hc'
    cases hc'
  | @call a c e out r hc hh hidle hpc hr hcd =>
    refine h.after hc hh (by rw [hpc]; nofun) hcd.frame hcd.calm fun hn hln hle u hu => ?_
    exact call_least hS.inv hc (h.started c hc) hok hr hn hln hle hu
  | schedule hc hh hpc hix hre => exact .of_rescheduled h.started hre
  | @switched c k s₁ hc hh hpc hd =>
    refine h.of_calm hd.frame.current hd.stat (fun d hdue => ?_) (fun hn => hd.lockNest.symm.trans hn)
      fun u hu => hd.frame.priority_of_started (by simp) hu
    rcases hdue with ⟨k', hk'⟩ | ⟨k', hk'⟩
    · refine .inl ⟨k', ?_⟩
      have hdc : d ≠ c := by
        rintro rfl
        rw [hpc] at hk'
        cases hk'
      rw [setPc_pc_ne _ hdc, hd.frame.pc, hk']
    · rw [hh] at hk'
      cases hk'
  | signalEntry hc hh hd =>
    refine h.of_calm hd.frame.current hd.stat (fun d hdue => ?_) (fun hn => hd.lockNest.symm.trans hn)
      fun u hu => hd.frame.priority_of_started (by simp) hu
    unfold Due
    rw [hd.frame.pc, hd.frame.off.handlers]
    exact hdue
  | @cont c k elapsed r hc hh hidle hpc hr hf =>
    refine h.after hc hh (by rw [hpc]; nofun) hf.frame hf.calm fun hn hln hle u hu => ?_
    rw [resume_priority hS.inv hc hr hn (h.started c hc),
      resume_priority hS.inv hc hr hn (by rw [hu]; nofun)]
    exact hle (hf.lockNest.symm.trans hln) u hu
  | timeout hc hst hf hother hsig hln hix hre =>
    refine .of_rescheduled (fun c hc' hi => ?_) hre
    exact h.started c (hf.current.symm.trans hc') (hf.init_of_init hi)
  | isr hc ht hr hf =>
    refine h.handled (fun o => Isr.not_mem_lists _) hf hf.frame.pc fun k hk => ?_
    rw [hf.frame.off.handlers]
    exact hk
  | isrSchedule hh hix hre => exact .of_rescheduled h.started hre
  | @isrCont handlers k r hh hr hf =>
    -- the handler that goes on was not about to call `rt_schedule`
    have h₀ : Preemptive { s with handlers } := by
      refine h.of_calm rfl (fun _ => rfl) (fun d hdue => ?_) id fun _ _ => rfl
      refine hdue.imp_right fun ⟨k', hk'⟩ => ⟨k', ?_⟩
      rw [hh] at hk'
      exact (List.mem_cons.1 hk').resolve_left nofun
    have hfr := (hf idle).framed
    refine h₀.handled (fun o => isrResume_not_mem hr) hfr hfr.frame.pc fun k' hk' => ?_
    rw [hfr.frame.off.handlers]
    exact hk'

/-- **The running thread is the most urgent one** whenever it is in its own code with the scheduler
unlocked and interrupts on. -/
theorem scheduler_choice (h : Runs cfg idle KeepsUrgent s) :
    ∀ c e out, s.sched.current = some c → s.handlers = [] → s.pc c = .user e out →
      s.sched.lockNest = 0#16 → ∀ n, ∀ u ∈ s.sched.list (.priority n),
        s.sched.priority c ≤ s.sched.priority u := by
  intro c e out hc hh hpc hln n u hu
  have hinv : Sound cfg idle s ∧ Preemptive s :=
    h.inv (I := fun s => Sound cfg idle s ∧ Preemptive s) (fun _ hs => ⟨.of_init hs, .of_init hs⟩)
      fun s a s' hI (hok : KeepsUrgent s a) hs => ⟨sound_step hI.1 hs, preemptive_step hI.1 hok hs hI.2⟩
  rcases hinv.2.least c hc hln with (⟨k, hk⟩ | ⟨k, hk⟩) | hle
  · rw [hpc] at hk
    cases hk
  · rw [hh] at hk
    cases hk
  · exact hle u (hinv.1.inv.ready_of_mem u n hu).1

/-- A thread that was raised by a waiter releases the mutex to it. -/
theorem scheduler_choice_released : ∃ s : Kernel ℕ Unit,
    (s.sched.current = some 10 ∧ s.sched.list (.priority 20) = [20]) ∧
    ∀ c e out, s.sched.current = some c → s.handlers = [] → s.pc c = .user e out →
      s.sched.lockNest = 0#16 → ∀ n, ∀ u ∈ s.sched.list (.priority n),
        s.sched.priority c ≤ s.sched.priority u := by
  obtain ⟨s, hs, h⟩ := Run.Reach.exec_ok (fun s a => s.step board 255 a) KeepsUrgent
    (Kernel.onBoard_init Unit)
    [.boot 255, .boot 20, .start, .call (.mutexTake () (-1)), .call (.startup 10), .schedule,
      .call (.mutexTake () 5), .schedule, .switched, .call (.mutexRelease ()), .schedule, .switched,
      .cont 0]
    (fun s => decide (s.sched.current = some 10 ∧ s.sched.list (.priority 20) = [20]))
    (by decide +kernel)
  exact ⟨s, of_decide_eq_true h, scheduler_choice hs⟩

/-- **A thread that gets its own priority back runs on** while a more urgent one is ready. Thread 20 was
raised to 10 by a waiter that has given up; thread 15 became ready in between. -/
theorem scheduler_choice_restored : ∃ s : Kernel ℕ Unit, Runs board 255 Run.Any s ∧
    s.sched.current = some 20 ∧ s.handlers = [] ∧ (∃ e out, s.pc 20 = .user e out) ∧
    s.sched.lockNest = 0#16 ∧ 15 ∈ s.sched.list (.priority 15) ∧
    ¬ s.sched.priority 20 ≤ s.sched.priority 15 := by
  obtain ⟨s, hs, h⟩ := Run.Reach.exec_ok (fun s a => s.step board 255 a) Run.Any
    (Kernel.onBoard_init Unit)
    [.boot 255, .boot 20, .start, .call (.mutexTake () (-1)), .call (.startup 10), .schedule,
      .call (.mutexTake () 5), .schedule, .switched, .isr (.timeout 10), .switched, .cont 0,
      .call .suspend, .schedule, .call (.startup 15), .schedule, .call (.mutexRelease ())]
    (fun s => decide (s.sched.current = some 20) && s.handlers.isEmpty &&
      decide (s.pc 20 = .user .eok .none) &&
      decide (s.sched.lockNest = 0#16 ∧ 15 ∈ s.sched.list (.priority 15) ∧
        ¬ s.sched.priority 20 ≤ s.sched.priority 15))
    (by decide +kernel)
  simp only [Bool.and_eq_true, decide_eq_true_eq, List.isEmpty_iff] at h
  obtain ⟨⟨⟨hc, hh⟩, hpc⟩, h⟩ := h
  exact ⟨s, hs, hc, hh, ⟨_, _, hpc⟩, h⟩

end RtThread.Ipc
