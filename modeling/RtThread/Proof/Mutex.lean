import RtThread.Proof.Waiting

/-!
# Mutexes

What `rt_mutex_take` and `rt_mutex_release` do, section by section.

* `Reprioritized`: a thread gets another priority, and nothing else happens.
* `Boosted`, `HandedOver`: a thread waits for the owner, and a mutex goes from its owner to a waiter.
* `TakeCase`, `ResumedCase`, `ReleaseCase`: the sections of the two calls.
* `MutexStep`, `mutexStep_of_mem`: the steps on a mutex.
* `Elsewhere`, `elsewhere_step`: what the steps on no mutex leave alone.
* `Stays`, `waiter_step`, `waits_of_step`: a thread in a call on a list, and steps that are not on it.
-/

namespace RtThread.Ipc

open Sched Kernel

variable {T O : Type} [DecidableEq T] [DecidableEq O] {cfg : Config} {s s' : Kernel T O} {c t u w : T}
  {r : Kernel T O × Next O} {idle : T} {o : O} {a : Act T O} {time : Time}

namespace Kernel

omit [DecidableEq O] in
@[simp] theorem setError_priority (e : Err) : (s.setError t e).sched.priority u = s.sched.priority u :=
  Scheduler.update_field (f := fun th => { th with error := e }) (fun _ => rfl) u

omit [DecidableEq O] in
@[simp] theorem setError_stat (e : Err) : (s.setError t e).sched.stat u = s.sched.stat u :=
  Scheduler.update_stat (f := fun th => { th with error := e }) (fun _ => rfl) u

omit [DecidableEq O] in
theorem setError_thread_ne (e : Err) (hu : u ≠ t) : (s.setError t e).thread u = s.thread u :=
  Scheduler.update_thread_ne (s := s.sched) hu fun th => { th with error := e }

omit [DecidableEq O] in
@[simp] theorem setError_initPriority (e : Err) :
    ((s.setError t e).thread u).initPriority = (s.thread u).initPriority :=
  Scheduler.update_field (f := fun th => { th with error := e }) (fun _ => rfl) u

omit [DecidableEq O] in
@[simp] theorem setPc_pc_self (p : Pc O) : (s.setPc t p).pc t = p := Function.update_self _ _ _

omit [DecidableEq O] in
theorem setPc_pc_ne (p : Pc O) (hu : u ≠ t) : (s.setPc t p).pc u = s.pc u := Function.update_of_ne hu _ _

end Kernel

/-! ## Sections -/

/-- The priority of `t` is now `p`. -/
structure Reprioritized (x x' : Scheduler T (WaitList O)) (t : T) (p : ℕ) : Prop where
  self : x'.priority t = p
  other : ∀ u, u ≠ t → x'.priority u = x.priority u
  initPriority : ∀ u, (x'.thread u).initPriority = (x.thread u).initPriority
  stat : ∀ u, x'.stat u = x.stat u
  error : ∀ u, (x'.thread u).error = (x.thread u).error
  wait : ∀ q, x'.list (.wait q) = x.list (.wait q)
  current : x'.current = x.current

theorem changePriority_ok {x x' : Scheduler T (WaitList O)} {p : ℕ} (hi : x.Inv cfg)
    (h : x.rtThreadChangePriority cfg t p = some x') : x'.Inv cfg ∧ Reprioritized x x' t p := by
  obtain ⟨hi', hother, hprio, hst, ⟨th, hself⟩, hwait, hcur, -⟩ := Scheduler.rtThreadChangePriority_ok hi h
  have hfield : ∀ {α : Type} (g : Thread → α), (g (x'.thread t) = g (x.thread t)) →
      ∀ u, g (x'.thread u) = g (x.thread u) := by
    intro α g hg u
    by_cases hu : u = t
    · rw [hu, hg]
    · rw [hother u hu]
  refine ⟨hi', hprio, fun u hu => congrArg Thread.currentPriority (hother u hu), hfield _ ?_,
    hfield Thread.stat hst, hfield _ ?_, hwait, hcur⟩
  · rw [hself]
  · rw [hself]

omit [DecidableEq T] [DecidableEq O] in
theorem Reprioritized.refl (x : Scheduler T (WaitList O)) (t : T) : Reprioritized x x t (x.priority t) :=
  ⟨rfl, fun _ _ => rfl, fun _ => rfl, fun _ => rfl, fun _ => rfl, fun _ => rfl, rfl⟩

/-- The thread `c` waits for mutex `o`, and its owner `w` is at least as urgent. -/
structure Boosted (s s' : Kernel T O) (c w : T) (o : O) : Prop where
  mutex : s'.mutex = s.mutex
  pc : s'.pc = s.pc
  self : s'.sched.priority w = min (s.sched.priority w) (s.sched.priority c)
  other : ∀ u, u ≠ w → s'.sched.priority u = s.sched.priority u
  initPriority : ∀ u, (s'.thread u).initPriority = (s.thread u).initPriority
  stat : ∀ u, u ≠ c → s'.sched.stat u = s.sched.stat u
  suspended : s'.sched.stat c = .suspend
  error : ∀ u, (s'.thread u).error = (s.thread u).error
  waiting : ∃ l, l.Perm (c :: s.waiting (.mutex o)) ∧
    s'.waiting = Function.update s.waiting (.mutex o) l

theorem mutexWait_ok (hi : s.sched.Inv cfg) (hc : s.sched.current = some c)
    (h : s.mutexWait cfg c o time = some r) :
    r.2 = .schedule (.mutexTake o time) ∧ ∃ w, (s.mutex o).owner = some w ∧ Boosted s r.1 c w o := by
  unfold mutexWait at h
  simp only [Option.bind_eq_bind, Option.bind_eq_some_iff] at h
  obtain ⟨w, hw, x, hx, h⟩ := h
  have hx : x.Inv cfg ∧ Reprioritized s.sched x w (min (s.sched.priority w) (s.sched.priority c)) := by
    split at hx
    · rename_i hlt
      rw [min_eq_right hlt.le]
      exact changePriority_ok hi hx
    · rename_i hge
      cases hx
      rw [min_eq_left (not_lt.1 hge)]
      exact ⟨hi, .refl _ _⟩
  obtain ⟨hix, hre⟩ := hx
  obtain ⟨hn, hr, -, -, hself, hother, hl, -, -⟩ :=
    suspendOn_ok (s := { s with sched := x }) hix (hre.current.trans hc) h
  have hfield : ∀ {α : Type} (g : Thread → α) (v : Bool),
      (∀ th : Thread, g { th with stat := .suspend, timerActive := v } = g th) →
      (r.1.thread c = { x.thread c with stat := .suspend, timerActive := v }) →
      ∀ u, g (r.1.thread u) = g (x.thread u) := by
    intro α g v hg hv u
    by_cases hu : u = c
    · rw [hu, hv, hg]
    · rw [hother u hu]
      rfl
  have hprio : ∀ u, r.1.sched.priority u = x.priority u :=
    hfield Thread.currentPriority _ (fun _ => rfl) hself
  have hwait : ({ s with sched := x } : Kernel T O).waiting = s.waiting := funext hre.wait
  rw [hwait] at hl
  refine ⟨hn, w, hw, ?_, ?_, ?_, fun u hu => ?_, fun u => ?_, fun u hu => ?_, ?_, fun u => ?_, hl⟩
  · rw [hr]
  · rw [hr]
  · rw [hprio, hre.self]
  · rw [hprio, hre.other u hu]
  · exact (hfield _ _ (fun _ => rfl) hself u).trans (hre.initPriority u)
  · exact (congrArg Thread.stat (hother u hu)).trans (hre.stat u)
  · exact congrArg Thread.stat hself
  · exact (hfield _ _ (fun _ => rfl) hself u).trans (hre.error u)

/-- The mutex `o` goes from its owner `c` to `t`, ahead of the waiters `l`. -/
structure HandedOver (s s' : Kernel T O) (c t : T) (l : List T) (o : O) : Prop where
  mutex : s'.mutex = Function.update s.mutex o { s.mutex o with
    owner := some t, originalPriority := s'.sched.priority t, hold := 1#8 }
  pc : s'.pc = s.pc
  self : s'.sched.priority c = (s.mutex o).originalPriority
  other : ∀ u, u ≠ c → s'.sched.priority u = s.sched.priority u
  initPriority : ∀ u, (s'.thread u).initPriority = (s.thread u).initPriority
  stat : ∀ u, u ≠ t → s'.sched.stat u = s.sched.stat u
  woken : s'.sched.stat t ≠ .suspend
  error : ∀ u, (s'.thread u).error = (s.thread u).error
  waiting : s'.waiting = Function.update s.waiting (.mutex o) l

/-- The first section of `rt_mutex_take`. -/
inductive TakeCase (s : Kernel T O) (c : T) (o : O) (time : Time) : Kernel T O × Next O → Prop
  | again : (s.mutex o).owner = some c → TakeCase s c o time
    ((s.setError c .eok).setMutex o { s.mutex o with hold := (s.mutex o).hold + 1 }, .ret .eok .none)
  | own : (s.mutex o).owner ≠ some c → (s.mutex o).value ≠ 0#16 → TakeCase s c o time
    ((s.setError c .eok).mutexOwn c o, .ret .eok .none)
  | busy : (s.mutex o).owner ≠ some c → TakeCase s c o time
    ((s.setError c .eok).setError c .etimeout, .ret .etimeout .none)
  | wait {w : T} {s' : Kernel T O} : (s.mutex o).owner = some w → w ≠ c → (s.mutex o).value = 0#16 →
    Boosted (s.setError c .eok) s' c w o → time ≠ 0 →
    TakeCase s c o time (s', .schedule (.mutexTake o time))

/-- `rt_mutex_take`, behind `rt_schedule`. -/
inductive ResumedCase (s : Kernel T O) (c : T) (o : O) (time : Time) : Kernel T O × Next O → Prop
  | granted : (s.thread c).error = .eok → ResumedCase s c o time (s, .ret .eok .none)
  | failed {e : Err} : (s.thread c).error = e → e ≠ .eok → e ≠ .eintr → ResumedCase s c o time (s, .ret e .none)
  | own : (s.thread c).error = .eintr → (s.mutex o).value ≠ 0#16 →
    ResumedCase s c o time (s, .run (.mutexOwn o))
  | busy : (s.thread c).error = .eintr → (s.mutex o).value = 0#16 → time = 0 →
    ResumedCase s c o time (s.setError c .etimeout, .ret .etimeout .none)
  | wait : (s.thread c).error = .eintr → (s.mutex o).value = 0#16 → time ≠ 0 →
    ResumedCase s c o time (s, .run (.mutexWait o time))

theorem value_pos (v : BitVec 16) : 0 < v ↔ v ≠ 0#16 := by
  bv_omega

omit [DecidableEq O] in
theorem mutexTakeResumed_cases : ResumedCase s c o time (s.mutexTakeResumed c o time) := by
  unfold mutexTakeResumed
  dsimp only
  split
  swap
  · rename_i he
    exact .granted (not_not.1 he)
  rename_i he
  split
  swap
  · rename_i hne
    exact .failed rfl he hne
  rename_i hi
  split
  · rename_i hv
    exact .own hi ((value_pos _).1 hv)
  rename_i hv
  have hv : (s.mutex o).value = 0#16 := not_not.1 fun hne => hv ((value_pos _).2 hne)
  split
  · rename_i ht
    exact .busy hi hv ht
  · rename_i ht
    exact .wait hi hv ht

theorem rtMutexTake_cases (hi : s.sched.Inv cfg) (hc : s.sched.current = some c)
    (h : s.rtMutexTake cfg c o time = some r) : TakeCase s c o time r := by
  unfold rtMutexTake at h
  simp only at h
  split at h
  · rename_i how
    cases h
    exact .again how
  rename_i how
  split at h
  · rename_i hv
    cases h
    exact .own how ((value_pos _).1 hv)
  rename_i hv
  split at h
  · cases h
    exact .busy how
  · rename_i ht
    obtain ⟨hn, w, hw, hb⟩ := mutexWait_ok (setError_inv hi c .eok) hc h
    obtain ⟨s', n⟩ := r
    cases hn
    refine .wait hw ?_ (not_not.1 fun hne => hv ((value_pos _).2 hne)) hb ht
    rintro rfl
    exact how hw

/-- `rt_mutex_release`. -/
inductive ReleaseCase (s : Kernel T O) (c : T) (o : O) : Kernel T O × Next O → Prop
  | refuse : (s.mutex o).owner ≠ some c → ReleaseCase s c o (s.setError c .error, .ret .error .none)
  | less : (s.mutex o).owner = some c → (s.mutex o).hold - 1 ≠ 0#8 → ReleaseCase s c o
    (s.setMutex o { s.mutex o with hold := (s.mutex o).hold - 1 }, .ret .eok .none)
  | free {x : Scheduler T (WaitList O)} : (s.mutex o).owner = some c → (s.mutex o).hold - 1 = 0#8 →
    s.waiting (.mutex o) = [] → Reprioritized s.sched x c (s.mutex o).originalPriority → ReleaseCase s c o
    ({ s with sched := x }.setMutex o { s.mutex o with
      value := (s.mutex o).value + 1, owner := none, originalPriority := 0xff, hold := 0#8 },
      .ret .eok .none)
  | hand {t : T} {l : List T} {s' : Kernel T O} : (s.mutex o).owner = some c →
    (s.mutex o).hold - 1 = 0#8 → s.waiting (.mutex o) = t :: l → HandedOver s s' c t l o →
    ReleaseCase s c o (s', .schedule (.ret .eok .none))

/-- `rt_mutex_release` resumes the first waiter. -/
theorem resumeFirst_moves {q : WaitList O} {k : Cont O} (hi : s.sched.Inv cfg)
    (h : s.resumeFirst cfg q k = some r) :
    ∃ t l, s.waiting q = t :: l ∧ r.2 = .schedule k ∧ r.1 = { s with sched := r.1.sched } ∧
      r.1.waiting = Function.update s.waiting q l ∧ r.1.sched.stat t ≠ .suspend ∧
      (∀ u, u ≠ t → r.1.sched.stat u = s.sched.stat u) ∧
      ∀ u, r.1.sched.priority u = s.sched.priority u ∧
        (r.1.thread u).initPriority = (s.thread u).initPriority ∧
        (r.1.thread u).error = (s.thread u).error := by
  obtain ⟨t, l, hl, hn, hr, hw, hinfo⟩ := resumeFirst_ok hi h
  refine ⟨t, l, hl, hn, hr, hw, ?_⟩
  unfold resumeFirst Scheduler.rtIpcListResume at h
  simp only [Option.bind_eq_bind, Option.bind_eq_some_iff, Option.pure_def, Option.some.injEq] at h
  obtain ⟨x, ⟨t', ht, ⟨e, x'⟩, hx, rfl⟩, rfl⟩ := h
  have htt : t' = t := by
    rw [show s.sched.list (.wait q) = t :: l from hl] at ht
    exact (Option.some.inj ht).symm
  subst htt
  have hmem : t' ∈ s.sched.list (.wait q) := List.mem_of_mem_head? ht
  obtain ⟨-, ⟨hne, -⟩ | ⟨-, -, hself, hmv⟩⟩ := Scheduler.rtThreadResume_ok hi hx
  · exact absurd (hi.suspend_of_mem t' q hmem) hne
  refine ⟨?_, fun u hu => congrArg Thread.stat (hmv.other u hu), fun u => ⟨?_, ?_, congrArg Prod.fst (hinfo u)⟩⟩
  · show x'.stat t' ≠ _
    rw [hmv.stat]
    split <;> nofun
  · by_cases hu : u = t'
    · rw [hu]
      exact hmv.priority
    · exact congrArg Thread.currentPriority (hmv.other u hu)
  · by_cases hu : u = t'
    · rw [hu]
      exact hmv.initPriority
    · exact congrArg Thread.initPriority (hmv.other u hu)

theorem rtMutexRelease_cases (hi : s.sched.Inv cfg) (h : s.rtMutexRelease cfg c o = some r) : ReleaseCase s c o r := by
  unfold rtMutexRelease at h
  simp only at h
  split at h
  · rename_i how
    cases h
    exact .refuse how
  rename_i how
  rw [not_not] at how
  split at h
  swap
  · rename_i hh
    cases h
    exact .less how hh
  rename_i hh
  simp only [Option.bind_eq_bind, Option.bind_eq_some_iff, Option.pure_def] at h
  obtain ⟨x, hx, h⟩ := h
  have hx : x.Inv cfg ∧ Reprioritized s.sched x c (s.mutex o).originalPriority := by
    split at hx
    · exact changePriority_ok hi hx
    · rename_i heq
      cases hx
      rw [not_not.1 heq]
      exact ⟨hi, .refl _ _⟩
  obtain ⟨hix, hre⟩ := hx
  have hwait : ({ s with sched := x } : Kernel T O).waiting = s.waiting := funext hre.wait
  rw [hwait] at h
  split at h
  · rename_i t l hl
    obtain ⟨t', l', hl', hn, hr, hw, hwk, hst, hsame⟩ := resumeFirst_moves (by exact hix) h
    have hl'' : s.waiting (.mutex o) = t' :: l' := (congrFun hwait _).symm.trans hl'
    rw [hl] at hl''
    cases hl''
    obtain ⟨s', n⟩ := r
    cases hn
    refine .hand how hh hl ⟨?_, ?_, (hsame c).1.trans hre.self, fun u hu => (hsame u).1.trans (hre.other u hu),
      fun u => (hsame u).2.1.trans (hre.initPriority u), fun u hu => (hst u hu).trans (hre.stat u), hwk,
      fun u => (hsame u).2.2.trans (hre.error u), ?_⟩
    · refine (congrArg Kernel.mutex hr).trans ?_
      show Function.update s.mutex o _ = _
      rw [hh, show s'.sched.priority t = x.priority t from (hsame t).1]
      rfl
    · exact (congrArg Kernel.pc hr).trans rfl
    · refine hw.trans ?_
      rw [show (setMutex { s with sched := x } o _).waiting = s.waiting from hwait]
  · rename_i hl
    cases h
    rw [hh]
    exact .free how hh hl hre

/-! ## Steps -/

/-- A section that the current thread `c` runs on mutex `o`. -/
inductive MutexStep (s : Kernel T O) (c : T) (o : O) : Act T O → Kernel T O × Next O → Prop
  | take {e : Err} {out : Out} {time : Time} {r : Kernel T O × Next O} : s.pc c = .user e out →
    TakeCase s c o time r → MutexStep s c o (.call (.mutexTake o time)) r
  | release {e : Err} {out : Out} {r : Kernel T O × Next O} : s.pc c = .user e out →
    ReleaseCase s c o r → MutexStep s c o (.call (.mutexRelease o)) r
  | resumed {time elapsed : Time} {r : Kernel T O × Next O} : s.pc c = .cont (.mutexTake o time) →
    ResumedCase s c o time r → MutexStep s c o (.cont elapsed) r
  | own {elapsed : Time} : s.pc c = .cont (.mutexOwn o) →
    MutexStep s c o (.cont elapsed) (s.mutexOwn c o, .ret .eok .none)
  | wait {time elapsed : Time} {w : T} {s' : Kernel T O} : s.pc c = .cont (.mutexWait o time) →
    (s.mutex o).owner = some w → Boosted s s' c w o →
    MutexStep s c o (.cont elapsed) (s', .schedule (.mutexTake o time))

omit [DecidableEq T] [DecidableEq O] in
/-- No interrupt handler works on a mutex. -/
theorem Isr.not_mem_lists (i : Isr T O) : .mutex o ∉ i.lists := by
  cases i <;> simp [Isr.lists]

theorem isrResume_not_mem {k : Cont O} (h : s.isrResume cfg (.run k) = some r) : .mutex o ∉ k.lists := by
  cases k with
  | mutexTake | mutexOwn | mutexWait => cases h
  | _ => simp [Cont.lists]

/-- **The steps on a mutex.** -/
theorem mutexStep_of_mem (h : Sound cfg idle s) (hs : s.step cfg idle a = some s')
    (ho : .mutex o ∈ a.lists s) :
    ∃ c r, s.sched.current = some c ∧ (∃ W, Frame cfg s r.1 c True W) ∧ s.ran cfg a = some r ∧
      s' = after c r ∧ MutexStep s c o a r := by
  cases step_cases h.inv h.user hs with
  | @call a c e out r hc hh hidle hpc hr hcd =>
    refine ⟨c, r, hc, ⟨_, hcd.frame⟩, ?_, rfl, ?_⟩
    · simp only [ran, hc, Option.bind_some, hr]
    cases a with
    | mutexTake o' time =>
      cases List.mem_singleton.1 ho
      exact .take hpc (rtMutexTake_cases h.inv hc hr)
    | mutexRelease o' =>
      cases List.mem_singleton.1 ho
      exact .release hpc (rtMutexRelease_cases h.inv hr)
    | _ => simp [Act.lists, Call.lists] at ho
  | @cont c k elapsed r hc hh hidle hpc hr hf =>
    refine ⟨c, r, hc, ⟨_, hf.frame⟩, ?_, rfl, ?_⟩
    · simp only [ran, hc, Option.bind_some, hpc, hr]
    rw [Act.lists_cont hc hpc] at ho
    cases k with
    | mutexTake o' time =>
      cases List.mem_singleton.1 ho
      cases hr
      exact .resumed hpc mutexTakeResumed_cases
    | mutexOwn o' =>
      cases List.mem_singleton.1 ho
      cases hr
      exact .own hpc
    | mutexWait o' time =>
      cases List.mem_singleton.1 ho
      obtain ⟨hn, w, hw, hb⟩ := mutexWait_ok h.inv hc hr
      obtain ⟨s', n⟩ := r
      cases hn
      exact .wait hpc hw hb
    | _ => simp [Cont.lists] at ho
  | isr hc ht hr hf => exact absurd ho (Isr.not_mem_lists _)
  | isrSchedule hh hix hre =>
    rw [Act.lists_isrCont hh] at ho
    cases ho
  | isrCont hh hr hf =>
    rw [Act.lists_isrCont hh] at ho
    exact absurd ho (isrResume_not_mem hr)
  | _ => cases ho

theorem MutexStep.pc (h : MutexStep s c o a r) : r.1.pc = s.pc := by
  cases h with
  | take hpc hc =>
    cases hc with
    | wait hw hwc hv hb => exact hb.pc
    | _ => rfl
  | release hpc hc =>
    cases hc with
    | hand how hh hw hd => exact hd.pc
    | _ => rfl
  | resumed hpc hc => cases hc <;> rfl
  | own hpc => rfl
  | wait hpc hw hb => exact hb.pc

/-- Other threads keep their error codes. -/
theorem MutexStep.error (h : MutexStep s c o a r) (hu : u ≠ c) :
    (r.1.thread u).error = (s.thread u).error := by
  cases h with
  | take hpc hc =>
    cases hc with
    | again | own => exact congrArg Thread.error (setError_thread_ne _ hu)
    | busy =>
      exact congrArg Thread.error ((setError_thread_ne _ hu).trans (setError_thread_ne _ hu))
    | wait hw hwc hv hb => exact (hb.error u).trans (congrArg Thread.error (setError_thread_ne _ hu))
  | release hpc hc =>
    cases hc with
    | refuse => exact congrArg Thread.error (setError_thread_ne _ hu)
    | less => rfl
    | free how hh hw hre => exact hre.error u
    | hand how hh hw hd => exact hd.error u
  | resumed hpc hc =>
    cases hc with
    | busy => exact congrArg Thread.error (setError_thread_ne _ hu)
    | _ => rfl
  | own => rfl
  | wait hpc hw hb => exact hb.error u

/-- What a step that is on no mutex does to them and to priorities. -/
structure Elsewhere (s s' : Kernel T O) : Prop where
  mutex : s'.mutex = s.mutex
  priority : ∀ u, s'.sched.priority u = s.sched.priority u ∨
    s.sched.stat u = .init ∧ s'.sched.priority u = (s'.thread u).initPriority
  initPriority : ∀ u, (s'.thread u).initPriority = (s.thread u).initPriority
  stat : ∀ u, s'.sched.stat u = .init → s.sched.stat u = .init
  waiting : ∀ o u, u ∈ s'.waiting (.mutex o) → u ∈ s.waiting (.mutex o)

namespace Elsewhere

omit [DecidableEq T] [DecidableEq O] in
theorem of_frame {own : Prop} {W : List (WaitList O)} (hf : Frame cfg s s' c own W)
    (hW : ∀ o, .mutex o ∉ W) : Elsewhere s s' where
  mutex := funext fun o => hf.off.mutex o (hW o)
  priority := fun u => (hf.priority u).imp_right fun h => h.resolve_right fun ⟨o, ho⟩ => hW o ho
  initPriority := hf.initPriority
  stat := fun _ => hf.init_of_init
  waiting := fun o _ hu => ((hf.mem_waiting (hW o)).1 hu).1

omit [DecidableEq T] [DecidableEq O] in
theorem rescheduled {s₁ : Kernel T O} (h : Elsewhere s s₁) {x : Scheduler T (WaitList O)}
    (hre : s₁.sched.Rescheduled x) (hs : s'.sched = x) (hm : s'.mutex = s₁.mutex) : Elsewhere s s' where
  mutex := hm.trans h.mutex
  priority := by
    intro u
    rw [hs, hre.restat.priority, show (s'.thread u).initPriority = (s₁.thread u).initPriority by
      unfold thread; rw [hs, hre.restat.initPriority]]
    exact h.priority u
  initPriority := by
    intro u
    rw [← h.initPriority u]
    unfold thread
    rw [hs, hre.restat.initPriority]
  stat := by
    intro u hu
    refine h.stat u ?_
    rw [hs] at hu
    rcases hre.stat u with hst | ⟨-, hst⟩ | ⟨-, hst⟩
    · rw [← hst, hu]
    · rw [hst] at hu
      cases hu
    · rw [hst] at hu
      cases hu
  waiting := by
    intro o u hu
    refine h.waiting o u ?_
    unfold Kernel.waiting at hu ⊢
    rwa [hs, hre.wait] at hu

omit [DecidableEq T] [DecidableEq O] in
theorem refl : Elsewhere s s :=
  ⟨rfl, fun _ => .inl rfl, fun _ => rfl, fun _ => id, fun _ _ => id⟩

end Elsewhere

/-- **The steps on no mutex.** -/
theorem elsewhere_step (h : Sound cfg idle s) (hs : s.step cfg idle a = some s')
    (ho : ∀ o, .mutex o ∉ a.lists s) : Elsewhere s s' := by
  cases step_cases h.inv h.user hs with
  | boot hc hx =>
    have ht : Touch cfg s.sched _ idle False [] := .makeReady h.inv hx
    exact .of_frame (.of_touch ht Off.refl.sched) (by simp)
  | start hc hidle hx => exact Elsewhere.refl.rescheduled (start_rescheduled h.inv hc hx) rfl rfl
  | @call a c e out r hc hh hidle hpc hr hcd =>
    have he : Elsewhere s r.1 := .of_frame hcd.frame ho
    exact { he with }
  | @schedule c k x hc hh hpc hix hre =>
    have he : Elsewhere s { s with sched := x } := Elsewhere.refl.rescheduled hre rfl rfl
    exact { he with }
  | @switched c k s₁ hc hh hpc hd =>
    have he : Elsewhere s s₁ := .of_frame hd.frame (by simp)
    exact { he with }
  | signalEntry hc hh hd => exact .of_frame hd.frame (by simp)
  | @cont c k elapsed r hc hh hidle hpc hr hf =>
    rw [Act.lists_cont hc hpc] at ho
    have he : Elsewhere s r.1 := .of_frame hf.frame ho
    exact { he with }
  | @timeout c t x₁ x hc hst hf hother hsig hln hix hre =>
    have he : Elsewhere s { s with sched := x₁ } := .of_frame hf (by simp)
    exact he.rescheduled hre rfl rfl
  | @isr i c r hc ht hr hf =>
    obtain ⟨l, hl⟩ := handled_eq r
    rw [hl]
    have he : Elsewhere s r.1 := .of_frame hf.frame ho
    exact { he with }
  | isrSchedule hh hix hre => exact Elsewhere.refl.rescheduled hre rfl rfl
  | @isrCont handlers k r hh hr hf =>
    rw [Act.lists_isrCont hh] at ho
    obtain ⟨l, hl⟩ := handled_eq r
    rw [hl]
    have he : Elsewhere { s with handlers } r.1 := .of_frame (hf idle).framed.frame ho
    exact { he with }

/-! ## Waiters -/

/-- The call that a thread is in. -/
def Pc.call : Pc O → Option (Cont O)
  | .user _ _ => none
  | .schedule k | .switched k | .cont k => some k

omit [DecidableEq O] in
theorem Pc.waits_eq (p : Pc O) : p.waits = p.call.bind Cont.waits := by
  cases p <;> rfl

omit [DecidableEq O] in
theorem Cont.pc_call {k : Cont O} {q : WaitList O} (h : k.waits = some q) : k.pc.call = some k := by
  cases k with
  | ret => cases h
  | _ => rfl

variable {q : WaitList O}

omit [DecidableEq T] [DecidableEq O] in
theorem Frame.waiter {own : Prop} {W : List (WaitList O)} (hf : Frame cfg s s' c own W)
    (hl : Live cfg idle s) (hW : q ∉ W) (hu : (s.pc u).waits = some q) (hc : own → u ≠ c) :
    ((s'.thread u).error = (s.thread u).error ∨
      s.sched.stat u = .suspend ∧ (s'.thread u).error = .etimeout) ∧
    (s.sched.stat u ≠ .suspend → s'.sched.stat u ≠ .suspend) := by
  refine ⟨?_, fun hns hs => ?_⟩
  · rcases hf.error u with he | ⟨hs, -, he⟩ | ⟨e, ho⟩ | ⟨q', hq', hmem⟩
    · exact .inl he
    · exact .inr ⟨hs, he⟩
    · exact absurd e (hc ho)
    · have hw := Pc.waits_of_sleeps ((hl.waiting u q').1 hmem).1
      rw [hu] at hw
      cases hw
      exact absurd hq' hW
  · exact hns (Live.suspend_of_frame hf (fun e ho => hc ho e) hs)

/-- What a step elsewhere leaves of a thread in a call on list `q`. -/
structure Stays (s s' : Kernel T O) (a : Act T O) (u : T) : Prop where
  call : (s'.pc u).call = (s.pc u).call
  stopped : (s'.pc u).stopped = true → (s.pc u).stopped = true
  error : (s'.thread u).error = (s.thread u).error ∨
    s.sched.stat u = .suspend ∧ (s'.thread u).error = .etimeout ∨
    (a = .switched ∨ a = .signalEntry) ∧ s.sched.current = some u ∧ Handles (s.thread u)
  stat : s.sched.stat u ≠ .suspend → s'.sched.stat u ≠ .suspend

omit [DecidableEq T] [DecidableEq O] in
theorem Stays.of_frame {own : Prop} {W : List (WaitList O)} (hf : Frame cfg s s' c own W)
    (hl : Live cfg idle s) (hW : q ∉ W) (hu : (s.pc u).waits = some q) (hc : own → u ≠ c) :
    Stays s s' a u :=
  ⟨by rw [hf.pc], by rw [hf.pc]; exact id, (hf.waiter hl hW hu hc).1.imp_right .inl,
    (hf.waiter hl hW hu hc).2⟩

omit [DecidableEq T] [DecidableEq O] in
theorem Stays.rescheduled {s₁ : Kernel T O} (h : Stays s s₁ a u) {x : Scheduler T (WaitList O)}
    (hre : s₁.sched.Rescheduled x) (hs : s'.sched = x) (hpc : s'.pc = s₁.pc) : Stays s s' a u where
  call := by rw [hpc, h.call]
  stopped := by rw [hpc]; exact h.stopped
  error := by
    have he : (s'.thread u).error = (s₁.thread u).error := by
      unfold thread
      rw [hs, hre.restat u]
    rw [he]
    exact h.error
  stat := by
    intro hns
    rw [hs, Ne, Live.suspend_iff_of_rescheduled hre]
    exact h.stat hns

omit [DecidableEq T] [DecidableEq O] in
theorem Stays.refl : Stays s s a u := ⟨rfl, id, .inl rfl, id⟩

omit [DecidableEq O] in
theorem Stays.setPc {s₁ : Kernel T O} (h : Stays s s₁ a u) {p : Pc O}
    (hp : u = c → p.call = (s.pc u).call ∧ (p.stopped = true → (s.pc u).stopped = true)) :
    Stays s (s₁.setPc c p) a u where
  call := by
    by_cases hu : u = c
    · rw [hu, setPc_pc_self, ← hu]
      exact (hp hu).1
    · rw [setPc_pc_ne _ hu, h.call]
  stopped := by
    by_cases hu : u = c
    · rw [hu, setPc_pc_self, ← hu]
      exact (hp hu).2
    · rw [setPc_pc_ne _ hu]
      exact h.stopped
  error := h.error
  stat := h.stat

omit [DecidableEq T] [DecidableEq O] in
theorem Stays.of_handled (hd : Handled cfg s s' c) (hc : s.sched.current = some c)
    (ha : a = .switched ∨ a = .signalEntry) : Stays s s' a u where
  call := by rw [hd.frame.pc]
  stopped := by rw [hd.frame.pc]; exact id
  error := by
    by_cases hu : u = c
    · subst hu
      by_cases hh : Handles (s.thread u)
      · exact .inr (.inr ⟨ha, hc, hh⟩)
      · exact .inl (hd.error hh).1
    · rcases hd.frame.error u with he | ⟨hs, -, he⟩ | ⟨e, -⟩ | ⟨q, hq, -⟩
      · exact .inl he
      · exact .inr (.inl ⟨hs, he⟩)
      · exact absurd e hu
      · cases hq
  stat := by
    rw [hd.stat]
    exact id

omit [DecidableEq T] [DecidableEq O] in
/-- A thread in a call on list `q` is not the one that runs a section elsewhere. -/
theorem waiter_ne {p : Pc O} (hu : (s.pc u).waits = some q) (hpc : s.pc c = p) (hp : p.waits ≠ some q) :
    u ≠ c := by
  rintro rfl
  rw [hpc] at hu
  exact hp hu

/-- **A thread in a call on list `q`, and a step that is not on it.** -/
theorem waiter_step (h : Live cfg idle s) (hs : s.step cfg idle a = some s') (hq : q ∉ a.lists s)
    (hu : (s.pc u).waits = some q) : Stays s s' a u := by
  cases step_cases h.inv h.user hs with
  | boot hc hx =>
    have ht : Touch cfg s.sched _ idle False [] := .makeReady h.inv hx
    exact .of_frame (.of_touch ht Off.refl.sched) h (by simp) hu False.elim
  | start hc hidle hx => exact Stays.refl.rescheduled (start_rescheduled h.inv hc hx) rfl rfl
  | call hc hh hidle hpc hr hcd =>
    have hne := waiter_ne hu hpc (by nofun)
    exact (Stays.of_frame hcd.frame h hq hu fun _ => hne).setPc fun e => absurd e hne
  | @schedule c k x hc hh hpc hix hre =>
    have hx : Stays s { s with sched := x } .schedule u := Stays.refl.rescheduled hre rfl rfl
    refine hx.setPc fun e => ?_
    subst e
    rw [hpc] at hu ⊢
    refine ⟨?_, fun _ => rfl⟩
    split
    · exact Cont.pc_call hu
    · rfl
  | switched hc hh hpc hd =>
    refine (Stays.of_handled hd hc (.inl rfl)).setPc fun e => ?_
    subst e
    rw [hpc] at hu ⊢
    exact ⟨Cont.pc_call hu, fun _ => rfl⟩
  | signalEntry hc hh hd => exact .of_handled hd hc (.inr rfl)
  | cont hc hh hidle hpc hr hf =>
    rw [Act.lists_cont hc hpc] at hq
    have hne := waiter_ne hu hpc fun hk => hq (Cont.waits_mem hk)
    exact (Stays.of_frame hf.frame h hq hu fun _ => hne).setPc fun e => absurd e hne
  | @timeout c t x₁ x hc hst hf hother hsig hln hix hre =>
    have hx : Stays s { s with sched := x₁ } (.isr (.timeout t)) u :=
      .of_frame hf h (by simp) hu False.elim
    exact hx.rescheduled hre rfl rfl
  | @isr i c r hc ht hr hf =>
    obtain ⟨l, hl⟩ := handled_eq r
    rw [hl]
    have hx : Stays s r.1 (.isr i) u := .of_frame hf.frame h hq hu False.elim
    exact { hx with }
  | isrSchedule hh hix hre => exact Stays.refl.rescheduled hre rfl rfl
  | @isrCont handlers k r hh hr hf =>
    rw [Act.lists_isrCont hh] at hq
    obtain ⟨l, hl⟩ := handled_eq r
    rw [hl]
    have hcur : s.sched.current ≠ none := fun hn => by
      rw [h.started hn] at hh
      cases hh
    have hx : Stays { s with handlers } r.1 .isrCont u :=
      .of_frame (hf idle).framed.frame (h.of_handlers hcur handlers) hq hu False.elim
    exact { hx with }

/-- No thread comes to wait in list `q` by a step elsewhere. -/
theorem waits_of_step (h : Live cfg idle s) (hs : s.step cfg idle a = some s') (hq : q ∉ a.lists s)
    (hu : (s'.pc u).waits = some q) : (s.pc u).waits = some q := by
  cases step_cases h.inv h.user hs with
  | @call a c e out r hc hh hidle hpc hr hcd =>
    have hne : u ≠ c := waiter_ne (s := after c r) hu (setPc_pc_self _)
      fun hw => hq (hcd.lists q (Next.pc_waits_mem hw))
    rwa [show (after c r).pc u = r.1.pc u from setPc_pc_ne _ hne, hcd.frame.pc] at hu
  | @schedule c k x hc hh hpc hix hre =>
    by_cases hne : u = c
    · subst hne
      unfold scheduled at hu
      rw [setPc_pc_self] at hu
      rw [hpc]
      split at hu
      · rwa [Cont.pc_waits] at hu
      · exact hu
    · unfold scheduled at hu
      rwa [setPc_pc_ne _ hne] at hu
  | @switched c k s₁ hc hh hpc hd =>
    by_cases hne : u = c
    · subst hne
      rw [setPc_pc_self, Cont.pc_waits] at hu
      rw [hpc]
      exact hu
    · rwa [setPc_pc_ne _ hne, hd.frame.pc] at hu
  | signalEntry hc hh hd => rwa [hd.frame.pc] at hu
  | @cont c k elapsed r hc hh hidle hpc hr hf =>
    rw [Act.lists_cont hc hpc] at hq
    have hne : u ≠ c := waiter_ne (s := after c r) hu (setPc_pc_self _)
      fun hw => hq (hf.lists q (Next.pc_waits_mem hw))
    rwa [show (after c r).pc u = r.1.pc u from setPc_pc_ne _ hne, hf.frame.pc] at hu
  | @isr i c r hc ht hr hf =>
    obtain ⟨l, hl⟩ := handled_eq r
    rw [hl, show ({ r.1 with handlers := l } : Kernel T O).pc = s.pc from hf.frame.pc] at hu
    exact hu
  | @isrCont handlers k r hh hr hf =>
    obtain ⟨l, hl⟩ := handled_eq r
    rw [hl, show ({ r.1 with handlers := l } : Kernel T O).pc = s.pc from (hf idle).off.pc] at hu
    exact hu
  | boot | start | timeout | isrSchedule => exact hu

end RtThread.Ipc
