import RtThread.Proof.Mutex

/-!
# Priority inheritance

Without signals and with the scheduler unlocked: threads take, wait for and release any number of
mutexes, and waits time out.

* `Owned`, `owned_step`: what the owners of mutexes, their priorities and their waiters have to do with
  each other in any case.
* `priority_restored`: a thread that owns no mutex has its own priority, if the last mutex it gives up is one
  it got at its own priority.
* `priority_inherited`: an owner is at least as urgent as every waiter, if boosts and releases mind the
  other mutexes they have to do with.
-/

namespace RtThread.Ipc

open Sched Kernel

variable {T O : Type} [DecidableEq T] [DecidableEq O] {cfg : Config} {s s' : Kernel T O} {c t u w : T}
  {r : Kernel T O × Next O} {idle : T} {o : O} {a : Act T O}

/-! ## Owners -/

/-- Owners and waiters. -/
structure Owned (s : Kernel T O) : Prop where
  value : ∀ o, (s.mutex o).owner = none ∨ (s.mutex o).value = 0#16
  value' : ∀ o, (s.mutex o).owner = none → (s.mutex o).value = 1#16
  empty : ∀ o, (s.mutex o).owner = none → ∀ u, u ∉ s.waiting (.mutex o)
  started : ∀ o t, (s.mutex o).owner = some t → s.sched.stat t ≠ .init
  own : ∀ t, s.sched.stat t = .init → s.sched.priority t = (s.thread t).initPriority
  waits : ∀ o u, (s.pc u).waits = some (.mutex o) →
    (∃ time, (s.pc u).call = some (.mutexTake o time)) ∧ (s.thread u).error ≠ .eintr

omit [DecidableEq T] [DecidableEq O] in
theorem Owned.of_init (h : s.Init cfg) : Owned s := by
  have hi := Scheduler.init_inv h.sched
  obtain ⟨th, hth, hs⟩ := h.sched
  have hm : ∀ o, (s.mutex o).owner = none ∧ (s.mutex o).value = 1#16 := by
    intro o
    obtain ⟨flag, hm⟩ := h.mutex o
    rw [hm]
    exact ⟨rfl, rfl⟩
  refine ⟨fun o => .inl (hm o).1, fun o _ => (hm o).2, fun o _ u hu => ?_, fun o t ht => ?_, fun t _ => ?_,
    fun o u hu => ?_⟩
  · unfold Kernel.waiting at hu
    rw [hs] at hu
    cases hu
  · rw [(hm o).1] at ht
    cases ht
  · obtain ⟨p, sys, x, cl, hx, hx'⟩ := hth t
    unfold thread
    rw [hs]
    show (th t).currentPriority = (th t).initPriority
    rw [hx']
    unfold rtThreadInit at hx
    split at hx <;> cases hx
    rfl
  · rw [h.pc u] at hu
    cases hu

omit [DecidableEq T] [DecidableEq O] in
/-- Elsewhere, a thread that starts has its own priority before and after. -/
theorem Elsewhere.priority_eq (he : Elsewhere s s') (h : Owned s) (u : T) :
    s'.sched.priority u = s.sched.priority u := by
  rcases he.priority u with hp | ⟨hi, hp⟩
  · exact hp
  · rw [hp, he.initPriority, h.own u hi]

theorem owned_elsewhere (hq : Quiet cfg idle s) (hs : s.step cfg idle a = some s')
    (ho : ∀ o, .mutex o ∉ a.lists s) (h : Owned s) : Owned s' := by
  have he := elsewhere_step hq.toSound hs ho
  refine ⟨by rw [he.mutex]; exact h.value, by rw [he.mutex]; exact h.value',
    fun o hn u hu => ?_, fun o t ht hi => ?_, fun t hi => ?_, fun o u hu => ?_⟩
  · rw [he.mutex] at hn
    exact h.empty o hn u (he.waiting o u hu)
  · rw [he.mutex] at ht
    exact h.started o t ht (he.stat t hi)
  · rw [he.priority_eq h, he.initPriority]
    exact h.own t (he.stat t hi)
  · have hw := waits_of_step hq.toLive hs (ho o) hu
    obtain ⟨hcall, herr⟩ := h.waits o u hw
    have hstays := waiter_step hq.toLive hs (ho o) hw
    refine ⟨by rw [hstays.call]; exact hcall, ?_⟩
    rcases hstays.error with e | ⟨-, e⟩ | ⟨-, -, hh⟩
    · rw [e]
      exact herr
    · rw [e]
      nofun
    · exact absurd hh.1 (hq.not_signalled u)

/-- What a section of `c` does to mutex `o`, to priorities and to waiters. -/
inductive MutexEffect (s : Kernel T O) (c : T) (o : O) (a : Act T O) (s' : Kernel T O) : Prop
  | still : (∀ o, (s'.mutex o).owner = (s.mutex o).owner ∧ (s'.mutex o).value = (s.mutex o).value ∧
      (s'.mutex o).originalPriority = (s.mutex o).originalPriority) →
    (∀ u, s'.sched.priority u = s.sched.priority u) → s'.waiting = s.waiting → MutexEffect s c o a s'
  | own {m : Mutex T} : (s.mutex o).value ≠ 0#16 → s'.mutex = Function.update s.mutex o m →
    m.owner = some c → m.value = (s.mutex o).value - 1 → m.originalPriority = s.sched.priority c →
    (∀ u, s'.sched.priority u = s.sched.priority u) → s'.waiting = s.waiting → MutexEffect s c o a s'
  | wait {w : T} {time : Time} : a = .call (.mutexTake o time) → time ≠ 0 → (s.mutex o).owner = some w →
    w ≠ c → s'.mutex = s.mutex → s'.sched.priority w = min (s.sched.priority w) (s.sched.priority c) →
    (∀ u, u ≠ w → s'.sched.priority u = s.sched.priority u) →
    (∀ o' u, u ∈ s'.waiting (.mutex o') → u ∈ s.waiting (.mutex o') ∨ o' = o ∧ u = c) →
    MutexEffect s c o a s'
  | free {m : Mutex T} : a = .call (.mutexRelease o) → (s.mutex o).owner = some c →
    (s.mutex o).hold - 1 = 0#8 → s.waiting (.mutex o) = [] → s'.mutex = Function.update s.mutex o m →
    m.owner = none → m.value = (s.mutex o).value + 1 →
    s'.sched.priority c = (s.mutex o).originalPriority →
    (∀ u, u ≠ c → s'.sched.priority u = s.sched.priority u) → s'.waiting = s.waiting →
    MutexEffect s c o a s'
  | hand {m : Mutex T} {t : T} {l : List T} : a = .call (.mutexRelease o) → (s.mutex o).owner = some c →
    (s.mutex o).hold - 1 = 0#8 → s.waiting (.mutex o) = t :: l → t ≠ c →
    s'.mutex = Function.update s.mutex o m → m.owner = some t → m.value = (s.mutex o).value →
    m.originalPriority = s.sched.priority t → s'.sched.priority c = (s.mutex o).originalPriority →
    (∀ u, u ≠ c → s'.sched.priority u = s.sched.priority u) →
    s'.waiting = Function.update s.waiting (.mutex o) l → MutexEffect s c o a s'

/-- **A section on a mutex**: without signals, no thread goes back to `__again`. -/
theorem mutexEffect (hq : Quiet cfg idle s) (h : Owned s) (hc : s.sched.current = some c)
    (hm : MutexStep s c o a r) : MutexEffect s c o a r.1 := by
  -- the section changes at most `hold`
  have hhold : ∀ m : Mutex T, m.owner = (s.mutex o).owner → m.value = (s.mutex o).value →
      m.originalPriority = (s.mutex o).originalPriority → ∀ o',
      (Function.update s.mutex o m o').owner = (s.mutex o').owner ∧
      (Function.update s.mutex o m o').value = (s.mutex o').value ∧
      (Function.update s.mutex o m o').originalPriority = (s.mutex o').originalPriority := by
    intro m h₁ h₂ h₃ o'
    by_cases ho : o' = o
    · subst ho
      rw [Function.update_self]
      exact ⟨h₁, h₂, h₃⟩
    · rw [Function.update_of_ne ho]
      exact ⟨rfl, rfl, rfl⟩
  have hsame : ∀ o', (s.mutex o').owner = (s.mutex o').owner ∧ (s.mutex o').value = (s.mutex o').value ∧
      (s.mutex o').originalPriority = (s.mutex o').originalPriority := fun _ => ⟨rfl, rfl, rfl⟩
  cases hm with
  | take hpc hcase =>
    cases hcase with
    | again how => exact .still (hhold _ rfl rfl rfl) (fun u => setError_priority _) rfl
    | own how hv =>
      exact .own hv rfl rfl rfl (setError_priority _) (fun u => setError_priority _) rfl
    | busy how =>
      exact .still hsame (fun u => (setError_priority _).trans (setError_priority _)) rfl
    | wait hw hwc hv hb ht =>
      obtain ⟨l, hl, hwait⟩ := hb.waiting
      refine .wait rfl ht hw hwc hb.mutex ?_ (fun u hu => (hb.other u hu).trans (setError_priority _))
        fun o' u hu => ?_
      · rw [hb.self, setError_priority, setError_priority]
      · rw [hwait] at hu
        by_cases ho : o' = o
        · subst ho
          rw [Function.update_self, hl.mem_iff, List.mem_cons] at hu
          exact hu.symm.imp_right fun e => ⟨rfl, e⟩
        · rw [Function.update_of_ne (by simpa using ho)] at hu
          exact .inl hu
  | release hpc hcase =>
    cases hcase with
    | refuse how => exact .still hsame (fun u => setError_priority _) rfl
    | less how hh => exact .still (hhold _ rfl rfl rfl) (fun _ => rfl) rfl
    | free how hh hw hre =>
      exact .free rfl how hh hw rfl rfl rfl hre.self hre.other (funext fun q => hre.wait q)
    | @hand t l s' how hh hw hd =>
      have htc : t ≠ c := by
        rintro rfl
        refine hq.not_waiting (hq.running hc (by rw [hpc]; nofun)) (.mutex o) ?_
        rw [hw]
        exact List.mem_cons_self
      exact .hand rfl how hh hw htc hd.mutex rfl rfl (hd.other t htc) hd.self hd.other hd.waiting
  | resumed hpc hcase =>
    have herr := (h.waits o c (by rw [hpc]; rfl)).2
    cases hcase with
    | granted | failed => exact .still hsame (fun _ => rfl) rfl
    | own he | busy he | wait he => exact absurd he herr
  | own hpc =>
    obtain ⟨time, hcall⟩ := (h.waits o c (by rw [hpc]; rfl)).1
    rw [hpc] at hcall
    cases hcall
  | wait hpc =>
    obtain ⟨time, hcall⟩ := (h.waits o c (by rw [hpc]; rfl)).1
    rw [hpc] at hcall
    cases hcall

/-- A section that ends with `c` in a mutex call ends in `rt_schedule` of a wait. -/
theorem waits_self {o' : O} (h : Owned s) (hm : MutexStep s c o a r) (hw : r.2.pc.waits = some (.mutex o')) :
    (∃ time, r.2.pc.call = some (.mutexTake o' time)) ∧ (r.1.thread c).error ≠ .eintr := by
  cases hm with
  | @take e out time r hpc hcase =>
    cases hcase with
    | again | own | busy => cases hw
    | wait how hwc hv hb ht =>
      cases hw
      refine ⟨⟨time, rfl⟩, ?_⟩
      rw [hb.error]
      have : ((s.setError c .eok).thread c).error = .eok :=
        congrArg Thread.error (Scheduler.update_thread_self (s := s.sched) fun th => { th with error := .eok })
      rw [this]
      nofun
  | release hpc hcase => cases hcase <;> cases hw
  | resumed hpc hcase =>
    have herr := (h.waits o c (by rw [hpc]; rfl)).2
    cases hcase with
    | granted | failed => cases hw
    | own he | busy he | wait he => exact absurd he herr
  | own hpc => cases hw
  | wait hpc =>
    obtain ⟨time, hcall⟩ := (h.waits o c (by rw [hpc]; rfl)).1
    rw [hpc] at hcall
    cases hcall

omit [DecidableEq T] in
theorem update_cases {m : Mutex T} {P : O → Mutex T → Prop} (h : P o m) (h' : ∀ o', o' ≠ o → P o' (s.mutex o'))
    (o' : O) : P o' (Function.update s.mutex o m o') := by
  by_cases ho : o' = o
  · subst ho
    rw [Function.update_self]
    exact h
  · rw [Function.update_of_ne ho]
    exact h' o' ho

theorem owned_mutexStep {W : List (WaitList O)} (hq : Quiet cfg idle s) (hc : s.sched.current = some c)
    (hf : Frame cfg s r.1 c True W) (hm : MutexStep s c o a r) (h : Owned s) : Owned (after c r) := by
  have hcinit : s.sched.stat c ≠ .init := by
    rcases hq.current c hc with hst | ⟨hst, -⟩ <;> rw [hst] <;> nofun
  have hinit : ∀ u, r.1.sched.stat u = .init → s.sched.stat u = .init := fun u => hf.init_of_init
  -- a thread that has not started neither owns a mutex nor runs
  have hprio : ∀ t, s.sched.stat t = .init → (r.1.sched.priority t = s.sched.priority t) →
      r.1.sched.priority t = (r.1.thread t).initPriority := fun t ht hp => by
    rw [hp, hf.initPriority]
    exact h.own t ht
  have hne : ∀ t, s.sched.stat t = .init → t ≠ c := by
    rintro t ht rfl
    exact hcinit ht
  have hwaits : ∀ o' u, ((after c r).pc u).waits = some (.mutex o') →
      (∃ time, ((after c r).pc u).call = some (.mutexTake o' time)) ∧ ((after c r).thread u).error ≠ .eintr := by
    intro o' u hu
    by_cases huc : u = c
    · subst huc
      rw [show (after u r).pc u = r.2.pc from setPc_pc_self _] at hu ⊢
      exact waits_self h hm hu
    · rw [show (after c r).pc u = s.pc u from (setPc_pc_ne _ huc).trans (congrFun hm.pc u)] at hu ⊢
      rw [show ((after c r).thread u).error = (s.thread u).error from hm.error huc]
      exact h.waits o' u hu
  cases mutexEffect hq h hc hm with
  | still hmu hpr hw =>
    refine ⟨fun o' => ?_, fun o' hn => ?_, fun o' hn u hu => ?_, fun o' t ht hi => ?_, fun t hi => ?_, hwaits⟩
    · show (r.1.mutex o').owner = none ∨ (r.1.mutex o').value = 0#16
      rw [(hmu o').1, (hmu o').2.1]
      exact h.value o'
    · exact (hmu o').2.1.trans (h.value' o' ((hmu o').1.symm.trans hn))
    · rw [show (after c r).waiting = s.waiting from hw] at hu
      exact h.empty o' ((hmu o').1.symm.trans hn) u hu
    · exact h.started o' t ((hmu o').1.symm.trans ht) (hinit t hi)
    · exact hprio t (hinit t hi) (hpr t)
  | @own m hv hmu how hval horig hpr hw =>
    have hm' : (after c r).mutex = Function.update s.mutex o m := hmu
    have hval' : m.value = 0#16 := by
      rw [hval, h.value' o ((h.value o).resolve_right hv)]
      rfl
    refine ⟨fun o' => ?_, fun o' => ?_, fun o' hn u hu => ?_, fun o' t => ?_, fun t hi => ?_, hwaits⟩
    · rw [hm']
      exact update_cases (P := fun _ m => m.owner = none ∨ m.value = 0#16) (.inr hval') (fun o' _ => h.value o') o'
    · rw [hm']
      refine update_cases (P := fun _ m => m.owner = none → m.value = 1#16) (fun hn => ?_)
        (fun o' _ => h.value' o') o'
      rw [how] at hn
      cases hn
    · rw [show (after c r).waiting = s.waiting from hw] at hu
      rw [hm'] at hn
      refine update_cases (P := fun o' m => m.owner = none → u ∉ s.waiting (.mutex o')) (fun hn => ?_)
        (fun o' _ hn => h.empty o' hn u) o' hn hu
      rw [how] at hn
      cases hn
    · rw [hm']
      refine update_cases (P := fun _ m => m.owner = some t → (after c r).sched.stat t ≠ .init) (fun ht hi => ?_)
        (fun o' _ ht hi => h.started o' t ht (hinit t hi)) o'
      rw [how] at ht
      cases ht
      exact hcinit (hinit c hi)
    · exact hprio t (hinit t hi) (hpr t)
  | @wait w time ha ht how hwc hmu hself hother hw =>
    have hm' : (after c r).mutex = s.mutex := hmu
    refine ⟨by rw [hm']; exact h.value, by rw [hm']; exact h.value', fun o' hn u hu => ?_, fun o' t ht hi => ?_,
      fun t hi => ?_, hwaits⟩
    · rw [hm'] at hn
      rcases hw o' u hu with hu | ⟨rfl, -⟩
      · exact h.empty o' hn u hu
      · rw [how] at hn
        cases hn
    · rw [hm'] at ht
      exact h.started o' t ht (hinit t hi)
    · refine hprio t (hinit t hi) (hother t ?_)
      rintro rfl
      exact h.started o t how (hinit t hi)
  | @free m ha how hh hwn hmu hon hval hself hother hw =>
    have hm' : (after c r).mutex = Function.update s.mutex o m := hmu
    have hval' : m.value = 1#16 := by
      rw [hval, (h.value o).resolve_left (by rw [how]; nofun)]
      rfl
    refine ⟨fun o' => ?_, fun o' => ?_, fun o' hn u hu => ?_, fun o' t => ?_, fun t hi => ?_, hwaits⟩
    · rw [hm']
      exact update_cases (P := fun _ m => m.owner = none ∨ m.value = 0#16) (.inl hon) (fun o' _ => h.value o') o'
    · rw [hm']
      exact update_cases (P := fun _ m => m.owner = none → m.value = 1#16) (fun _ => hval')
        (fun o' _ => h.value' o') o'
    · rw [show (after c r).waiting = s.waiting from hw] at hu
      rw [hm'] at hn
      refine update_cases (P := fun o' m => m.owner = none → u ∉ s.waiting (.mutex o')) (fun _ => ?_)
        (fun o' _ hn => h.empty o' hn u) o' hn hu
      rw [hwn]
      exact List.not_mem_nil
    · rw [hm']
      refine update_cases (P := fun _ m => m.owner = some t → (after c r).sched.stat t ≠ .init) (fun ht => ?_)
        (fun o' _ ht hi => h.started o' t ht (hinit t hi)) o'
      rw [hon] at ht
      cases ht
    · exact hprio t (hinit t hi) (hother t (hne t (hinit t hi)))
  | @hand m t l ha how hh hwn htc hmu hon hval horig hself hother hw =>
    have hm' : (after c r).mutex = Function.update s.mutex o m := hmu
    have htst : s.sched.stat t = .suspend := by
      refine hq.inv.suspend_of_mem t (.mutex o) ?_
      show t ∈ s.waiting (.mutex o)
      rw [hwn]
      exact List.mem_cons_self
    refine ⟨fun o' => ?_, fun o' => ?_, fun o' hn u hu => ?_, fun o' t' => ?_, fun t' hi => ?_, hwaits⟩
    · rw [hm']
      refine update_cases (P := fun _ m => m.owner = none ∨ m.value = 0#16) (.inr ?_) (fun o' _ => h.value o') o'
      rw [hval]
      exact (h.value o).resolve_left (by rw [how]; nofun)
    · rw [hm']
      refine update_cases (P := fun _ m => m.owner = none → m.value = 1#16) (fun hn => ?_)
        (fun o' _ => h.value' o') o'
      rw [hon] at hn
      cases hn
    · rw [hm'] at hn
      by_cases ho : o' = o
      · subst ho
        rw [Function.update_self, hon] at hn
        cases hn
      · rw [Function.update_of_ne ho] at hn
        rw [show (after c r).waiting = _ from hw, Function.update_of_ne (by simpa using ho)] at hu
        exact h.empty o' hn u hu
    · rw [hm']
      refine update_cases (P := fun _ m => m.owner = some t' → (after c r).sched.stat t' ≠ .init) (fun ht hi => ?_)
        (fun o' _ ht hi => h.started o' t' ht (hinit t' hi)) o'
      rw [hon] at ht
      cases ht
      have := hinit t hi
      rw [htst] at this
      cases this
    · exact hprio t' (hinit t' hi) (hother t' (hne t' (hinit t' hi)))

/-- **Every quiet step keeps to it.** -/
theorem owned_step (hq : Quiet cfg idle s) (hs : s.step cfg idle a = some s') (h : Owned s) : Owned s' := by
  by_cases ho : ∃ o, .mutex o ∈ a.lists s
  · obtain ⟨o, ho⟩ := ho
    obtain ⟨c, r, hc, ⟨W, hf⟩, -, rfl, hm⟩ := mutexStep_of_mem hq.toSound hs ho
    exact owned_mutexStep hq hc hf hm h
  · exact owned_elsewhere hq hs (fun o hm => ho ⟨o, hm⟩) h

/-! ## Back to one's own priority -/

/-- The last mutex that a thread gives up is one that it got at its own priority. -/
def LastAtOwn (p : Kernel T O × (O → Bool)) : Act T O → Prop
  | .call (.mutexRelease o) => (p.1.mutex o).owner = p.1.sched.current → (p.1.mutex o).hold - 1 = 0#8 →
    (∀ o', o' ≠ o → (p.1.mutex o').owner ≠ p.1.sched.current) → p.2 o = false
  | _ => True

def lastAtOwn [Fintype O] (p : Kernel T O × (O → Bool)) : Act T O → Bool
  | .call (.mutexRelease o) => (p.1.mutex o).owner = p.1.sched.current → (p.1.mutex o).hold - 1 = 0#8 →
    (∀ o', o' ≠ o → (p.1.mutex o').owner ≠ p.1.sched.current) → p.2 o = false
  | _ => true

theorem lastAtOwn_iff {p : Kernel T O × (O → Bool)} [Fintype O] : lastAtOwn p a = true ↔ LastAtOwn p a := by
  unfold lastAtOwn LastAtOwn
  split
  · exact decide_eq_true_iff
  · exact iff_of_true rfl trivial

instance {p : Kernel T O × (O → Bool)} [Fintype O] : Decidable (LastAtOwn p a) := decidable_of_iff _ lastAtOwn_iff

/-- Priorities other than their own are for owners, and mutexes got at one's own priority restore it. -/
structure AtOwn (s : Kernel T O) (g : O → Bool) : Prop where
  own : ∀ t, (∀ o, (s.mutex o).owner ≠ some t) → s.sched.priority t = (s.thread t).initPriority
  saved : ∀ o t, (s.mutex o).owner = some t → g o = false →
    (s.mutex o).originalPriority = (s.thread t).initPriority

variable {g : O → Bool}

omit [DecidableEq O] in
theorem raisedLog_same (h : (s'.mutex o).owner = (s.mutex o).owner) : raisedLog s a s' g o = g o := by
  unfold raisedLog
  split
  · rename_i ho
    exact if_pos (h.symm.trans ho)
  · rfl

omit [DecidableEq O] in
theorem raisedLog_new (h : (s'.mutex o).owner = some t) (hne : (s.mutex o).owner ≠ some t) :
    raisedLog s a s' g o = decide (s.sched.priority t ≠ (s.thread t).initPriority) := by
  unfold raisedLog
  rw [h]
  exact if_neg hne

omit [DecidableEq O] in
/-- No owner changes. -/
theorem AtOwn.same (h : AtOwn s g) (ho : ∀ o, (s'.mutex o).owner = (s.mutex o).owner ∧
      (s'.mutex o).originalPriority = (s.mutex o).originalPriority)
    (hi : ∀ u, (s'.thread u).initPriority = (s.thread u).initPriority)
    (hp : ∀ u, (∀ o, (s.mutex o).owner ≠ some u) → s'.sched.priority u = s.sched.priority u) :
    AtOwn s' (raisedLog s a s' g) := by
  refine ⟨fun t ht => ?_, fun o t ht hg => ?_⟩
  · have hno : ∀ o, (s.mutex o).owner ≠ some t := fun o => (ho o).1 ▸ ht o
    rw [hp t hno, hi]
    exact h.own t hno
  · rw [raisedLog_same (ho o).1] at hg
    rw [(ho o).2, hi]
    exact h.saved o t ((ho o).1.symm.trans ht) hg

theorem atOwn_mutexStep {W : List (WaitList O)} (hq : Quiet cfg idle s) (hw : Owned s)
    (hok : LastAtOwn (s, g) a) (hc : s.sched.current = some c) (hf : Frame cfg s r.1 c True W)
    (hm : MutexStep s c o a r) (h : AtOwn s g) : AtOwn (after c r) (raisedLog s a (after c r) g) := by
  have hi : ∀ u, ((after c r).thread u).initPriority = (s.thread u).initPriority := hf.initPriority
  -- what the last release of `c` leaves it with
  have hlast : a = .call (.mutexRelease o) → (s.mutex o).owner = some c → (s.mutex o).hold - 1 = 0#8 →
      (∀ o', o' ≠ o → (s.mutex o').owner ≠ some c) →
      (s.mutex o).originalPriority = (s.thread c).initPriority := by
    rintro rfl how hh hno
    refine h.saved o c how (hok (how.trans hc.symm) hh fun o' ho' => ?_)
    rw [hc]
    exact hno o' ho'
  cases mutexEffect hq hw hc hm with
  | still hmu hpr hwt => exact h.same (fun o => ⟨(hmu o).1, (hmu o).2.2⟩) hi fun u _ => hpr u
  | wait ha ht how hwc hmu hself hother hwt =>
    refine h.same (fun o' => ?_) hi fun u hu => hother u ?_
    · rw [show (after c r).mutex = s.mutex from hmu]
      exact ⟨rfl, rfl⟩
    · rintro rfl
      exact hu o how
  | @own m hv hmu how hval horig hpr hwt =>
    have hm' : (after c r).mutex = Function.update s.mutex o m := hmu
    have hnone : (s.mutex o).owner = none := (hw.value o).resolve_right hv
    refine ⟨fun t ht => ?_, fun o' t ht hg => ?_⟩
    · rw [show (after c r).sched.priority t = _ from hpr t, hi]
      refine h.own t fun o' => ?_
      by_cases ho : o' = o
      · rw [ho, hnone]
        nofun
      · have := ht o'
        rwa [hm', Function.update_of_ne ho] at this
    · by_cases ho : o' = o
      · subst ho
        rw [raisedLog_new ht (by rw [hnone]; nofun)] at hg
        rw [hm', Function.update_self] at ht ⊢
        rw [how] at ht
        cases ht
        rw [horig, hi]
        simpa using hg
      · have hsame : (after c r).mutex o' = s.mutex o' := by rw [hm', Function.update_of_ne ho]
        rw [raisedLog_same (congrArg Mutex.owner hsame)] at hg
        rw [hsame] at ht ⊢
        rw [hi]
        exact h.saved o' t ht hg
  | @free m ha how hh hwn hmu hon hval hself hother hwt =>
    have hm' : (after c r).mutex = Function.update s.mutex o m := hmu
    refine ⟨fun t ht => ?_, fun o' t ht hg => ?_⟩
    · have hno : ∀ o', o' ≠ o → (s.mutex o').owner ≠ some t := fun o' ho => by
        have := ht o'
        rwa [hm', Function.update_of_ne ho] at this
      rw [hi]
      by_cases htc : t = c
      · subst htc
        exact hself.trans (hlast ha how hh hno)
      · refine (hother t htc).trans (h.own t fun o' => ?_)
        by_cases ho : o' = o
        · rw [ho, how]
          exact fun e => htc (Option.some.inj e).symm
        · exact hno o' ho
    · by_cases ho : o' = o
      · subst ho
        rw [hm', Function.update_self, hon] at ht
        cases ht
      · have hsame : (after c r).mutex o' = s.mutex o' := by rw [hm', Function.update_of_ne ho]
        rw [raisedLog_same (congrArg Mutex.owner hsame)] at hg
        rw [hsame] at ht ⊢
        rw [hi]
        exact h.saved o' t ht hg
  | @hand m w l ha how hh hwn hwc hmu hon hval horig hself hother hwt =>
    have hm' : (after c r).mutex = Function.update s.mutex o m := hmu
    refine ⟨fun t ht => ?_, fun o' t ht hg => ?_⟩
    · have hno : ∀ o', o' ≠ o → (s.mutex o').owner ≠ some t := fun o' ho => by
        have := ht o'
        rwa [hm', Function.update_of_ne ho] at this
      rw [hi]
      by_cases htc : t = c
      · subst htc
        exact hself.trans (hlast ha how hh hno)
      · refine (hother t htc).trans (h.own t fun o' => ?_)
        by_cases ho : o' = o
        · rw [ho, how]
          exact fun e => htc (Option.some.inj e).symm
        · exact hno o' ho
    · by_cases ho : o' = o
      · subst ho
        have hnew : ((after c r).mutex o').owner = some w := by rw [hm', Function.update_self, hon]
        rw [hnew] at ht
        cases ht
        rw [raisedLog_new hnew (by rw [how]; exact fun e => hwc (Option.some.inj e).symm)] at hg
        rw [hm', Function.update_self, horig, hi]
        simpa using hg
      · have hsame : (after c r).mutex o' = s.mutex o' := by rw [hm', Function.update_of_ne ho]
        rw [raisedLog_same (congrArg Mutex.owner hsame)] at hg
        rw [hsame] at ht ⊢
        rw [hi]
        exact h.saved o' t ht hg

theorem atOwn_step (hq : Quiet cfg idle s) (hw : Owned s) (hok : LastAtOwn (s, g) a)
    (hs : s.step cfg idle a = some s') (h : AtOwn s g) : AtOwn s' (raisedLog s a s' g) := by
  by_cases ho : ∃ o, .mutex o ∈ a.lists s
  · obtain ⟨o, ho⟩ := ho
    obtain ⟨c, r, hc, ⟨W, hf⟩, -, rfl, hm⟩ := mutexStep_of_mem hq.toSound hs ho
    exact atOwn_mutexStep hq hw hok hc hf hm h
  · have he := elsewhere_step hq.toSound hs fun o hm => ho ⟨o, hm⟩
    refine h.same (fun o => ?_) he.initPriority fun u _ => he.priority_eq hw u
    rw [he.mutex]
    exact ⟨rfl, rfl⟩

/-- Runs that note which mutexes were got at a raised priority. -/
abbrev RaisedRuns (cfg : Config) (idle : T) (ok : Kernel T O × (O → Bool) → Act T O → Prop) :
    Kernel T O × (O → Bool) → Prop :=
  Run.Reach (fun p => p.1.Init cfg ∧ p.2 = fun _ => false)
    (Run.Logged (fun s a s' => s.step cfg idle a = some s') raisedLog) ok

/-- **A thread that owns no mutex has its own priority.** -/
theorem priority_restored {p : Kernel T O × (O → Bool)}
    (h : RaisedRuns cfg idle (fun p a => a.quiet = true ∧ LastAtOwn p a) p) :
    ∀ t, (∀ o, (p.1.mutex o).owner ≠ some t) → p.1.sched.priority t = (p.1.thread t).initPriority := by
  have hI : Quiet cfg idle p.1 ∧ Owned p.1 ∧ AtOwn p.1 p.2 := by
    refine h.inv (I := fun p => Quiet cfg idle p.1 ∧ Owned p.1 ∧ AtOwn p.1 p.2) (fun p hp => ?_)
      fun p a p' hI hok hst => ?_
    · refine ⟨.of_init hp.1, .of_init hp.1, fun t _ => ?_, fun o t ht => ?_⟩
      · have hst : p.1.sched.stat t = .init := by
          obtain ⟨th, hth, hs⟩ := hp.1.sched
          obtain ⟨q, sys, x, cl, hx, hx'⟩ := hth t
          rw [hs]
          show (th t).stat = .init
          rw [hx']
          unfold rtThreadInit at hx
          split at hx <;> cases hx
          rfl
        exact (Owned.of_init hp.1).own t hst
      · obtain ⟨flag, hm⟩ := hp.1.mutex o
        rw [hm] at ht
        cases ht
    · rw [hst.2]
      exact ⟨quiet_step hI.1 hok.1 hst.1, owned_step hI.1 hst.1 hI.2.1,
        atOwn_step hI.1 hI.2.1 hok.2 hst.1 hI.2.2⟩
  exact hI.2.2.own

/-- A thread is raised by a waiter and releases its mutex. -/
theorem priority_restored_one : ∃ p : Kernel ℕ Unit × (Unit → Bool),
    ((p.1.mutex ()).owner = some 10 ∧ p.1.sched.priority 20 = 20) ∧
    ∀ t, (∀ o, (p.1.mutex o).owner ≠ some t) → p.1.sched.priority t = (p.1.thread t).initPriority := by
  obtain ⟨p, hp, h⟩ := Run.Reach.exec_history (fun s a => s.step board 255 a) (fun _ _ => false) raisedLog
    (fun p a => a.quiet = true ∧ LastAtOwn p a) (Kernel.onBoard_init Unit)
    [.boot 255, .boot 20, .start, .call (.mutexTake () (-1)), .call (.startup 10), .schedule,
      .call (.mutexTake () (-1)), .schedule, .switched, .call (.mutexRelease ())]
    (fun p => decide ((p.1.mutex ()).owner = some 10 ∧ p.1.sched.priority 20 = 20)) (by decide +kernel)
  exact ⟨p, of_decide_eq_true h, priority_restored hp⟩

/-- **A mutex that was taken at a raised priority leaves its owner raised.** Thread 20 takes mutex `true`, is
raised to 10, takes mutex `false`, and releases both in this order. -/
theorem priority_stays_raised : ∃ p : Kernel ℕ Bool × (Bool → Bool),
    RaisedRuns board 255 (fun _ a => a.quiet = true) p ∧ (∀ o, (p.1.mutex o).owner ≠ some 20) ∧
    p.1.sched.priority 20 = 10 ∧ (p.1.thread 20).initPriority = 20 := by
  obtain ⟨p, hp, h⟩ := Run.Reach.exec_history (fun s a => s.step board 255 a) (fun _ _ => false) raisedLog
    (fun _ a => a.quiet = true) (Kernel.onBoard_init Bool)
    [.boot 255, .boot 20, .start, .call (.mutexTake true (-1)), .call (.startup 10), .schedule,
      .call (.mutexTake true (-1)), .schedule, .switched, .call (.mutexTake false (-1)),
      .call (.mutexRelease true), .schedule, .switched, .cont 0, .call (.mutexRelease true), .call .suspend,
      .schedule, .switched, .call (.mutexRelease false)]
    (fun p => decide ((∀ o, (p.1.mutex o).owner ≠ some 20) ∧ p.1.sched.priority 20 = 10 ∧
      (p.1.thread 20).initPriority = 20)) (by decide +kernel)
  exact ⟨p, hp, of_decide_eq_true h⟩

/-! ## As urgent as the waiters -/

/-- A thread that raises the owner of the mutex it waits for leaves those at least as urgent for which the
owner waits itself; a last release leaves its caller as urgent as the waiters for its other mutexes, and hands
the mutex to one that is as urgent as the waiters that are left. -/
def BoostsKept (s : Kernel T O) : Act T O → Prop
  | .call (.mutexTake o time) => time ≠ 0 → ∀ c ∈ s.sched.current, ∀ w ∈ (s.mutex o).owner,
    s.sched.priority c < s.sched.priority w → ∀ o', ∀ t ∈ (s.mutex o').owner, w ∈ s.waiting (.mutex o') →
    s.sched.priority t ≤ s.sched.priority c
  | .call (.mutexRelease o) => (s.mutex o).owner = s.sched.current → (s.mutex o).hold - 1 = 0#8 →
    (∀ o', o' ≠ o → (s.mutex o').owner = s.sched.current → ∀ u ∈ s.waiting (.mutex o'),
      (s.mutex o).originalPriority ≤ s.sched.priority u) ∧
    ∀ t ∈ (s.waiting (.mutex o)).head?, ∀ u ∈ s.waiting (.mutex o), s.sched.priority t ≤ s.sched.priority u
  | _ => True

def boostsKept [Fintype O] (s : Kernel T O) : Act T O → Bool
  | .call (.mutexTake o time) => time ≠ 0 → ∀ c ∈ s.sched.current, ∀ w ∈ (s.mutex o).owner,
    s.sched.priority c < s.sched.priority w → ∀ o', ∀ t ∈ (s.mutex o').owner, w ∈ s.waiting (.mutex o') →
    s.sched.priority t ≤ s.sched.priority c
  | .call (.mutexRelease o) => (s.mutex o).owner = s.sched.current → (s.mutex o).hold - 1 = 0#8 →
    (∀ o', o' ≠ o → (s.mutex o').owner = s.sched.current → ∀ u ∈ s.waiting (.mutex o'),
      (s.mutex o).originalPriority ≤ s.sched.priority u) ∧
    ∀ t ∈ (s.waiting (.mutex o)).head?, ∀ u ∈ s.waiting (.mutex o), s.sched.priority t ≤ s.sched.priority u
  | _ => true

theorem boostsKept_iff [Fintype O] : boostsKept s a = true ↔ BoostsKept s a := by
  unfold boostsKept BoostsKept
  split
  · exact decide_eq_true_iff
  · exact decide_eq_true_iff
  · exact iff_of_true rfl trivial

instance [Fintype O] : Decidable (BoostsKept s a) := decidable_of_iff _ boostsKept_iff

/-- **Owners are as urgent as their waiters.** -/
def Inherits (s : Kernel T O) : Prop :=
  ∀ o t, (s.mutex o).owner = some t → ∀ u ∈ s.waiting (.mutex o), s.sched.priority t ≤ s.sched.priority u

theorem inherits_mutexStep (hq : Quiet cfg idle s) (hw : Owned s) (hok : BoostsKept s a)
    (hc : s.sched.current = some c) (hm : MutexStep s c o a r) (h : Inherits s) : Inherits (after c r) := by
  -- a section of a mutex call is one of a running thread, or of one that has been resumed
  have hcw : ∀ o', c ∉ s.waiting (.mutex o') := by
    intro o'
    refine hq.not_waiting (hq.running hc ?_) _
    cases hm with
    | take hpc | release hpc | resumed hpc | own hpc | wait hpc => rw [hpc]; nofun
  -- the mutexes that `c` keeps when it gets priority `p` back
  have hback : a = .call (.mutexRelease o) → (s.mutex o).owner = some c → (s.mutex o).hold - 1 = 0#8 →
      r.1.sched.priority c = (s.mutex o).originalPriority →
      (∀ u, u ≠ c → r.1.sched.priority u = s.sched.priority u) → ∀ o' t, o' ≠ o →
      (s.mutex o').owner = some t → ∀ u ∈ s.waiting (.mutex o'), r.1.sched.priority t ≤ r.1.sched.priority u := by
    rintro rfl how hh hself hother o' t ho ht u hu
    have huc : u ≠ c := by
      rintro rfl
      exact hcw o' hu
    rw [hother u huc]
    by_cases htc : t = c
    · subst htc
      rw [hself]
      exact (hok (how.trans hc.symm) hh).1 o' ho (ht.trans hc.symm) u hu
    · rw [hother t htc]
      exact h o' t ht u hu
  cases mutexEffect hq hw hc hm with
  | still hmu hpr hwt =>
    intro o' t ht u hu
    rw [show (after c r).waiting = s.waiting from hwt] at hu
    show r.1.sched.priority t ≤ r.1.sched.priority u
    rw [hpr, hpr]
    exact h o' t ((hmu o').1.symm.trans ht) u hu
  | @own m hv hmu how hval horig hpr hwt =>
    intro o' t ht u hu
    rw [show (after c r).mutex = _ from hmu] at ht
    rw [show (after c r).waiting = s.waiting from hwt] at hu
    show r.1.sched.priority t ≤ r.1.sched.priority u
    rw [hpr, hpr]
    by_cases ho : o' = o
    · subst ho
      exact absurd hu (hw.empty o' ((hw.value o').resolve_right hv) u)
    · rw [Function.update_of_ne ho] at ht
      exact h o' t ht u hu
  | @wait w time ha htime how hwc hmu hself hother hwt =>
    subst ha
    intro o' t ht u hu
    rw [show (after c r).mutex = s.mutex from hmu] at ht
    show r.1.sched.priority t ≤ r.1.sched.priority u
    have hle : ∀ v, r.1.sched.priority v ≤ s.sched.priority v := by
      intro v
      by_cases hv : v = w
      · rw [hv, hself]
        exact min_le_left _ _
      · rw [hother v hv]
    rcases hwt o' u hu with hu | ⟨rfl, rfl⟩
    swap
    -- the new waiter: it has raised the owner
    · rw [how] at ht
      cases ht
      rw [hself, hother u (Ne.symm hwc)]
      exact min_le_right _ _
    have hold := h o' t ht u hu
    by_cases huw : u = w
    swap
    · rw [hother u huw]
      exact (hle t).trans hold
    subst huw
    rw [hself]
    by_cases hlt : s.sched.priority c < s.sched.priority u
    · rw [min_eq_right hlt.le]
      exact (hle t).trans (hok htime c hc u how hlt o' t ht hu)
    · rw [min_eq_left (not_lt.1 hlt)]
      exact (hle t).trans hold
  | @free m ha how hh hwn hmu hon hval hself hother hwt =>
    intro o' t ht u hu
    rw [show (after c r).mutex = _ from hmu] at ht
    rw [show (after c r).waiting = s.waiting from hwt] at hu
    by_cases ho : o' = o
    · subst ho
      rw [Function.update_self, hon] at ht
      cases ht
    · rw [Function.update_of_ne ho] at ht
      exact hback ha how hh hself hother o' t ho ht u hu
  | @hand m w l ha how hh hwn hwc hmu hon hval horig hself hother hwt =>
    intro o' t ht u hu
    rw [show (after c r).mutex = _ from hmu] at ht
    rw [show (after c r).waiting = _ from hwt] at hu
    by_cases ho : o' = o
    · subst ho
      subst ha
      rw [Function.update_self, hon] at ht
      cases ht
      rw [Function.update_self] at hu
      have hmem : u ∈ s.waiting (.mutex o') := by
        rw [hwn]
        exact List.mem_cons_of_mem _ hu
      have huc : u ≠ c := by
        rintro rfl
        exact hcw o' hmem
      show r.1.sched.priority w ≤ r.1.sched.priority u
      rw [hother w hwc, hother u huc]
      exact (hok (how.trans hc.symm) hh).2 w (by rw [hwn]; rfl) u hmem
    · rw [Function.update_of_ne ho] at ht
      rw [Function.update_of_ne (by simpa using ho)] at hu
      exact hback ha how hh hself hother o' t ho ht u hu

theorem inherits_step (hq : Quiet cfg idle s) (hw : Owned s) (hok : BoostsKept s a)
    (hs : s.step cfg idle a = some s') (h : Inherits s) : Inherits s' := by
  by_cases ho : ∃ o, .mutex o ∈ a.lists s
  · obtain ⟨o, ho⟩ := ho
    obtain ⟨c, r, hc, -, -, rfl, hm⟩ := mutexStep_of_mem hq.toSound hs ho
    exact inherits_mutexStep hq hw hok hc hm h
  · have he := elsewhere_step hq.toSound hs fun o hm => ho ⟨o, hm⟩
    intro o t ht u hu
    rw [he.mutex] at ht
    rw [he.priority_eq hw, he.priority_eq hw]
    exact h o t ht u (he.waiting o u hu)

/-- **The owner of a mutex is at least as urgent as every thread that waits for it.** -/
theorem priority_inherited (h : Runs cfg idle (fun s a => a.quiet = true ∧ BoostsKept s a) s) :
    ∀ o t, (s.mutex o).owner = some t → ∀ u ∈ s.waiting (.mutex o),
      s.sched.priority t ≤ s.sched.priority u := by
  have hI : Quiet cfg idle s ∧ Owned s ∧ Inherits s := by
    refine h.inv (I := fun s => Quiet cfg idle s ∧ Owned s ∧ Inherits s) (fun s hs => ?_)
      fun s a s' hI (hok : a.quiet = true ∧ BoostsKept s a) hst => ?_
    · refine ⟨.of_init hs, .of_init hs, fun o t ht => ?_⟩
      obtain ⟨flag, hm⟩ := hs.mutex o
      rw [hm] at ht
      cases ht
    · exact ⟨quiet_step hI.1 hok.1 hst, owned_step hI.1 hst hI.2.1, inherits_step hI.1 hI.2.1 hok.2 hst hI.2.2⟩
  exact hI.2.2

/-- Threads 10 and 15 wait for thread 20. -/
theorem priority_inherited_two : ∃ s : Kernel ℕ Unit,
    ((s.mutex ()).owner = some 20 ∧ s.waiting (.mutex ()) = [10, 15] ∧ s.sched.priority 20 = 10) ∧
    ∀ o t, (s.mutex o).owner = some t → ∀ u ∈ s.waiting (.mutex o),
      s.sched.priority t ≤ s.sched.priority u := by
  obtain ⟨s, hs, h⟩ := Run.Reach.exec_ok (fun s a => s.step board 255 a)
    (fun s a => a.quiet = true ∧ BoostsKept s a) (Kernel.onBoard_init Unit)
    [.boot 255, .boot 20, .start, .call (.mutexTake () (-1)), .call (.startup 15), .schedule,
      .call (.mutexTake () (-1)), .schedule, .switched, .call (.startup 10), .schedule,
      .call (.mutexTake () (-1)), .schedule]
    (fun s => decide ((s.mutex ()).owner = some 20 ∧ s.waiting (.mutex ()) = [10, 15] ∧
      s.sched.priority 20 = 10)) (by decide +kernel)
  exact ⟨s, of_decide_eq_true h, priority_inherited hs⟩

/-- **A release takes the boost of another mutex back.** Thread 10 waits for mutex `true` of thread 20, which
releases mutex `false`. -/
theorem priority_not_inherited : ∃ s : Kernel ℕ Bool, Runs board 255 (fun _ a => a.quiet = true) s ∧
    (s.mutex true).owner = some 20 ∧ 10 ∈ s.waiting (.mutex true) ∧
    ¬ s.sched.priority 20 ≤ s.sched.priority 10 := by
  obtain ⟨s, hs, h⟩ := Run.Reach.exec_ok (fun s a => s.step board 255 a) (fun _ a => a.quiet = true)
    (Kernel.onBoard_init Bool)
    [.boot 255, .boot 20, .start, .call (.mutexTake true (-1)), .call (.mutexTake false (-1)),
      .call (.startup 10), .schedule, .call (.mutexTake true (-1)), .schedule, .switched,
      .call (.mutexRelease false)]
    (fun s => decide ((s.mutex true).owner = some 20 ∧ 10 ∈ s.waiting (.mutex true) ∧
      ¬ s.sched.priority 20 ≤ s.sched.priority 10)) (by decide +kernel)
  exact ⟨s, hs, of_decide_eq_true h⟩

end RtThread.Ipc
