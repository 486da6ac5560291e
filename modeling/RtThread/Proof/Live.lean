import RtThread.Proof.Frame

/-!
# Who waits where

* `Sound`, `sound_step`: the scheduler's invariant, in every run.
* `Live`, `live_step`: with the scheduler unlocked, a thread is in a wait list exactly as long as it is
  suspended in the `rt_schedule` of a call on that list, and the current thread runs.
* `Quiet`, `quiet_step`: without signals, a waiting thread is woken by its object or by its timer.
* `away_step`, `waiting_step`: what a step on other objects leaves alone.
-/

namespace RtThread.Ipc

open Sched Kernel

variable {T O : Type} [DecidableEq T] [DecidableEq O] {cfg : Config} {s s' s₁ : Kernel T O} {c t : T}
  {own : Prop} {W : List (WaitList O)} {r : Kernel T O × Next O} {idle : T} {a : Act T O}
  {q : WaitList O}

/-- The wait list of a thread in `rt_schedule`. -/
def Pc.sleeps : Pc O → Option (WaitList O)
  | .schedule k | .switched k => k.waits
  | _ => none

/-- A thread is in the `rt_schedule` of a call. -/
def Pc.stopped : Pc O → Bool
  | .schedule _ | .switched _ => true
  | _ => false

omit [DecidableEq O] in
theorem Pc.waits_of_sleeps {p : Pc O} (h : p.sleeps = some q) : p.waits = some q := by
  cases p with
  | schedule k | switched k => exact h
  | user | cont => cases h

omit [DecidableEq O] in
theorem Pc.sleeps_of_waits {p : Pc O} (h : p.waits = some q) (hp : p.stopped = true) :
    p.sleeps = some q := by
  cases p with
  | schedule k | switched k => exact h
  | user | cont => cases hp

omit [DecidableEq O] in
@[simp] theorem Cont.pc_sleeps (k : Cont O) : k.pc.sleeps = none := by cases k <;> rfl

omit [DecidableEq O] in
@[simp] theorem Cont.pc_stopped (k : Cont O) : k.pc.stopped = false := by cases k <;> rfl

omit [DecidableEq O] in
@[simp] theorem Cont.pc_waits (k : Cont O) : k.pc.waits = k.waits := by cases k <;> rfl

omit [DecidableEq O] in
theorem Next.pc_sleeps {n : Next O} : n.pc.sleeps = some q ↔ ∃ k, n = .schedule k ∧ k.waits = some q := by
  cases n with
  | ret e out => exact iff_of_false nofun nofun
  | schedule k => exact ⟨fun h => ⟨k, rfl, h⟩, by rintro ⟨_, ⟨⟩, h⟩; exact h⟩
  | run k => exact iff_of_false nofun nofun

omit [DecidableEq O] in
theorem Next.pc_waits_mem {n : Next O} (h : n.pc.waits = some q) : q ∈ n.lists := by
  cases n with
  | ret e out => cases h
  | schedule k | run k => exact Cont.waits_mem h

/-- What holds in every run. -/
structure Sound (cfg : Config) (idle : T) (s : Kernel T O) : Prop where
  inv : s.sched.Inv cfg
  user : ∃ e out, s.pc idle = .user e out

/-- With the scheduler unlocked. -/
structure Live (cfg : Config) (idle : T) (s : Kernel T O) : Prop extends Sound cfg idle s where
  started : s.sched.current = none → s.handlers = []
  awake : s.sched.current ≠ none → s.sched.stat idle = .ready ∨ s.sched.stat idle = .running
  lockNest : s.sched.lockNest = 0#16
  current : ∀ c, s.sched.current = some c → s.sched.stat c = .running ∨
    s.sched.stat c = .suspend ∧ ∃ k, s.pc c = .schedule k
  waiting : ∀ t q, t ∈ s.waiting q ↔ (s.pc t).sleeps = some q ∧ s.sched.stat t = .suspend
  stopped : ∀ t, s.sched.stat t = .suspend → (s.pc t).stopped = true

omit [DecidableEq T] [DecidableEq O] in
theorem Sound.of_init (h : s.Init cfg) : Sound cfg idle s :=
  ⟨Scheduler.init_inv h.sched, _, _, h.pc idle⟩

omit [DecidableEq T] [DecidableEq O] in
theorem handled_eq (r : Kernel T O × Next O) : ∃ l, handled r = { r.1 with handlers := l } := by
  unfold handled
  split
  · exact ⟨_, rfl⟩
  · exact ⟨_, rfl⟩

omit [DecidableEq O] in
theorem user_setPc {p : Pc O} (h : ∃ e out, s.pc idle = .user e out) (hc : c ≠ idle) :
    ∃ e out, (s.setPc c p).pc idle = .user e out := by
  rw [show (s.setPc c p).pc idle = s.pc idle from Function.update_of_ne hc.symm _ _]
  exact h

/-- **Every step keeps to it.** -/
theorem sound_step (h : Sound cfg idle s) (hs : s.step cfg idle a = some s') : Sound cfg idle s' := by
  have hne : ∀ {c : T} {k : Cont O}, s.pc c = .schedule k ∨ s.pc c = .switched k → c ≠ idle := by
    rintro c k hk rfl
    obtain ⟨e, out, hu⟩ := h.user
    rw [hu] at hk
    rcases hk with hk | hk <;> cases hk
  cases step_cases h.inv h.user hs with
  | boot hc hx =>
    have ht : Touch cfg s.sched _ idle False [] := .makeReady h.inv hx
    exact ⟨ht.inv, h.user⟩
  | start hc hidle hx => exact ⟨(Scheduler.rtSystemSchedulerStart_ok h.inv hc hx).1, h.user⟩
  | call hc hh hidle hpc hr hcd =>
    exact ⟨hcd.frame.inv, user_setPc (by rw [hcd.frame.pc]; exact h.user) hidle⟩
  | schedule hc hh hpc hix hre => exact ⟨hix, user_setPc h.user (hne (.inl hpc))⟩
  | switched hc hh hpc hd =>
    exact ⟨hd.frame.inv, user_setPc (by rw [hd.frame.pc]; exact h.user) (hne (.inr hpc))⟩
  | signalEntry hc hh hd => exact ⟨hd.frame.inv, by rw [hd.frame.pc]; exact h.user⟩
  | cont hc hh hidle hpc hr hf =>
    exact ⟨hf.frame.inv, user_setPc (by rw [hf.frame.pc]; exact h.user) hidle⟩
  | timeout hc hst hf hother hsig hln hix hre => exact ⟨hix, h.user⟩
  | @isr i c r hc ht hr hf =>
    obtain ⟨l, hl⟩ := handled_eq r
    rw [hl]
    exact ⟨hf.frame.inv, by show ∃ e out, r.1.pc idle = _; rw [hf.frame.pc]; exact h.user⟩
  | isrSchedule hh hix hre => exact ⟨hix, h.user⟩
  | @isrCont handlers k r hh hr hf =>
    obtain ⟨l, hl⟩ := handled_eq r
    rw [hl]
    exact ⟨(hf idle).touch.inv, by show ∃ e out, r.1.pc idle = _; rw [(hf idle).off.pc]; exact h.user⟩

/-- The action does not lock the scheduler. -/
def Act.unlocked : Act T O → Bool
  | .call .enterCritical => false
  | _ => true

namespace Live

omit [DecidableEq T] [DecidableEq O] in
theorem of_init (h : s.Init cfg) : Live cfg idle s := by
  have hi := Scheduler.init_inv h.sched
  obtain ⟨th, hth, hs⟩ := h.sched
  have hst : ∀ t, s.sched.stat t = .init := by
    intro t
    obtain ⟨p, sys, x, cl, hx, hx'⟩ := hth t
    rw [hs]
    show (th t).stat = .init
    rw [hx']
    unfold rtThreadInit at hx
    split at hx <;> cases hx
    rfl
  refine { inv := hi, user := ⟨_, _, h.pc idle⟩, started := fun _ => h.handlers,
           awake := fun hc => ?_, lockNest := ?_,
           current := fun c hc => ?_, waiting := fun t q => ?_, stopped := fun t ht => ?_ }
  · rw [hs] at hc
    exact absurd rfl hc
  · rw [hs]
    rfl
  · rw [hs] at hc
    cases hc
  · refine iff_of_false ?_ (by rw [h.pc]; nofun)
    unfold Kernel.waiting
    rw [hs]
    exact List.not_mem_nil
  · rw [hst] at ht
    cases ht

omit [DecidableEq T] [DecidableEq O] in
/-- A thread that goes on in its code, or in a call, is running. -/
theorem running (h : Live cfg idle s) (hc : s.sched.current = some c)
    (hp : ∀ k, s.pc c ≠ .schedule k) : s.sched.stat c = .running := by
  rcases h.current c hc with h | ⟨-, k, h⟩
  · exact h
  · exact absurd h (hp k)

omit [DecidableEq T] [DecidableEq O] in
theorem not_waiting (h : Live cfg idle s) (hst : s.sched.stat c = .running) (q : WaitList O) :
    c ∉ s.waiting q := by
  intro hq
  have := h.inv.suspend_of_mem c q hq
  rw [hst] at this
  cases this

omit [DecidableEq T] [DecidableEq O] in
theorem suspend_of_frame (hf : Frame cfg s s' c own W) {u : T} (hu : u = c → ¬own)
    (hs : s'.sched.stat u = .suspend) : s.sched.stat u = .suspend := by
  rcases hf.stat u with h | h | h | ⟨-, h, ho⟩
  · rw [← h, hs]
  · rw [hs] at h
    cases h
  · rw [hs] at h
    cases h
  · exact absurd ho (hu h)

omit [DecidableEq T] [DecidableEq O] in
/-- What an interrupt handler may do. -/
theorem of_frame (h : Live cfg idle s) (hf : Frame cfg s s' c False W)
    (hn : s'.sched.lockNest = s.sched.lockNest) : Live cfg idle s' where
  inv := hf.inv
  user := by rw [hf.off.pc]; exact h.user
  started := by rw [hf.current, hf.off.handlers]; exact h.started
  awake := by
    intro hc
    rw [hf.current] at hc
    rcases hf.stat idle with hi | hi | hi | ⟨-, -, ho⟩
    · rw [hi]
      exact h.awake hc
    · exact .inl hi
    · exact .inr hi
    · exact ho.elim
  lockNest := hn.trans h.lockNest
  current := by
    intro u hu
    rw [hf.pc]
    rcases hf.stat u with hi | hi | hi | ⟨-, -, ho⟩
    · rw [hi]
      exact h.current u (hf.current ▸ hu)
    · exact absurd hi (hf.inv.current u hu)
    · exact .inl hi
    · exact ho.elim
  waiting := by
    intro u q
    rw [hf.stay u (fun _ => id), h.waiting, hf.pc, and_assoc, and_congr_right_iff]
    intro _
    exact ⟨And.right, fun hs => ⟨suspend_of_frame hf (fun _ => id) hs, hs⟩⟩
  stopped := by
    intro u hu
    rw [hf.pc]
    exact h.stopped u (suspend_of_frame hf (fun _ => id) hu)

omit [DecidableEq T] [DecidableEq O] in
theorem suspend_iff_of_rescheduled {x x' : Scheduler T (WaitList O)} (hre : x.Rescheduled x') (u : T) :
    x'.stat u = .suspend ↔ x.stat u = .suspend := by
  rcases hre.stat u with h | ⟨h₁, h₂⟩ | ⟨h₁, h₂⟩
  · rw [h]
  · simp [h₁, h₂]
  · simp [h₁, h₂]

omit [DecidableEq T] [DecidableEq O] in
/-- `rt_schedule` always finds a thread to run. -/
theorem rescheduled_running (h : Live cfg idle s) (hcur : s.sched.current ≠ none)
    {x : Scheduler T (WaitList O)} (hx : x.Inv cfg) (hre : s.sched.Rescheduled x)
    (hc : x.current = some c) : x.stat c = .running := by
  rcases h.awake hcur with hidle | hidle
  · exact hre.running h.lockNest ⟨idle, hidle⟩ c hc
  · rcases hre.current with hsame | ⟨u, hu, -, hrun⟩
    · have hci : c = idle := by
        rw [hsame, h.inv.running idle hidle] at hc
        exact (Option.some.inj hc).symm
      rcases hre.stat c with hst | ⟨-, hst⟩ | ⟨-, hst⟩
      · rw [hst, hci, hidle]
      · exact hst
      · exact absurd hst (hx.current c hc)
    · rw [hc] at hu
      cases hu
      exact hrun

omit [DecidableEq T] [DecidableEq O] in
theorem rescheduled_awake (h : Live cfg idle s) (hcur : s.sched.current ≠ none)
    {x : Scheduler T (WaitList O)} (hre : s.sched.Rescheduled x) :
    x.stat idle = .ready ∨ x.stat idle = .running := by
  rcases hre.stat idle with hst | ⟨-, hst⟩ | ⟨-, hst⟩
  · rw [hst]
    exact h.awake hcur
  · exact .inr hst
  · exact .inl hst

omit [DecidableEq T] [DecidableEq O] in
/-- `rt_schedule` in an interrupt handler. -/
theorem of_rescheduled (h : Live cfg idle s) (hcur : s.sched.current ≠ none)
    {x : Scheduler T (WaitList O)} (hx : x.Inv cfg) (hre : s.sched.Rescheduled x)
    (hs : s'.sched = x) (hpc : s'.pc = s.pc) : Live cfg idle s' where
  inv := hs ▸ hx
  user := by rw [hpc]; exact h.user
  started := by
    rw [hs]
    intro hn
    rcases hre.current with hc | ⟨u, hu, -⟩
    · exact absurd (hc ▸ hn) hcur
    · rw [hu] at hn
      cases hn
  awake := fun _ => by rw [hs]; exact h.rescheduled_awake hcur hre
  lockNest := by rw [hs, hre.lockNest, h.lockNest]
  current := fun u hu => by
    rw [hs] at hu ⊢
    exact .inl (h.rescheduled_running hcur hx hre hu)
  waiting := by
    intro u q
    rw [hpc, hs, suspend_iff_of_rescheduled hre, ← h.waiting]
    unfold Kernel.waiting
    rw [hs, hre.wait]
  stopped := by
    intro u hu
    rw [hs, suspend_iff_of_rescheduled hre] at hu
    rw [hpc]
    exact h.stopped u hu

omit [DecidableEq O] in
/-- A section of the current thread, which is running. -/
theorem of_section (h : Live cfg idle s) (hc : s.sched.current = some c) (hidle : c ≠ idle)
    (hp : ∀ k, s.pc c ≠ .schedule k) (hf : Frame cfg s r.1 c True W)
    (hcalm : (∀ k, r.2 ≠ .schedule k) → ∀ u, r.1.sched.stat u = s.sched.stat u)
    (hself : (∀ q, c ∉ s.waiting q) → ∀ q, c ∈ r.1.waiting q ↔ ∃ k, r.2 = .schedule k ∧ k.waits = some q)
    (hln : r.1.sched.lockNest = 0#16) : Live cfg idle (after c r) := by
  have hrun := h.running hc hp
  have hpc : ∀ u, u ≠ c → (after c r).pc u = s.pc u := fun u hu => by
    show Function.update r.1.pc c _ u = _
    rw [Function.update_of_ne hu, hf.pc]
  have hpcc : (after c r).pc c = r.2.pc := Function.update_self _ _ _
  refine { inv := hf.inv, user := ?_, started := fun hn => ?_, awake := fun hn => ?_, lockNest := hln,
           current := fun u hu => ?_, waiting := fun u q => ?_, stopped := fun u hu => ?_ }
  · rw [hpc idle hidle.symm]
    exact h.user
  · exact absurd (hf.current.symm.trans hn) (by rw [hc]; nofun)
  · show r.1.sched.stat idle = _ ∨ r.1.sched.stat idle = _
    rcases hf.stat idle with hi | hi | hi | ⟨-, hi, -⟩
    · rw [hi]
      exact h.awake (by rw [hc]; nofun)
    · exact .inl hi
    · exact .inr hi
    · exact absurd hi hidle.symm
  · have huc : u = c := by
      have := hf.current.symm.trans hu
      rw [hc] at this
      exact (Option.some.inj this).symm
    subst huc
    rw [hpcc]
    show r.1.sched.stat u = _ ∨ r.1.sched.stat u = _ ∧ _
    by_cases hk : ∃ k, r.2 = .schedule k
    · obtain ⟨k, hk⟩ := hk
      rw [hk]
      rcases hf.stat u with hi | hi | hi | ⟨hi, -⟩
      · exact .inl (hi.trans hrun)
      · exact absurd hi (hf.inv.current u hu)
      · exact .inl hi
      · exact .inr ⟨hi, k, rfl⟩
    · exact .inl ((hcalm (fun k e => hk ⟨k, e⟩) u).trans hrun)
  · show u ∈ r.1.waiting q ↔ _ ∧ r.1.sched.stat u = .suspend
    by_cases hu : u = c
    · subst hu
      rw [hpcc, Next.pc_sleeps, ← hself (h.not_waiting hrun) q]
      exact ⟨fun hq => ⟨hq, hf.inv.suspend_of_mem u q hq⟩, And.left⟩
    · rw [hf.stay u (fun e => absurd e hu), h.waiting, hpc u hu, and_assoc, and_congr_right_iff]
      intro _
      exact ⟨And.right, fun hs => ⟨suspend_of_frame hf (fun e => absurd e hu) hs, hs⟩⟩
  · change r.1.sched.stat u = .suspend at hu
    by_cases huc : u = c
    · subst huc
      rw [hpcc]
      by_cases hk : ∃ k, r.2 = .schedule k
      · obtain ⟨k, hk⟩ := hk
        rw [hk]
        rfl
      · rw [hcalm (fun k e => hk ⟨k, e⟩) u, hrun] at hu
        cases hu
    · rw [hpc u huc]
      exact h.stopped u (suspend_of_frame hf (fun e => absurd e huc) hu)

omit [DecidableEq O] in
/-- The current thread leaves `rt_schedule`, or goes from one place in it to another. -/
theorem of_pc (h : Live cfg idle s) {p : Pc O} (hc : s.sched.current = some c)
    (hidle : c = idle → ∃ e out, p = .user e out) (hrun : s.sched.stat c = .running) :
    Live cfg idle (s.setPc c p) := by
  have hpc : ∀ u, u ≠ c → (s.setPc c p).pc u = s.pc u := fun u hu => Function.update_of_ne hu _ _
  have hpcc : (s.setPc c p).pc c = p := Function.update_self _ _ _
  refine { h with user := ?_, current := fun u hu => ?_, waiting := fun u q => ?_,
                  stopped := fun u hu => ?_ }
  · by_cases hi : c = idle
    · obtain ⟨e, out, rfl⟩ := hidle hi
      exact ⟨e, out, hi ▸ hpcc⟩
    · rw [hpc idle (Ne.symm hi)]
      exact h.user
  · have : u = c := by
      rw [show (s.setPc c p).sched.current = s.sched.current from rfl, hc] at hu
      exact (Option.some.inj hu).symm
    exact .inl (this ▸ hrun)
  · by_cases hu : u = c
    · subst hu
      refine iff_of_false (h.not_waiting hrun q) ?_
      rintro ⟨-, hs⟩
      rw [show (s.setPc u p).sched.stat u = s.sched.stat u from rfl, hrun] at hs
      cases hs
    · rw [hpc u hu]
      exact h.waiting u q
  · have : u ≠ c := by
      rintro rfl
      rw [show (s.setPc u p).sched.stat u = s.sched.stat u from rfl, hrun] at hu
      cases hu
    rw [hpc u this]
    exact h.stopped u hu

omit [DecidableEq O] in
/-- A thread that was switched away is still in `rt_schedule`. -/
theorem of_switched (h : Live cfg idle s) {p : Pc O} (hc : s.sched.current ≠ some c) (hidle : c ≠ idle)
    (hsl : p.sleeps = (s.pc c).sleeps) (hst : p.stopped = (s.pc c).stopped) :
    Live cfg idle (s.setPc c p) := by
  have hpc : ∀ u, u ≠ c → (s.setPc c p).pc u = s.pc u := fun u hu => Function.update_of_ne hu _ _
  have hpcc : (s.setPc c p).pc c = p := Function.update_self _ _ _
  refine { h with user := ?_, current := fun u hu => ?_, waiting := fun u q => ?_,
                  stopped := fun u hu => ?_ }
  · rw [hpc idle hidle.symm]
    exact h.user
  · rw [hpc u fun e => hc (e ▸ hu)]
    exact h.current u hu
  · refine (h.waiting u q).trans ?_
    by_cases hu : u = c
    · rw [hu, hpcc, hsl]
      rfl
    · rw [hpc u hu]
      rfl
  · by_cases huc : u = c
    · subst huc
      rw [hpcc, hst]
      exact h.stopped u hu
    · rw [hpc u huc]
      exact h.stopped u hu

omit [DecidableEq T] [DecidableEq O] in
/-- The current thread handles its signals. -/
theorem of_handled (h : Live cfg idle s) (hh : Handled cfg s s' c) : Live cfg idle s' where
  inv := hh.frame.inv
  user := by rw [hh.frame.pc]; exact h.user
  started := by rw [hh.frame.current, hh.frame.off.handlers]; exact h.started
  awake := by rw [hh.frame.current, hh.stat]; exact h.awake
  lockNest := hh.lockNest.trans h.lockNest
  current := by
    intro u hu
    rw [hh.stat, hh.frame.pc]
    exact h.current u (hh.frame.current ▸ hu)
  waiting := by
    intro u q
    rw [hh.frame.mem_waiting (by simp), hh.stat, hh.frame.pc, ← h.waiting]
    exact (Touch.suspended h.inv u q).symm
  stopped := by
    intro u hu
    rw [hh.frame.pc]
    exact h.stopped u (by rwa [hh.stat] at hu)

omit [DecidableEq T] [DecidableEq O] in
/-- Interrupt handlers come and go. -/
theorem of_handlers (h : Live cfg idle s) (hc : s.sched.current ≠ none) (l : List (Next O)) :
    Live cfg idle { s with handlers := l } :=
  { h with started := fun hn => absurd hn hc }

omit [DecidableEq O] in
/-- `rt_system_scheduler_start`. -/
theorem of_started (h : Live cfg idle s) (hc : s.sched.current = none) {x : Scheduler T (WaitList O)}
    (hidle : s.sched.stat idle = .ready) (hx : s.sched.rtSystemSchedulerStart cfg = some x) :
    Live cfg idle { s with sched := x } := by
  obtain ⟨hix, hre, hw, hln, u, hu, hur, hrun, hother, -⟩ :=
    Scheduler.rtSystemSchedulerStart_ok h.inv hc hx
  have hsus : ∀ v, x.stat v = .suspend ↔ s.sched.stat v = .suspend := by
    intro v
    by_cases hv : v = u
    · rw [hv, hrun, hur]
      exact iff_of_false nofun nofun
    · rw [hother v hv]
  refine { inv := hix, user := h.user, started := fun hn => ?_, awake := fun _ => ?_,
           lockNest := hln.trans h.lockNest, current := fun v hv => ?_, waiting := fun v q => ?_,
           stopped := fun v hv => h.stopped v ((hsus v).1 hv) }
  · rw [hu] at hn
    cases hn
  · by_cases hv : idle = u
    · exact .inr (hv ▸ hrun)
    · exact .inl ((hother idle hv).trans hidle)
  · rw [hu] at hv
    cases hv
    exact .inl hrun
  · show v ∈ x.list (.wait q) ↔ _ ∧ x.stat v = .suspend
    rw [hw, hsus]
    exact h.waiting v q

end Live

/-- **Every step but `rt_enter_critical` keeps to it.** -/
theorem live_step (h : Live cfg idle s) (ha : a.unlocked = true) (hs : s.step cfg idle a = some s') :
    Live cfg idle s' := by
  have hs := step_cases h.inv h.user hs
  cases hs with
  | boot hc hx =>
    have ht : Touch cfg s.sched _ idle False [] := .makeReady h.inv hx
    exact h.of_frame (.of_touch ht Off.refl.sched) ht.lockNest
  | start hc hidle hx =>
    exact h.of_started hc hidle hx
  | @call a c e out r hc hh hidle hpc hr hcd =>
    refine h.of_section hc hidle (by rw [hpc]; nofun) hcd.frame hcd.calm hcd.self ?_
    rcases hcd.lock with hl | ⟨rfl, -⟩ | ⟨-, ⟨hl, -⟩ | ⟨hl, hpos⟩⟩
    · rw [hl, h.lockNest]
    · cases ha
    · exact hl
    · rw [hl, h.lockNest] at hpos
      exact absurd hpos (by decide)
  | @schedule c k x hc hh hpc hix hre =>
    have hl : Live cfg idle { s with sched := x } := h.of_rescheduled (by rw [hc]; nofun) hix hre rfl rfl
    have hidle : c ≠ idle := by
      rintro rfl
      obtain ⟨e, out, hu⟩ := h.user
      rw [hpc] at hu
      cases hu
    unfold scheduled
    by_cases hx : x.current = some c
    · rw [if_pos hx]
      exact hl.of_pc hx (fun e => absurd e hidle)
        (h.rescheduled_running (by rw [hc]; nofun) hix hre hx)
    · rw [if_neg hx]
      exact hl.of_switched hx hidle (by rw [hpc]; rfl) (by rw [hpc]; rfl)
  | @switched c k s₁ hc hh hpc hd =>
    have hl := h.of_handled hd
    refine hl.of_pc (hd.frame.current.trans hc) (fun e => ?_)
      ((hd.stat c).trans (h.running hc (by rw [hpc]; nofun)))
    obtain ⟨_, _, hu⟩ := h.user
    rw [← e, hpc] at hu
    cases hu
  | signalEntry hc hh hd => exact h.of_handled hd
  | @cont c k elapsed r hc hh hidle hpc hr hf =>
    exact h.of_section hc hidle (by rw [hpc]; nofun) hf.frame hf.calm hf.self (hf.lockNest.trans h.lockNest)
  | @timeout c t x₁ x hc hst hf hother hsig hln hix hre =>
    have hl : Live cfg idle { s with sched := x₁ } := h.of_frame hf hln
    exact hl.of_rescheduled (s := { s with sched := x₁ })
      (by rw [show x₁.current = _ from hf.current, hc]; nofun) hix hre rfl rfl
  | @isr i c r hc ht hr hf =>
    obtain ⟨l, hl⟩ := handled_eq r
    rw [hl]
    exact (h.of_frame hf.frame hf.lockNest).of_handlers (by rw [hf.frame.current, hc]; nofun) l
  | @isrSchedule handlers e out x hh hix hre =>
    have hcur : s.sched.current ≠ none := fun hn => by
      rw [h.started hn] at hh
      cases hh
    exact h.of_rescheduled hcur hix hre rfl rfl
  | @isrCont handlers k r hh hr hf =>
    have hcur : s.sched.current ≠ none := fun hn => by
      rw [h.started hn] at hh
      cases hh
    have hf := (hf idle).framed
    have hl := (h.of_handlers hcur handlers).of_frame hf.frame hf.lockNest
    obtain ⟨l, hl'⟩ := handled_eq r
    rw [hl']
    exact hl.of_handlers (by rw [hf.frame.current]; exact hcur) l

/-! ## Without signals -/

/-- The action neither locks the scheduler nor sends a signal. -/
def Act.quiet (a : Act T O) : Bool :=
  a.unlocked && match a with
    | .call b => !b.kills
    | .isr i => !i.kills
    | _ => true

omit [DecidableEq T] [DecidableEq O] in
theorem Act.unlocked_of_quiet (h : a.quiet = true) : a.unlocked = true :=
  (Bool.and_eq_true_iff.1 h).1

/-- With the scheduler unlocked and no signal sent. -/
structure Quiet (cfg : Config) (idle : T) (s : Kernel T O) : Prop extends Live cfg idle s where
  pending : ∀ u, (s.thread u).sigPending = 0#32

omit [DecidableEq T] [DecidableEq O] in
theorem Quiet.not_signalled (h : Quiet cfg idle s) (u : T) : ¬Signalled (s.thread u) := by
  intro hs
  exact hs (by rw [h.pending, BitVec.zero_and])

omit [DecidableEq T] [DecidableEq O] in
theorem Quiet.of_init (h : s.Init cfg) : Quiet cfg idle s where
  toLive := .of_init h
  pending := by
    intro u
    obtain ⟨th, hth, hs⟩ := h.sched
    obtain ⟨p, sys, x, cl, hx, hx'⟩ := hth u
    unfold thread
    rw [hs]
    show (th u).sigPending = _
    rw [hx']
    unfold rtThreadInit at hx
    split at hx <;> cases hx
    rfl

theorem pending_of_signals {th th' : Thread} (h : signals th' = signals th) :
    th'.sigPending = th.sigPending := congrArg Prod.fst h

omit [DecidableEq T] [DecidableEq O] in
theorem pending_of_restat {x x' : Scheduler T (WaitList O)} (h : x.Restat x') (u : T) :
    (x'.thread u).sigPending = (x.thread u).sigPending := by rw [h u]

/-- A call that sends no signal leaves none pending. -/
theorem call_pending {a : Call T O} (hi : s.sched.Inv cfg) (hc : s.sched.current = some c)
    (ha : a.kills = false) (hp : ∀ u, (s.thread u).sigPending = 0#32)
    (h : s.call cfg c a = some r) (u : T) : (r.1.thread u).sigPending = 0#32 := by
  by_cases hplain : a.plain = true
  · exact (pending_of_signals ((call_section hi hc hplain h).touch.signals u)).trans (hp u)
  cases a with
  | kill | killAlloc | killAppend | killDeliver => cases ha
  | signalMask sig =>
    cases h
    refine Eq.trans ?_ (hp u)
    exact Scheduler.update_field (g := Thread.sigPending)
      (f := fun th => { th with sigMask := th.sigMask &&& ~~~(sigMask sig) }) (fun _ => rfl) u
  | signalUnmask sig =>
    have hmask : ∀ v, ((s.sched.update c fun th =>
        { th with sigMask := th.sigMask ||| sigMask sig }).thread v).sigPending = 0#32 := fun v =>
      (Scheduler.update_field (g := Thread.sigPending)
        (f := fun th => { th with sigMask := th.sigMask ||| sigMask sig }) (fun _ => rfl) v).trans (hp v)
    simp only [call, rtSignalUnmask, signalDeliver, thread, hmask, BitVec.zero_and, if_true,
      Option.some.injEq] at h
    cases h
    exact hmask u
  | enterCritical =>
    cases h
    exact hp u
  | exitCritical =>
    simp only [call] at h
    split at h <;> cases h <;> exact hp u
  | resume t =>
    simp only [call] at h
    split at h
    swap
    · cases h
    simp only [Option.bind_eq_bind, Option.bind_eq_some_iff, Option.pure_def, Option.some.injEq] at h
    obtain ⟨⟨e, x⟩, hx, rfl⟩ := h
    obtain ⟨-, ⟨-, -, rfl⟩ | ⟨-, -, hself, hmv⟩⟩ := Scheduler.rtThreadResume_ok hi hx
    · exact hp u
    · show (x.thread u).sigPending = _
      by_cases hu : u = t
      · rw [hu, hself]
        exact hp t
      · rw [hmv.other u hu]
        exact hp u
  | _ => exact absurd rfl hplain

/-- **Every quiet step keeps to it.** -/
theorem quiet_step (h : Quiet cfg idle s) (ha : a.quiet = true) (hs : s.step cfg idle a = some s') :
    Quiet cfg idle s' := by
  refine ⟨live_step h.toLive (Act.unlocked_of_quiet ha) hs, fun u => ?_⟩
  have hs := step_cases h.inv h.user hs
  have hp := h.pending
  cases hs with
  | boot hc hx =>
    have ht : Touch cfg s.sched _ idle False [] := .makeReady h.inv hx
    exact (pending_of_signals (ht.signals u)).trans (hp u)
  | start hc hidle hx =>
    obtain ⟨-, hre, -⟩ := Scheduler.rtSystemSchedulerStart_ok h.inv hc hx
    exact (pending_of_restat hre u).trans (hp u)
  | @call a c e out r hc hh hidle hpc hr hcd =>
    exact call_pending h.inv hc (by simpa using (Bool.and_eq_true_iff.1 ha).2) hp hr u
  | schedule hc hh hpc hix hre => exact (pending_of_restat hre.restat u).trans (hp u)
  | switched hc hh hpc hd => exact (hd.pending (hp _) u).trans (hp u)
  | signalEntry hc hh hd => exact (hd.pending (hp _) u).trans (hp u)
  | cont hc hh hidle hpc hr hf =>
    exact (pending_of_signals ((resume_section h.inv hc hr).touch.signals u)).trans (hp u)
  | timeout hc hst hf hother hsig hln hix hre =>
    exact ((pending_of_restat hre.restat u).trans (pending_of_signals (hsig u))).trans (hp u)
  | @isr i c r hc ht hr hf =>
    have hk : i.kills = false := by simpa using (Bool.and_eq_true_iff.1 ha).2
    obtain ⟨l, hl⟩ := handled_eq r
    rw [hl]
    exact (pending_of_signals ((isr_section h.inv ht hk hr).touch.signals u)).trans (hp u)
  | isrSchedule hh hix hre => exact (pending_of_restat hre.restat u).trans (hp u)
  | @isrCont handlers k r hh hr hf =>
    obtain ⟨l, hl⟩ := handled_eq r
    rw [hl]
    exact (pending_of_signals ((hf u).touch.signals u)).trans (hp u)

/-! ## Steps on other objects -/

/-- The wait lists of the object that an action is on. -/
def Act.lists (s : Kernel T O) : Act T O → List (WaitList O)
  | .call a => a.lists
  | .cont _ => match s.sched.current with
    | some c => match s.pc c with
      | .cont k => k.lists
      | _ => []
    | none => []
  | .isr i => i.lists
  | .isrCont => match s.handlers with
    | n :: _ => n.lists
    | [] => []
  | _ => []

omit [DecidableEq T] [DecidableEq O] in
theorem Act.lists_cont {k : Cont O} {elapsed : Time} (hc : s.sched.current = some c)
    (hk : s.pc c = .cont k) : (Act.cont elapsed : Act T O).lists s = k.lists := by
  simp [Act.lists, hc, hk]

omit [DecidableEq T] [DecidableEq O] in
theorem Act.lists_isrCont {n : Next O} {l : List (Next O)} (h : s.handlers = n :: l) :
    (Act.isrCont : Act T O).lists s = n.lists := by
  simp [Act.lists, h]

/-- A waiter who was resumed by the object, and has not gone on yet. -/
def Granted (s : Kernel T O) (q : WaitList O) (u : T) : Prop :=
  (s.pc u).waits = some q ∧ u ∉ s.waiting q ∧ (s.thread u).error = .eok

/-- What others leave alone of the threads in a call on list `q`. -/
structure Away (s s' : Kernel T O) (q : WaitList O) : Prop where
  waiting : s'.waiting q = (s.waiting q).filter fun u => s'.sched.stat u = .suspend
  timeout : ∀ u ∈ s.waiting q, s'.sched.stat u ≠ .suspend → (s'.thread u).error = .etimeout
  info : ∀ u ∈ s'.waiting q, waitInfo (s'.thread u) = waitInfo (s.thread u)
  args : ∀ u, (s.pc u).waits = some q → recvArgs (s'.thread u) = recvArgs (s.thread u)
  waits : ∀ u, (s'.pc u).waits = some q ↔ (s.pc u).waits = some q
  granted : ∀ u, Granted s' q u ↔ Granted s q u

namespace Away

omit [DecidableEq T] [DecidableEq O] in
theorem of_frame (h : Quiet cfg idle s) (hp : ∀ u, (s'.thread u).sigPending = 0#32)
    (hf : Frame cfg s s' c own W) (hW : q ∉ W)
    (hc : own → s.sched.stat c = .running ∧ (s.pc c).waits ≠ some q) : Away s s' q := by
  have hcw : ∀ u, u ∈ s.waiting q → ¬(u = c ∧ own) := by
    rintro u hu ⟨rfl, ho⟩
    exact h.not_waiting (hc ho).1 q hu
  -- a thread in a call on `q` keeps its error code while it is not woken
  have herr : ∀ u, (s.pc u).waits = some q → (s.sched.stat u ≠ .suspend ∨ s'.sched.stat u = .suspend) →
      (s'.thread u).error = (s.thread u).error := by
    intro u hu hst
    rcases hf.error u with he | ⟨h₁, h₂, -⟩ | ⟨rfl, ho⟩ | ⟨q', hq', hu'⟩
    · exact he
    · rcases hst with hst | hst
      · exact absurd h₁ hst
      · exact absurd hst h₂
    · exact absurd hu (hc ho).2
    · have := Pc.waits_of_sleeps ((h.waiting u q').1 hu').1
      rw [hu] at this
      cases this
      exact absurd hq' hW
  have htime : ∀ u ∈ s.waiting q, s'.sched.stat u ≠ .suspend → (s'.thread u).error = .etimeout := by
    intro u hu hs
    rcases hf.woken u q hW hu hs with hw | hw | hw | hw
    · exact absurd (by rw [hp, BitVec.zero_and]) hw
    · exact hw
    · have hsl := ((h.waiting u q).1 hu).1
      unfold parked at hw
      split at hw <;> first | (rename_i hpc; rw [hpc] at hsl; cases hsl) | cases hw
    · exact absurd hw (hcw u hu)
  have hargs : ∀ u, (s.pc u).waits = some q → recvArgs (s'.thread u) = recvArgs (s.thread u) := by
    intro u hu
    rcases hf.args u with ha | ⟨rfl, ho⟩ | ⟨q', hq', hu'⟩
    · exact ha
    · exact absurd hu (hc ho).2
    · have := Pc.waits_of_sleeps ((h.waiting u q').1 hu').1
      rw [hu] at this
      cases this
      exact absurd hq' hW
  refine { waiting := hf.wait q hW, timeout := htime, info := fun u hu => ?_, args := hargs,
           waits := fun u => by rw [hf.pc], granted := fun u => ?_ }
  · obtain ⟨hu', hs⟩ := (hf.mem_waiting hW).1 hu
    have hw := Pc.waits_of_sleeps ((h.waiting u q).1 hu').1
    exact Prod.ext (herr u hw (.inr hs)) (hargs u hw)
  · unfold Granted
    rw [hf.pc]
    refine and_congr_right fun hu => ?_
    by_cases hmem : u ∈ s.waiting q
    · refine iff_of_false ?_ fun hn => hn.1 hmem
      rintro ⟨hn, he⟩
      have hs : s'.sched.stat u ≠ .suspend := fun hs => hn ((hf.mem_waiting hW).2 ⟨hmem, hs⟩)
      rw [htime u hmem hs] at he
      cases he
    · have hns : s.sched.stat u ≠ .suspend := fun hs =>
        hmem ((h.waiting u q).2 ⟨Pc.sleeps_of_waits hu (h.stopped u hs), hs⟩)
      rw [herr u hu (.inl hns), and_congr_left_iff]
      intro _
      exact iff_of_true (fun hu' => hmem ((hf.mem_waiting hW).1 hu').1) hmem

omit [DecidableEq T] [DecidableEq O] in
/-- No signal is there to handle. -/
theorem of_handled (h : Quiet cfg idle s) (hd : Handled cfg s s' c) : Away s s' q := by
  have hw : s'.waiting q = s.waiting q := by
    rw [hd.frame.wait q (by simp)]
    simp only [hd.stat]
    exact filter_waiting h.inv q
  have herr : ∀ u, (s'.thread u).error = (s.thread u).error := by
    intro u
    rcases hd.frame.error u with he | ⟨h₁, h₂, -⟩ | ⟨rfl, -⟩ | ⟨q', hq', -⟩
    · exact he
    · exact absurd ((hd.stat u).trans h₁) h₂
    · exact (hd.error fun hs => h.not_signalled u hs.1).1
    · cases hq'
  have hargs : ∀ u, recvArgs (s'.thread u) = recvArgs (s.thread u) := by
    intro u
    rcases hd.frame.args u with ha | ⟨rfl, -⟩ | ⟨q', hq', -⟩
    · exact ha
    · exact hd.args
    · cases hq'
  refine { waiting := ?_, timeout := fun u hu hs => ?_, info := fun u _ => Prod.ext (herr u) (hargs u),
           args := fun u _ => hargs u, waits := fun u => by rw [hd.frame.pc], granted := fun u => ?_ }
  · simp only [hw, hd.stat]
    exact (filter_waiting h.inv q).symm
  · exact absurd ((hd.stat u).trans (h.inv.suspend_of_mem u _ hu)) hs
  · unfold Granted
    rw [hd.frame.pc, hw, herr u]

omit [DecidableEq T] [DecidableEq O] in
/-- `rt_schedule` follows. -/
theorem rescheduled (h : Away s s₁ q) {x : Scheduler T (WaitList O)} (hre : s₁.sched.Rescheduled x)
    (hs : s'.sched = x) (hpc : s'.pc = s₁.pc) : Away s s' q := by
  have hth : ∀ u, s'.thread u = { s₁.thread u with stat := x.stat u } := fun u => by
    unfold thread
    rw [hs]
    exact hre.restat u
  have hw : s'.waiting q = s₁.waiting q := by
    unfold Kernel.waiting
    rw [hs]
    exact hre.wait q
  have hst : ∀ u, s'.sched.stat u = .suspend ↔ s₁.sched.stat u = .suspend := fun u => by
    rw [hs]
    exact Live.suspend_iff_of_rescheduled hre u
  refine { waiting := ?_, timeout := fun u hu hs => ?_, info := fun u hu => ?_, args := fun u hu => ?_,
           waits := fun u => by rw [hpc]; exact h.waits u, granted := fun u => ?_ }
  · simp only [hw, hst]
    exact h.waiting
  · rw [hth]
    exact h.timeout u hu fun e => hs ((hst u).2 e)
  · rw [hw] at hu
    rw [hth]
    exact h.info u hu
  · rw [hth]
    exact h.args u hu
  · rw [← h.granted]
    unfold Granted
    rw [hpc, hw, hth]

omit [DecidableEq O] in
/-- The thread goes on elsewhere. -/
theorem of_pc (h : Away s s' q) {p : Pc O} (hp : p.waits = some q ↔ (s'.pc c).waits = some q) :
    Away s (s'.setPc c p) q := by
  have hpc : ∀ u, ((s'.setPc c p).pc u).waits = some q ↔ (s'.pc u).waits = some q := by
    intro u
    by_cases hu : u = c
    · rw [hu, show (s'.setPc c p).pc c = p from Function.update_self _ _ _]
      exact hp
    · rw [show (s'.setPc c p).pc u = s'.pc u from Function.update_of_ne hu _ _]
  refine { h with waits := fun u => (hpc u).trans (h.waits u), granted := fun u => ?_ }
  rw [← h.granted]
  exact and_congr_left fun _ => hpc u

omit [DecidableEq T] [DecidableEq O] in
theorem refl (h : s.sched.Inv cfg) : Away s s q where
  waiting := (filter_waiting h q).symm
  timeout := fun u hu hs => absurd (h.suspend_of_mem u _ hu) hs
  info := fun _ _ => rfl
  args := fun _ _ => rfl
  waits := fun _ => Iff.rfl
  granted := fun _ => Iff.rfl

end Away

/-- **A step leaves the objects alone that it is not on.** -/
theorem objects_step (h : Sound cfg idle s) (hs : s.step cfg idle a = some s') :
    Objects (a.lists s) s s' := by
  have hs := step_cases h.inv h.user hs
  cases hs with
  | boot hc hx => exact { Off.refl (W := ([] : List (WaitList O))) with }
  | start hc hidle hx => exact { Off.refl (W := ([] : List (WaitList O))) with }
  | call hc hh hidle hpc hr hcd => exact { hcd.frame.off with }
  | schedule hc hh hpc hix hre => exact { Off.refl (W := ([] : List (WaitList O))) with }
  | switched hc hh hpc hd => exact { hd.frame.off with }
  | signalEntry hc hh hd => exact { hd.frame.off with }
  | cont hc hh hidle hpc hr hf =>
    rw [Act.lists_cont hc hpc]
    exact { hf.frame.off with }
  | timeout hc hst hf hother hsig hln hix hre => exact { Off.refl (W := ([] : List (WaitList O))) with }
  | @isr i c r hc ht hr hf =>
    obtain ⟨l, hl⟩ := handled_eq r
    rw [hl]
    exact { hf.frame.off with }
  | isrSchedule hh hix hre =>
    rw [Act.lists_isrCont hh]
    exact { Off.refl (W := ([] : List (WaitList O))) with }
  | @isrCont handlers k r hh hr hf =>
    obtain ⟨l, hl⟩ := handled_eq r
    rw [hl, Act.lists_isrCont hh]
    exact { (hf idle).off with }

omit [DecidableEq O] in
theorem start_rescheduled {x : Scheduler T (WaitList O)} (hi : s.sched.Inv cfg) (hc : s.sched.current = none)
    (h : s.sched.rtSystemSchedulerStart cfg = some x) : s.sched.Rescheduled x := by
  obtain ⟨-, hre, hw, hln, u, hu, hur, hrun, hother, hleast⟩ :=
    Scheduler.rtSystemSchedulerStart_ok hi hc h
  refine { restat := hre, wait := hw, lockNest := hln, stat := fun v => ?_,
           current := .inr ⟨u, hu, hur, hrun⟩, running := fun _ _ v hv => ?_,
           least := fun _ v hv r hr => ?_ }
  · by_cases hv : v = u
    · exact .inr (.inl (hv ▸ ⟨hur, hrun⟩))
    · exact .inl (hother v hv)
  · rw [hu] at hv
    cases hv
    exact hrun
  · rw [hu] at hv
    cases hv
    rw [hre.priority, hre.priority]
    refine hleast r ?_
    rw [← hother r ?_]
    · exact hr
    · rintro rfl
      rw [hrun] at hr
      cases hr

/-- **A quiet step leaves the threads alone that are in a call on another object.** -/
theorem away_step (h : Quiet cfg idle s) (ha : a.quiet = true) (hs : s.step cfg idle a = some s')
    (hq : q ∉ a.lists s) : Away s s' q := by
  have h' := quiet_step h ha hs
  have hs := step_cases h.inv h.user hs
  cases hs with
  | boot hc hx =>
    have ht : Touch cfg s.sched _ idle False [] := .makeReady h.inv hx
    exact .of_frame h h'.pending (.of_touch ht Off.refl.sched) (by simp) False.elim
  | start hc hidle hx => exact (Away.refl h.inv).rescheduled (start_rescheduled h.inv hc hx) rfl rfl
  | @call a c e out r hc hh hidle hpc hr hcd =>
    have hrun := h.running hc (by rw [hpc]; nofun)
    have haway : Away s r.1 q :=
      .of_frame h h'.pending hcd.frame hq fun _ => ⟨hrun, by rw [hpc]; nofun⟩
    refine haway.of_pc (iff_of_false (fun hw => hq (hcd.lists q (Next.pc_waits_mem hw))) ?_)
    rw [hcd.frame.pc, hpc]
    nofun
  | @schedule c k x hc hh hpc hix hre =>
    have haway : Away s { s with sched := x } q := (Away.refl h.inv).rescheduled hre rfl rfl
    refine haway.of_pc ?_
    show _ ↔ (s.pc c).waits = some q
    rw [hpc]
    split
    · rw [Cont.pc_waits]
      rfl
    · rfl
  | @switched c k s₁ hc hh hpc hd =>
    refine (Away.of_handled h hd).of_pc ?_
    rw [hd.frame.pc, hpc, Cont.pc_waits]
    rfl
  | signalEntry hc hh hd => exact .of_handled h hd
  | @cont c k elapsed r hc hh hidle hpc hr hf =>
    rw [Act.lists_cont hc hpc] at hq
    have hrun := h.running hc (by rw [hpc]; nofun)
    have haway : Away s r.1 q := .of_frame h h'.pending hf.frame hq fun _ =>
      ⟨hrun, fun hw => hq (Cont.waits_mem (by rw [hpc] at hw; exact hw))⟩
    refine haway.of_pc (iff_of_false (fun hw => hq (hf.lists q (Next.pc_waits_mem hw))) ?_)
    rw [hf.frame.pc, hpc]
    exact fun hw => hq (Cont.waits_mem hw)
  | @timeout c t x₁ x hc hst hf hother hsig hln hix hre =>
    have hp : ∀ u, (x₁.thread u).sigPending = 0#32 := fun u =>
      (pending_of_signals (hsig u)).trans (h.pending u)
    have haway : Away s { s with sched := x₁ } q := .of_frame h hp hf (by simp) False.elim
    exact haway.rescheduled hre rfl rfl
  | @isr i c r hc ht hr hf =>
    obtain ⟨l, hl⟩ := handled_eq r
    rw [hl] at h' ⊢
    have haway : Away s r.1 q := .of_frame h h'.pending hf.frame hq False.elim
    exact { haway with }
  | isrSchedule hh hix hre => exact (Away.refl h.inv).rescheduled hre rfl rfl
  | @isrCont handlers k r hh hr hf =>
    obtain ⟨l, hl⟩ := handled_eq r
    rw [hl] at h' ⊢
    rw [Act.lists_isrCont hh] at hq
    have hcur : s.sched.current ≠ none := fun hn => by
      rw [h.started hn] at hh
      cases hh
    have hq' : Quiet cfg idle { s with handlers } := ⟨h.toLive.of_handlers hcur handlers, h.pending⟩
    have haway : Away { s with handlers } r.1 q :=
      .of_frame hq' h'.pending (hf idle).framed.frame hq False.elim
    exact { haway with }

/-! ## Steps that wake nobody else -/

omit [DecidableEq T] [DecidableEq O] in
/-- A parked thread waits in no list. -/
theorem Live.not_parked (h : Live cfg idle s) (hu : t ∈ s.waiting q) : s.parked t = false := by
  have hsl := ((h.waiting t q).1 hu).1
  unfold parked
  split <;> first | rfl | (rename_i hpc; rw [hpc] at hsl; cases hsl)

/-- A call on another object that sends no signal. -/
theorem call_waiting {a : Call T O} (h : Live cfg idle s) (hp : ∀ u, (s.thread u).sigPending = 0#32)
    (hc : s.sched.current = some c) (ha : a.kills = false) (hr : s.call cfg c a = some r)
    (hq : q ∉ a.lists) : r.1.waiting q = s.waiting q := by
  by_cases hplain : a.plain = true
  · exact (call_section h.inv hc hplain hr).touch.wait q hq
  cases a with
  | kill | killAlloc | killAppend | killDeliver => cases ha
  | signalMask sig =>
    cases hr
    rfl
  | signalUnmask sig =>
    have hmask : ((s.sched.update c fun th =>
        { th with sigMask := th.sigMask ||| sigMask sig }).thread c).sigPending = 0#32 :=
      (Scheduler.update_field (g := Thread.sigPending)
        (f := fun th => { th with sigMask := th.sigMask ||| sigMask sig }) (fun _ => rfl) c).trans (hp c)
    simp only [call, rtSignalUnmask, signalDeliver, thread, hmask, BitVec.zero_and, if_true,
      Option.some.injEq] at hr
    cases hr
    rfl
  | enterCritical =>
    cases hr
    rfl
  | exitCritical =>
    simp only [call] at hr
    split at hr <;> cases hr <;> rfl
  | resume t =>
    simp only [call] at hr
    split at hr
    swap
    · cases hr
    rename_i hpark
    simp only [Option.bind_eq_bind, Option.bind_eq_some_iff, Option.pure_def, Option.some.injEq] at hr
    obtain ⟨⟨e, x⟩, hx, rfl⟩ := hr
    obtain ⟨-, ⟨-, -, rfl⟩ | ⟨-, -, -, hmv⟩⟩ := Scheduler.rtThreadResume_ok h.inv hx
    · rfl
    · show x.list (.wait q) = s.waiting q
      rw [hmv.wait]
      refine List.filter_eq_self.2 fun u hu => ?_
      have : u ≠ t := by
        rintro rfl
        rw [h.not_parked hu] at hpark
        cases hpark
      simpa using this
  | _ => exact absurd rfl hplain

omit [DecidableEq T] [DecidableEq O] in
theorem Handled.waiting (h : s.sched.Inv cfg) (hd : Handled cfg s s' c) : s'.waiting q = s.waiting q := by
  rw [hd.frame.wait q (by simp)]
  simp only [hd.stat]
  exact filter_waiting h q

/-- **A quiet step leaves a wait list alone**, unless it is on its object or a waiter's timer runs out. -/
theorem waiting_step (h : Quiet cfg idle s) (ha : a.quiet = true) (hs : s.step cfg idle a = some s')
    (hq : q ∉ a.lists s) (ht : ∀ t ∈ s.waiting q, a ≠ .isr (.timeout t)) : s'.waiting q = s.waiting q := by
  cases step_cases h.inv h.user hs with
  | boot hc hx =>
    have ht : Touch cfg s.sched _ idle False [] := .makeReady h.inv hx
    exact ht.wait q (by simp)
  | start hc hidle hx => exact (start_rescheduled h.inv hc hx).wait q
  | @call a c e out r hc hh hidle hpc hr hcd =>
    refine call_waiting h.toLive h.pending hc ?_ hr hq
    simpa using (Bool.and_eq_true_iff.1 ha).2
  | schedule hc hh hpc hix hre => exact hre.wait q
  | @switched c k s₁ hc hh hpc hd =>
    have hw : s₁.waiting q = s.waiting q := hd.waiting h.inv
    exact hw
  | signalEntry hc hh hd => exact hd.waiting h.inv
  | cont hc hh hidle hpc hr hf =>
    rw [Act.lists_cont hc hpc] at hq
    exact (resume_section h.inv hc hr).touch.wait q hq
  | @timeout c t x₁ x hc hst hf hother hsig hln hix hre =>
    refine (hre.wait q).trans ?_
    refine (hf.wait q (by simp)).trans (List.filter_eq_self.2 fun u hu => ?_)
    have hut : u ≠ t := by
      rintro rfl
      exact ht u hu rfl
    rw [decide_eq_true_eq]
    exact (hother u hut).trans (h.inv.suspend_of_mem u q hu)
  | @isr i c r hc ht' hr hf =>
    have hk : i.kills = false := by simpa using (Bool.and_eq_true_iff.1 ha).2
    obtain ⟨l, hl⟩ := handled_eq r
    rw [hl]
    exact (isr_section (c := c) h.inv ht' hk hr).touch.wait q hq
  | isrSchedule hh hix hre => exact hre.wait q
  | @isrCont handlers k r hh hr hf =>
    rw [Act.lists_isrCont hh] at hq
    obtain ⟨l, hl⟩ := handled_eq r
    rw [hl]
    exact (hf idle).touch.wait q hq

end RtThread.Ipc
