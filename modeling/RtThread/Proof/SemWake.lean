import RtThread.Proof.Semaphore
import RtThread.Proof.Mutex

/-!
# What a successful take of a semaphore stands on

`rt_sem_take` knows by `thread->error` alone why it was woken. A release leaves `RT_EOK` there and a
timeout does not, but `_signal_deliver` leaves the error code to `rt_thread_handle_sig`, which changes it
only where a signal has a node, and runs only where `rt_schedule` comes back from a context switch.

* `Unserved`: woken with `RT_EOK`, and by no release.
* `signalled_step`: who is woken with `RT_EOK` by a step elsewhere has a signal pending.
* `sem_take_token`: **a take that returns `RT_EOK` has its token**, as long as every signal that wakes a
  waiter comes to be handled.
* `sem_take_without_token`: it returns `RT_EOK` without one where the signal has no node.
-/

namespace RtThread.Ipc

open Sched Kernel

variable {T O : Type} [DecidableEq T] [DecidableEq O] {cfg : Config} {s s' : Kernel T O} {c t u : T}
  {r : Kernel T O × Next O} {idle : T} {o : O} {a : Act T O} {g g' : SemLog T} {q : WaitList O}

/-- Thread `u` was woken on the semaphore with no error, and by no release. -/
def Unserved (o : O) (p : Kernel T O × SemLog T) (u : T) : Prop :=
  Granted p.1 (.sem o) u ∧ u ∉ p.2.resumed

/-- Who was woken so handles a signal before its take goes on: `rt_schedule` switches to another thread,
and there is a node when it comes back. -/
def WakesHandled (cfg : Config) (o : O) (p : Kernel T O × SemLog T) : Act T O → Prop
  | .schedule => ∀ u ∈ p.1.sched.current, Unserved o p u →
      (p.1.sched.rtSchedule cfg).bind (·.current) ≠ some u
  | .switched => ∀ u ∈ p.1.sched.current, Unserved o p u → (p.1.thread u).siList ≠ []
  | _ => True

/-! ## Waiters and signals -/

omit [DecidableEq O] in
theorem Pc.sleeps_of_stopped {p : Pc O} (h : p.waits = some q) (hs : p.stopped = true) :
    p.sleeps = some q := by
  cases p with
  | schedule | switched => exact h
  | user | cont => cases hs

omit [DecidableEq T] [DecidableEq O] in
theorem Live.mem_waiting (h : Live cfg idle s) (hu : (s.pc u).waits = some q) :
    u ∈ s.waiting q ↔ s.sched.stat u = .suspend := by
  rw [h.waiting]
  exact ⟨And.right, fun hs => ⟨Pc.sleeps_of_stopped hu (h.stopped u hs), hs⟩⟩

omit [DecidableEq T] [DecidableEq O] in
theorem Frame.roused {own : Prop} {W : List (WaitList O)} (hf : Frame cfg s s' c own W)
    (hl : Live cfg idle s) (hW : q ∉ W) (hu : (s.pc u).waits = some q) (hc : own → u ≠ c)
    (hst : s'.sched.stat u ≠ .suspend) (he : (s'.thread u).error = .eok)
    (hsig : s.sched.stat u ≠ .suspend → Signalled (s.thread u)) : Signalled (s'.thread u) := by
  by_cases hs : s.sched.stat u = .suspend
  · have hm : u ∈ s.waiting q := (hl.mem_waiting hu).2 hs
    rcases hf.woken u q hW hm hst with hw | hw | hw | ⟨e, ho⟩
    · exact hw
    · rw [he] at hw
      cases hw
    · rw [hl.not_parked hm] at hw
      cases hw
    · exact absurd e (hc ho)
  · rcases hf.signalled u (hsig hs) with hw | ⟨e, ho⟩
    · exact hw
    · exact absurd e (hc ho)

omit [DecidableEq T] [DecidableEq O] in
theorem Rescheduled.signalled {x x' : Scheduler T (WaitList O)} (h : x.Rescheduled x')
    (hst : x'.stat u ≠ .suspend) (hsig : x.stat u ≠ .suspend → Signalled (x.thread u)) :
    Signalled (x'.thread u) := by
  rw [Ne, Live.suspend_iff_of_rescheduled h] at hst
  rw [h.restat u]
  exact hsig hst

omit [DecidableEq T] [DecidableEq O] in
theorem Handled.roused (hd : Handled cfg s s' c) (hl : Live cfg idle s) (hu : (s.pc u).waits = some q)
    (hst : s'.sched.stat u ≠ .suspend) (he : (s'.thread u).error = .eok)
    (hsig : s.sched.stat u ≠ .suspend → Signalled (s.thread u)) : Signalled (s'.thread u) := by
  by_cases huc : u = c
  · subst huc
    by_cases hh : Handles (s.thread u)
    · rw [hd.eintr hh] at he
      cases he
    · refine (hd.error hh).2 (hsig ?_)
      rwa [← hd.stat]
  · exact hd.frame.roused hl (by simp) hu (fun _ => huc) hst he hsig

/-- **Whoever is woken with `RT_EOK` by a step elsewhere has a signal pending**, and keeps it. -/
theorem signalled_step (h : Live cfg idle s) (hs : s.step cfg idle a = some s') (hq : q ∉ a.lists s)
    (hu : (s.pc u).waits = some q) (hst : s'.sched.stat u ≠ .suspend) (he : (s'.thread u).error = .eok)
    (hsig : s.sched.stat u ≠ .suspend → Signalled (s.thread u)) : Signalled (s'.thread u) := by
  cases step_cases h.inv h.user hs with
  | @boot t x hc hx =>
    have hf : Frame cfg s { s with sched := x } idle False [] :=
      .of_touch (.makeReady h.inv hx) Off.refl.sched
    exact hf.roused h (by simp) hu False.elim hst he hsig
  | start hc hidle hx => exact Rescheduled.signalled (start_rescheduled h.inv hc hx) hst hsig
  | call hc hh hidle hpc hr hcd =>
    have hne := waiter_ne hu hpc (by nofun)
    exact hcd.frame.roused h hq hu (fun _ => hne) hst he hsig
  | schedule hc hh hpc hix hre => exact Rescheduled.signalled hre hst hsig
  | switched hc hh hpc hd => exact hd.roused h hu hst he hsig
  | signalEntry hc hh hd => exact hd.roused h hu hst he hsig
  | cont hc hh hidle hpc hr hf =>
    rw [Act.lists_cont hc hpc] at hq
    have hne := waiter_ne hu hpc fun hk => hq (Cont.waits_mem hk)
    exact hf.frame.roused h hq hu (fun _ => hne) hst he hsig
  | @timeout c t x₁ x hc hst' hf hother hsig' hln hix hre =>
    refine Rescheduled.signalled hre hst fun hst₁ => ?_
    have he' : (x.thread u).error = .eok := he
    rw [hre.restat u] at he'
    exact hf.roused h (by simp) hu False.elim hst₁ he' hsig
  | @isr i c r hc ht hr hf =>
    obtain ⟨l, hl⟩ := handled_eq r
    rw [hl] at hst he ⊢
    exact hf.frame.roused h hq hu False.elim hst he hsig
  | isrSchedule hh hix hre => exact Rescheduled.signalled hre hst hsig
  | @isrCont handlers k r hh hr hf =>
    rw [Act.lists_isrCont hh] at hq
    obtain ⟨l, hl⟩ := handled_eq r
    rw [hl] at hst he ⊢
    have hcur : s.sched.current ≠ none := fun hn => by
      rw [h.started hn] at hh
      cases hh
    exact (hf idle).framed.frame.roused (h.of_handlers hcur handlers) hq hu False.elim hst he hsig

omit [DecidableEq T] [DecidableEq O] in
theorem Pc.sleeps_of_call {p p' : Pc O} (h : p'.call = p.call) (hp : p.sleeps = some q)
    (hs : p'.stopped = true) : p'.sleeps = some q := by
  refine Pc.sleeps_of_stopped ?_ hs
  rw [Pc.waits_eq, h, ← Pc.waits_eq]
  exact Pc.waits_of_sleeps hp

/-- A thread leaves `rt_schedule` by a step of its own. -/
theorem leaves_schedule (h : Live cfg idle s) (hs : s.step cfg idle a = some s') (hq : q ∉ a.lists s)
    (hu : (s.pc u).sleeps = some q) (hu' : (s'.pc u).sleeps ≠ some q) :
    s.sched.current = some u ∧ (a = .switched ∨ a = .schedule ∧ s'.sched.current = some u) := by
  have hw := Pc.waits_of_sleeps hu
  have hcall := (waiter_step h hs hq hw).call
  cases step_cases h.inv h.user hs with
  | boot | start | timeout | isrSchedule => exact absurd hu hu'
  | call hc hh hidle hpc hr hcd =>
    have hne := waiter_ne hw hpc (by nofun)
    refine absurd ?_ hu'
    rwa [show (after _ _).pc u = _ from setPc_pc_ne _ hne, hcd.frame.pc]
  | @schedule c k x hc hh hpc hix hre =>
    by_cases hne : u = c
    · subst hne
      refine ⟨hc, .inr ⟨rfl, ?_⟩⟩
      by_contra (hx : x.current ≠ some u)
      refine hu' ?_
      unfold scheduled
      rw [setPc_pc_self, if_neg hx]
      rwa [hpc] at hu
    · refine absurd ?_ hu'
      unfold scheduled
      rwa [setPc_pc_ne _ hne]
  | @switched c k s₁ hc hh hpc hd =>
    by_cases hne : u = c
    · exact ⟨hne ▸ hc, .inl rfl⟩
    · refine absurd ?_ hu'
      rwa [setPc_pc_ne _ hne, hd.frame.pc]
  | signalEntry hc hh hd =>
    refine absurd ?_ hu'
    rwa [hd.frame.pc]
  | @cont c k elapsed r hc hh hidle hpc hr hf =>
    have hne : u ≠ c := by
      rintro rfl
      rw [hpc] at hu
      cases hu
    refine absurd ?_ hu'
    rwa [show (after c r).pc u = _ from setPc_pc_ne _ hne, hf.frame.pc]
  | @isr i c r hc ht hr hf =>
    obtain ⟨l, hl⟩ := handled_eq r
    refine absurd ?_ hu'
    rw [hl]
    show (r.1.pc u).sleeps = _
    rwa [hf.frame.pc]
  | @isrCont handlers k r hh hr hf =>
    obtain ⟨l, hl⟩ := handled_eq r
    refine absurd ?_ hu'
    rw [hl]
    show (r.1.pc u).sleeps = _
    rwa [(hf idle).framed.frame.pc]

theorem schedule_current (h : s.step cfg idle .schedule = some s') :
    (s.sched.rtSchedule cfg).bind (·.current) = s'.sched.current := by
  simp only [step, Option.bind_eq_some_iff] at h
  obtain ⟨c, -, h⟩ := h
  split at h
  · obtain ⟨x, hx, rfl⟩ := Option.map_eq_some_iff.1 h
    rw [hx]
    rfl
  · cases h

/-- A thread that handles a signal has `RT_EINTR` for its error. -/
theorem handles_eintr (h : Live cfg idle s) (hs : s.step cfg idle a = some s')
    (ha : a = .switched ∨ a = .signalEntry) (hu : s.sched.current = some u) (hh : Handles (s.thread u)) :
    (s'.thread u).error ≠ .eok := by
  cases step_cases h.inv h.user hs with
  | switched hc _ hpc hd | signalEntry hc _ hd =>
    obtain rfl := Option.some.inj (hu.symm.trans hc)
    exact fun he => absurd ((hd.eintr hh).symm.trans he) (by nofun)
  | _ => exact ha.elim nofun nofun

/-- A thread that comes back from a switch is not suspended. -/
theorem awake_of_switched (h : Live cfg idle s) (hs : s.step cfg idle .switched = some s')
    (hu : s.sched.current = some u) : s.sched.stat u ≠ .suspend := by
  cases step_cases h.inv h.user hs with
  | switched hc _ hpc hd =>
    obtain rfl := Option.some.inj (hu.symm.trans hc)
    rw [h.running hu (by rw [hpc]; nofun)]
    nofun

theorem schedule_suspended (h : Live cfg idle s) (hs : s.step cfg idle .schedule = some s')
    (hu : s.sched.stat u = .suspend) : s'.sched.stat u = .suspend := by
  cases step_cases h.inv h.user hs with
  | schedule hc hh hpc hix hre => exact (Live.suspend_iff_of_rescheduled hre u).2 hu

/-! ## Tokens -/

/-- Whoever is woken without a token has a signal to handle first; whoever has one is in its take. -/
structure Tokens (o : O) (s : Kernel T O) (g : SemLog T) : Prop where
  unserved : ∀ u, Unserved o (s, g) u → (s.pc u).sleeps = some (.sem o) ∧ Signalled (s.thread u)
  resumed : ∀ u ∈ g.resumed, (s.pc u).waits = some (.sem o) ∧ u ∉ s.waiting (.sem o)
  nodup : g.resumed.Nodup

omit [DecidableEq T] [DecidableEq O] in
theorem Tokens.of_init (h : s.Init cfg) : Tokens o s (semStart o s) where
  unserved := by
    rintro u ⟨⟨hu, -⟩, -⟩
    rw [h.pc] at hu
    cases hu
  resumed := nofun
  nodup := List.nodup_nil

/-- Steps on other objects. -/
theorem Tokens.elsewhere (h : Live cfg idle s) (h' : Live cfg idle s') (hI : Tokens o s g)
    (hok : WakesHandled cfg o (s, g) a) (hs : s.step cfg idle a = some s') (hq : .sem o ∉ a.lists s) :
    Tokens o s' g where
  unserved := by
    rintro u ⟨⟨hw', hn', he'⟩, hng⟩
    have hw := waits_of_step h hs hq hw'
    have hst' : s'.sched.stat u ≠ .suspend := fun e => hn' ((h'.mem_waiting hw').2 e)
    have hstay := waiter_step h hs hq hw
    -- a thread that was awake before was unserved before
    have hbefore : s.sched.stat u ≠ .suspend → Unserved o (s, g) u := by
      intro hst
      refine ⟨⟨hw, fun hm => hst ((h.mem_waiting hw).1 hm), ?_⟩, hng⟩
      rcases hstay.error with he | ⟨e, -⟩ | ⟨ha, hc, hh⟩
      · exact he ▸ he'
      · exact absurd e hst
      · exact absurd he' (handles_eintr h hs ha hc hh)
    have hsig : Signalled (s'.thread u) :=
      signalled_step h hs hq hw hst' he' fun hst => (hI.unserved u (hbefore hst)).2
    refine ⟨?_, hsig⟩
    have hsl : (s.pc u).sleeps = some (.sem o) := by
      by_cases hst : s.sched.stat u = .suspend
      · exact Pc.sleeps_of_stopped hw (h.stopped u hst)
      · exact (hI.unserved u (hbefore hst)).1
    by_contra hsl'
    obtain ⟨hc, rfl | ⟨rfl, hc'⟩⟩ := leaves_schedule h hs hq hsl hsl'
    · have hst : s.sched.stat u ≠ .suspend := awake_of_switched h hs hc
      have hun := hbefore hst
      exact absurd he' (handles_eintr h hs (.inl rfl) hc ⟨(hI.unserved u hun).2, hok u hc hun⟩)
    · by_cases hst : s.sched.stat u = .suspend
      · exact hst' (schedule_suspended h hs hst)
      · exact hok u hc (hbefore hst) ((schedule_current hs).trans hc')
  resumed := by
    intro u hu
    obtain ⟨hw, hn⟩ := hI.resumed u hu
    have hstay := waiter_step h hs hq hw
    have hw' : (s'.pc u).waits = some (.sem o) := by rw [Pc.waits_eq, hstay.call, ← Pc.waits_eq, hw]
    refine ⟨hw', fun hm => ?_⟩
    exact hstay.stat (fun e => hn ((h.mem_waiting hw).2 e)) ((h'.mem_waiting hw').1 hm)
  nodup := hI.nodup

omit [DecidableEq T] [DecidableEq O] in
theorem Tokens.of_resumed (h : Tokens o s g) (hg : g'.resumed = g.resumed) : Tokens o s g' := by
  refine ⟨fun u hu => h.unserved u ⟨hu.1, ?_⟩, ?_, ?_⟩
  · rw [← hg]
    exact hu.2
  · rw [hg]
    exact h.resumed
  · rw [hg]
    exact h.nodup

omit [DecidableEq O] in
/-- The thread `c` is in no call on the semaphore, before and after. -/
theorem Tokens.setPc {p : Pc O} (h : Tokens o s g) (hp : p.waits = none) (hc : (s.pc c).waits = none) :
    Tokens o (s.setPc c p) g where
  unserved := by
    rintro u ⟨hu, hng⟩
    obtain ⟨hne, hu⟩ := (granted_setPc hp).1 hu
    rw [setPc_pc_ne _ hne]
    exact h.unserved u ⟨hu, hng⟩
  resumed := by
    intro u hu
    have hne : u ≠ c := by
      rintro rfl
      rw [(h.resumed u hu).1] at hc
      cases hc
    rw [setPc_pc_ne _ hne]
    exact h.resumed u hu
  nodup := h.nodup

/-- The caller waits. -/
theorem Tokens.wait {k : Cont O} (h : Tokens o s g) (hc : (s.pc c).waits = none)
    (hk : k.waits = some (.sem o)) (hw : Waits s c (.sem o) k r) : Tokens o (after c r) g := by
  obtain ⟨l, hl, hlist⟩ := hw.list
  have hpc : ∀ u, u ≠ c → (after c r).pc u = s.pc u := fun u hu => by
    rw [show (after c r).pc u = r.1.pc u from setPc_pc_ne _ hu, hw.same]
  refine { unserved := ?_, resumed := fun u hu => ?_, nodup := h.nodup }
  · rintro u ⟨hu, hng⟩
    obtain ⟨hne, hu⟩ := (hw.granted hk).1 hu
    rw [hpc u hne, show (after c r).thread u = s.thread u from hw.other u hne]
    exact h.unserved u ⟨hu, hng⟩
  · have hne : u ≠ c := by
      rintro rfl
      rw [(h.resumed u hu).1] at hc
      cases hc
    rw [hpc u hne]
    refine ⟨(h.resumed u hu).1, ?_⟩
    show u ∉ r.1.waiting _
    rw [hlist, Function.update_self, hl.mem_iff, List.mem_cons, not_or]
    exact ⟨hne, (h.resumed u hu).2⟩

omit [DecidableEq O] in
/-- A take returns. -/
theorem Tokens.back {p : Pc O} (h : Tokens o s g) (hp : p.waits = none)
    (hg : g'.resumed = g.resumed.erase c) : Tokens o (s.setPc c p) g' where
  unserved := by
    rintro u ⟨hu, hng⟩
    obtain ⟨hne, hu⟩ := (granted_setPc hp).1 hu
    rw [setPc_pc_ne _ hne]
    refine h.unserved u ⟨hu, fun hm => hng ?_⟩
    rw [hg]
    exact (List.mem_erase_of_ne hne).2 hm
  resumed := by
    intro u hu
    rw [hg] at hu
    obtain ⟨hne, hu⟩ := h.nodup.mem_erase_iff.1 hu
    rw [setPc_pc_ne _ hne]
    exact h.resumed u hu
  nodup := by
    rw [hg]
    exact h.nodup.erase c

/-- A release hands its token to the first waiter, if there is one. -/
theorem Tokens.release (hl : Live cfg idle s) (h : Tokens o s g) (hr : s.rtSemRelease cfg o = some r) :
    r.2.result = some (.eok, .none) ∧ Tokens o r.1 { g with
      released := g.released + 1
      resumed := (s.waiting (.sem o)).filter (· ∉ r.1.waiting (.sem o)) ++ g.resumed } := by
  have hsec : Section cfg s idle False [.sem o] r := rtSemRelease_section hl.inv hr
  have hsig := hsec.touch.signals
  obtain ⟨t, hw⟩ | ⟨hw, rfl⟩ := rtSemRelease_ok hl.inv hr
  · obtain ⟨l, hlist, hwait⟩ := hw.list
    have hl' : r.1.waiting (.sem o) = l := by rw [hwait, Function.update_self]
    have hsub : ∀ u, u ∈ l → u ∈ s.waiting (.sem o) := fun u hu => hlist ▸ List.mem_cons_of_mem _ hu
    have hpc : r.1.pc = s.pc := by rw [hw.same]
    refine ⟨by rw [hw.next]; rfl, { unserved := ?_, resumed := fun u hu => ?_, nodup := ?_ }⟩
    · rintro u ⟨⟨hu, hn, he⟩, hng⟩
      simp only [List.mem_append, List.mem_filter, decide_eq_true_eq, not_or, not_and, not_not] at hng
      have hn' : u ∉ s.waiting (.sem o) := fun hm => hn (hng.1 hm)
      rw [show (r.1.thread u).error = (s.thread u).error from congrArg Prod.fst (hw.info u)] at he
      rw [hpc] at hu ⊢
      obtain ⟨hsl, hsg⟩ := h.unserved u ⟨⟨hu, hn', he⟩, hng.2⟩
      refine ⟨hsl, ?_⟩
      have := hsig u
      simp only [signals, Prod.mk.injEq] at this
      unfold Signalled thread
      rw [this.1, this.2.1]
      exact hsg
    · rw [hpc]
      rcases List.mem_append.1 hu with hu | hu
      · obtain ⟨hm, hn⟩ := List.mem_filter.1 hu
        exact ⟨Pc.waits_of_sleeps ((hl.waiting u _).1 hm).1, by simpa using hn⟩
      · obtain ⟨hw, hn⟩ := h.resumed u hu
        exact ⟨hw, fun hm => hn (hsub u (hl' ▸ hm))⟩
    · refine ((hl.inv.nodup _).filter _).append h.nodup fun u hu hu' => ?_
      exact (h.resumed u hu').2 (List.mem_filter.1 hu).1
  · rw [hw]
    exact ⟨rfl, h.unserved, h.resumed, h.nodup⟩

/-- **Every step keeps the tokens apart from the signals.** -/
theorem tokens_step (h : Live cfg idle s) (ha : a.unlocked = true) (hok : WakesHandled cfg o (s, g) a)
    (hs : s.step cfg idle a = some s') (hI : Tokens o s g) : Tokens o s' (semLog cfg o s a s' g) := by
  by_cases hW : .sem o ∈ a.lists s
  swap
  · rw [semLog_away hW]
    exact hI.elsewhere h (live_step h ha hs) hok hs hW
  cases step_cases h.inv h.user hs with
  | @call a c e out r hc hh hidle hpc hr hcd =>
    have hout : s.outcome cfg (.call a) = r.2.result := by simp [outcome, ran, hc, hr]
    have hpcw : (s.pc c).waits = none := by rw [hpc]; rfl
    cases a with
    | semTake o' time =>
      obtain rfl : o = o' := by simpa [Act.lists, Call.lists] using hW
      have hlog : (semLog cfg o s (.call (.semTake o time)) (after c r) g).resumed = g.resumed := by
        simp only [semLog]
        split <;> rfl
      have hI' : Tokens o (after c r) g := by
        obtain ⟨hv, rfl⟩ | ⟨hv, rfl | ⟨-, hw⟩⟩ := rtSemTake_ok h.inv hc hr
        · exact Tokens.setPc (s := s.setSem o _) ⟨hI.unserved, hI.resumed, hI.nodup⟩ rfl hpcw
        · exact hI.setPc rfl hpcw
        · exact hI.wait hpcw rfl hw
      exact hI'.of_resumed hlog
    | semRelease o' =>
      obtain rfl : o = o' := by simpa [Act.lists, Call.lists] using hW
      obtain ⟨hres, hI'⟩ := hI.release h hr
      simp only [semLog, hout, hres, and_self, if_true]
      exact hI'.setPc (Next.waits_of_result hres) (by rw [hcd.frame.pc]; exact hpcw)
    | _ => exact absurd hW (by simp [Act.lists, Call.lists])
  | @cont c k elapsed r hc hh hidle hpc hr hf =>
    have hW' := hW
    rw [Act.lists_cont hc hpc] at hW'
    cases k with
    | semTake o' =>
      obtain rfl : o = o' := by simpa [Cont.lists] using hW'
      cases hr
      simp only [semLog, hc, hpc, if_true]
      exact hI.back rfl rfl
    | _ => exact absurd hW' (by simp [Cont.lists])
  | @isr i c r hc ht hr hf =>
    have hout : s.outcome cfg (.isr i) = r.2.result := by simp [outcome, ran, hc, hr]
    cases i with
    | semTrytake o' =>
      obtain rfl : o = o' := by simpa [Act.lists, Isr.lists] using hW
      have hlog : (semLog cfg o s (.isr (.semTrytake o)) (handled r) g).resumed = g.resumed := by
        simp only [semLog]
        split <;> rfl
      have hI' : Tokens o (handled r) g := by
        obtain ⟨hv, rfl⟩ | ⟨hv, rfl | ⟨ht, -⟩⟩ := rtSemTake_ok h.inv hc hr
        · exact ⟨hI.unserved, hI.resumed, hI.nodup⟩
        · exact hI
        · exact absurd rfl ht
      exact hI'.of_resumed hlog
    | semRelease o' =>
      obtain rfl : o = o' := by simpa [Act.lists, Isr.lists] using hW
      obtain ⟨hres, hI'⟩ := hI.release h hr
      obtain ⟨l, hl⟩ := handled_eq r
      simp only [semLog, hout, hres, and_self, if_true, hl]
      exact ⟨hI'.unserved, hI'.resumed, hI'.nodup⟩
    | _ => exact absurd hW (by simp [Act.lists, Isr.lists])
  | timeout => exact absurd hW (by simp [Act.lists, Isr.lists])
  | isrSchedule hh => exact absurd hW (by simp [Act.lists_isrCont hh, Next.lists, Cont.lists])
  | @isrCont handlers k r hh hr hf =>
    rw [Act.lists_isrCont hh] at hW
    cases k with
    | semTake => cases hr
    | _ => exact absurd hW (by simp [Next.lists, Cont.lists])
  | _ => exact absurd hW (by simp [Act.lists])

/-- Runs that count the tokens of a semaphore. -/
abbrev SemRuns (cfg : Config) (idle : T) (o : O) (ok : Kernel T O × SemLog T → Act T O → Prop) :
    Kernel T O × SemLog T → Prop :=
  Run.Reach (fun p => p.1.Init cfg ∧ p.2 = semStart o p.1)
    (Run.Logged (fun s a s' => s.step cfg idle a = some s') (semLog cfg o)) ok

/-- **A take that returns `RT_EOK` has its token**: the value was decremented for it, or a release
resumed it. -/
theorem sem_take_token {p : Kernel T O × SemLog T}
    (h : SemRuns cfg idle o (fun p a => a.unlocked = true ∧ WakesHandled cfg o p a) p) :
    (∀ c time s', p.1.rtSemTake cfg c o time = some (s', .ret .eok .none) →
      0 < (p.1.sem o).value ∧ (s'.sem o).value = (p.1.sem o).value - 1) ∧
    (∀ c elapsed s', p.1.pc c = .cont (.semTake o) →
      p.1.resume cfg c elapsed (.semTake o) = some (s', .ret .eok .none) → c ∈ p.2.resumed) ∧
    p.2.resumed.Nodup ∧
    ∀ c ∈ p.2.resumed, (p.1.pc c).waits = some (.sem o) ∧ c ∉ p.1.waiting (.sem o) := by
  obtain ⟨hl, hI⟩ : Live cfg idle p.1 ∧ Tokens o p.1 p.2 := by
    refine h.inv (I := fun p => Live cfg idle p.1 ∧ Tokens o p.1 p.2) (fun p hp => ?_)
      fun p a p' hI hok hst => ?_
    · rw [hp.2]
      exact ⟨.of_init hp.1, .of_init hp.1⟩
    · rw [hst.2]
      exact ⟨live_step hI.1 hok.1 hst.1, tokens_step hI.1 hok.1 hok.2 hst.1 hI.2⟩
  refine ⟨fun c time s' hr => ?_, fun c elapsed s' hpc hr => ?_, hI.nodup, hI.resumed⟩
  · unfold rtSemTake at hr
    simp only at hr
    split at hr
    · rename_i hv
      cases hr
      simp only [Kernel.setSem, Function.update_self]
      exact ⟨hv, trivial⟩
    · split at hr
      · cases hr
      · simp only [suspendOn, Option.bind_eq_bind, Option.bind_eq_some_iff, Option.pure_def] at hr
        obtain ⟨x, -, hr⟩ := hr
        cases hr
  · simp only [resume, Option.some.injEq, Prod.mk.injEq, Next.ret.injEq] at hr
    obtain ⟨-, he, -⟩ := hr
    have hw : (p.1.pc c).waits = some (.sem o) := by rw [hpc]; rfl
    by_contra hn
    have hst : p.1.sched.stat c ≠ .suspend := fun e => by
      have := hl.stopped c e
      rw [hpc] at this
      cases this
    obtain ⟨hsl, -⟩ := hI.unserved c ⟨⟨hw, fun hm => hst ((hl.mem_waiting hw).1 hm), he⟩, hn⟩
    rw [hpc] at hsl
    cases hsl

instance {p : Kernel T O × SemLog T} : Decidable (Unserved o p u) := by
  unfold Unserved Granted
  infer_instance

def wakesHandled (cfg : Config) (o : O) (p : Kernel T O × SemLog T) : Act T O → Bool
  | .schedule => ∀ u ∈ p.1.sched.current, Unserved o p u →
      (p.1.sched.rtSchedule cfg).bind (·.current) ≠ some u
  | .switched => ∀ u ∈ p.1.sched.current, Unserved o p u → (p.1.thread u).siList ≠ []
  | _ => true

theorem wakesHandled_iff {p : Kernel T O × SemLog T} : wakesHandled cfg o p a = true ↔ WakesHandled cfg o p a := by
  unfold wakesHandled WakesHandled
  split
  · exact decide_eq_true_iff
  · exact decide_eq_true_iff
  · exact iff_of_true rfl trivial

instance {p : Kernel T O × SemLog T} : Decidable (WakesHandled cfg o p a) := decidable_of_iff _ wakesHandled_iff

/-- A signal interrupts a take of thread 10; its next one gets a token. -/
theorem sem_take_token_second : ∃ p : Kernel ℕ Unit × SemLog ℕ,
    ((p.1.thread 10).error = .eok ∧ p.1.pc 10 = .cont (.semTake ()) ∧ p.2.resumed = [10]) ∧
    (∀ c time s', p.1.rtSemTake board c () time = some (s', .ret .eok .none) →
      0 < (p.1.sem ()).value ∧ (s'.sem ()).value = (p.1.sem ()).value - 1) ∧
    (∀ c elapsed s', p.1.pc c = .cont (.semTake ()) →
      p.1.resume board c elapsed (.semTake ()) = some (s', .ret .eok .none) → c ∈ p.2.resumed) ∧
    p.2.resumed.Nodup ∧
    ∀ c ∈ p.2.resumed, (p.1.pc c).waits = some (.sem ()) ∧ c ∉ p.1.waiting (.sem ()) := by
  obtain ⟨p, hp, h⟩ := Run.Reach.exec_history (fun s a => s.step board 255 a) (semStart ())
    (semLog board ()) (fun p a => a.unlocked = true ∧ WakesHandled board () p a)
    (Kernel.onBoard_init Unit)
    [.boot 255, .boot 20, .start, .call (.startup 10), .schedule, .call (.signalUnmask 5),
      .call (.semTake () (-1)), .schedule, .switched, .call (.kill 10 5), .call .killAlloc,
      .call (.killAppend 10 5), .call (.killDeliver 10), .schedule, .switched, .cont 0,
      .call (.semTake () (-1)), .schedule, .switched, .call (.semRelease ()), .schedule, .switched]
    (fun p => decide ((p.1.thread 10).error = .eok ∧ p.1.pc 10 = .cont (.semTake ()) ∧ p.2.resumed = [10]))
    (by decide +kernel)
  exact ⟨p, of_decide_eq_true h, sem_take_token hp⟩

/-- **A take returns `RT_EOK` without a token.** Thread 20 sends 32 signals to thread 30, which masks them,
and then signal 5 to thread 10, which waits: there is no node left. -/
theorem sem_take_without_token : ∃ p : Kernel ℕ Unit × SemLog ℕ,
    SemRuns board 255 () (fun _ a => a.unlocked = true) p ∧ p.1.sched.current = some 10 ∧
      p.1.pc 10 = .cont (.semTake ()) ∧
      p.1.resume board 10 0 (.semTake ()) = some (p.1, .ret .eok .none) ∧
      p.2 = { initial := 0, taken := 0, resumed := [], released := 0 } := by
  obtain ⟨p, hp, h⟩ := Run.Reach.exec_history (fun s a => s.step board 255 a) (semStart ())
    (semLog board ()) (fun _ a => a.unlocked = true) (Kernel.onBoard_init Unit)
    ([.boot 255, .boot 20, .start] ++
      (List.range 32).flatMap (fun sig => [.call (.kill 30 sig), .call .killAlloc,
        .call (.killAppend 30 sig), .call (.killDeliver 30)]) ++
      [.call (.startup 10), .schedule, .call (.signalUnmask 5), .call (.semTake () (-1)), .schedule,
        .switched, .call (.kill 10 5), .call .killAlloc, .call (.killDeliver 10), .schedule, .switched])
    (fun p => decide (p.1.sched.current = some 10 ∧ p.1.pc 10 = .cont (.semTake ()) ∧
      (p.1.thread 10).error = .eok ∧ p.2 = { initial := 0, taken := 0, resumed := [], released := 0 }))
    (by decide +kernel)
  obtain ⟨hc, hpc, he, hg⟩ := of_decide_eq_true h
  refine ⟨p, hp, hc, hpc, ?_, hg⟩
  simp only [resume, he]

end RtThread.Ipc
