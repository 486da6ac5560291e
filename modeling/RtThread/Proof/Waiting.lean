import RtThread.Spec.History
import RtThread.Proof.Live

/-!
# Waiting and waking

How the threads in calls on a wait list change when one more waits (`Waits`), when the first one is
woken (`Wakes`), and when one goes on in its call.
-/

namespace RtThread.Ipc

open Sched Kernel

variable {T O : Type} [DecidableEq T] [DecidableEq O] {cfg : Config} {s s' : Kernel T O} {c t u : T}
  {r : Kernel T O × Next O} {idle : T} {q q' : WaitList O} {k : Cont O}

omit [DecidableEq T] [DecidableEq O] in
theorem Next.waits_of_result {n : Next O} {x : Err × Out} (h : n.result = some x) : n.pc.waits = none := by
  unfold Next.result at h
  split at h
  · rfl
  · rfl
  · cases h

omit [DecidableEq T] [DecidableEq O] in
theorem lists_of_goesOn {a : Act T O} (h : s.goesOn a = some k) : a.lists s = k.lists := by
  cases a with
  | cont elapsed =>
    obtain ⟨c, hc, h⟩ := Option.bind_eq_some_iff.1 h
    split at h
    · rename_i hpc
      cases h
      exact Act.lists_cont hc hpc
    · cases h
  | isrCont =>
    simp only [goesOn] at h
    split at h
    · rename_i hh
      cases h
      exact Act.lists_isrCont hh
    · cases h
  | _ => cases h

/-- The section ends with `c` waiting in list `q`. -/
structure Waits (s : Kernel T O) (c : T) (q : WaitList O) (k : Cont O) (r : Kernel T O × Next O) :
    Prop where
  next : r.2 = .schedule k
  same : r.1 = { s with sched := r.1.sched }
  error : (r.1.thread c).error = .eok
  other : ∀ u, u ≠ c → r.1.thread u = s.thread u
  list : ∃ l, l.Perm (c :: s.waiting q) ∧ r.1.waiting = Function.update s.waiting q l

/-- The section ends with `t`, the first one in list `q`, woken. -/
structure Wakes (s : Kernel T O) (t : T) (q : WaitList O) (k : Cont O) (r : Kernel T O × Next O) :
    Prop where
  next : r.2 = .schedule k
  same : r.1 = { s with sched := r.1.sched }
  info : ∀ u, waitInfo (r.1.thread u) = waitInfo (s.thread u)
  list : ∃ l, s.waiting q = t :: l ∧ r.1.waiting = Function.update s.waiting q l

theorem suspendOn_waits {flag : IpcFlag} {time : Time} (hi : s.sched.Inv cfg)
    (hc : s.sched.current = some c) (h : (s.setError c .eok).suspendOn cfg c q flag time k = some r) :
    Waits s c q k r := by
  obtain ⟨hn, hr, -, -, hself, hother, hl, -, -⟩ := suspendOn_ok (setError_inv hi c .eok) hc h
  refine { next := hn, same := hr, error := ?_, other := fun u hu => ?_, list := hl }
  · rw [hself]
    exact congrArg Thread.error (Scheduler.update_thread_self (s := s.sched) fun th => { th with error := .eok })
  · rw [hother u hu]
    exact Scheduler.update_thread_ne (s := s.sched) hu fun th => { th with error := .eok }

theorem resumeFirst_wakes (hi : s.sched.Inv cfg) (h : s.resumeFirst cfg q k = some r) :
    ∃ t, Wakes s t q k r := by
  obtain ⟨t, l, hl, hn, hr, hw, hinfo⟩ := resumeFirst_ok hi h
  exact ⟨t, hn, hr, hinfo, l, hl, hw⟩

omit [DecidableEq O] in
theorem granted_setPc {p : Pc O} (hp : p.waits = none) :
    Granted (s.setPc c p) q u ↔ u ≠ c ∧ Granted s q u := by
  unfold Granted
  by_cases hu : u = c
  · rw [hu, show (s.setPc c p).pc c = p from Function.update_self _ _ _, hp]
    exact iff_of_false nofun fun h => h.1 rfl
  · rw [show (s.setPc c p).pc u = s.pc u from Function.update_of_ne hu _ _, and_iff_right hu]
    rfl

theorem Waits.granted (hw : Waits s c q k r) (hk : k.waits = some q) :
    Granted (after c r) q' u ↔ u ≠ c ∧ Granted s q' u := by
  obtain ⟨l, hl, hlist⟩ := hw.list
  have hwait : (after c r).waiting q' = Function.update s.waiting q l q' := congrFun hlist q'
  unfold Granted
  rw [hwait]
  by_cases hu : u = c
  · refine iff_of_false ?_ fun h => h.1 hu
    rw [hu, show (after c r).pc c = r.2.pc from Function.update_self _ _ _, hw.next]
    rintro ⟨hq, hn, -⟩
    have : q' = q := by
      have : k.waits = some q' := hq
      rw [hk] at this
      exact (Option.some.inj this).symm
    rw [this, Function.update_self, hl.mem_iff] at hn
    exact hn List.mem_cons_self
  · rw [show (after c r).pc u = r.1.pc u from Function.update_of_ne hu _ _, hw.same, and_iff_right hu,
      show (after c r).thread u = s.thread u from hw.other u hu]
    by_cases hq : q' = q
    · subst hq
      rw [Function.update_self, hl.mem_iff, List.mem_cons, or_iff_right hu]
    · rw [Function.update_of_ne hq]

theorem Wakes.granted (hl : Live cfg idle s) (hw : Wakes s t q k r) (he : (s.thread t).error = .eok) :
    Granted r.1 q' u ↔ u = t ∧ q' = q ∨ Granted s q' u := by
  obtain ⟨l, hlist, hwait⟩ := hw.list
  have hnd : (t :: l).Nodup := hlist ▸ hl.inv.nodup _
  have herr : (r.1.thread u).error = (s.thread u).error := congrArg Prod.fst (hw.info u)
  unfold Granted
  rw [hwait, herr, hw.same]
  by_cases hq : q' = q
  · subst hq
    rw [Function.update_self, hlist]
    by_cases hu : u = t
    · subst hu
      have hmem : u ∈ s.waiting q' := by
        rw [hlist]
        exact List.mem_cons_self
      exact iff_of_true ⟨Pc.waits_of_sleeps ((hl.waiting u q').1 hmem).1, (List.nodup_cons.1 hnd).1, he⟩
        (.inl ⟨rfl, rfl⟩)
    · rw [List.mem_cons, or_iff_right hu]
      exact ⟨.inr, fun h => h.resolve_left fun e => hu e.1⟩
  · rw [Function.update_of_ne hq]
    exact ⟨.inr, fun h => h.resolve_left fun e => hq e.2⟩

/-- The section ends with an error, and may have set the error code of `c`. -/
structure Quits (s : Kernel T O) (c : T) (r : Kernel T O × Next O) : Prop where
  next : ∃ e, r.2 = .ret e .none ∧ e ≠ .eok
  same : r.1 = { s with sched := r.1.sched }
  other : ∀ u, u ≠ c → r.1.thread u = s.thread u
  waiting : r.1.waiting = s.waiting

omit [DecidableEq O] in
theorem Quits.granted (hq : Quits s c r) : Granted (after c r) q u ↔ u ≠ c ∧ Granted s q u := by
  obtain ⟨e, hn, -⟩ := hq.next
  have hpc : r.2.pc.waits = none := by rw [hn]; rfl
  refine (granted_setPc (s := r.1) hpc).trans (and_congr_right fun hu => ?_)
  unfold Granted
  rw [hq.waiting, hq.other u hu, hq.same]

/-- At least `n` threads satisfy `P`. -/
def AtLeast (P : T → Prop) (n : ℕ) : Prop := ∃ l : List T, l.Nodup ∧ (∀ t ∈ l, P t) ∧ n ≤ l.length

/-- Enough waiters of a list are resumed for `n` of them to be served: if some still wait, at least `n` others
are on their way. Those who wait have no error. -/
structure Served (s : Kernel T O) (q : WaitList O) (n : ℕ) : Prop where
  resumed : s.waiting q ≠ [] → AtLeast (Granted s q) n
  error : ∀ u ∈ s.waiting q, (s.thread u).error = .eok

omit [DecidableEq T] in
theorem AtLeast.mono {P Q : T → Prop} {m n : ℕ} (h : AtLeast P n) (hPQ : ∀ t, P t → Q t) (hmn : m ≤ n) :
    AtLeast Q m := by
  obtain ⟨l, hnd, hl, hn⟩ := h
  exact ⟨l, hnd, fun t ht => hPQ t (hl t ht), hmn.trans hn⟩

omit [DecidableEq T] in
theorem AtLeast.cons {P Q : T → Prop} {n : ℕ} (h : AtLeast P n) (hPQ : ∀ t, P t → Q t) (hc : Q c)
    (hnc : ¬P c) : AtLeast Q (n + 1) := by
  obtain ⟨l, hnd, hl, hn⟩ := h
  refine ⟨c :: l, List.nodup_cons.2 ⟨fun hm => hnc (hl c hm), hnd⟩, fun t ht => ?_,
    Nat.succ_le_succ hn⟩
  rcases List.mem_cons.1 ht with rfl | ht
  · exact hc
  · exact hPQ t (hl t ht)

/-- One of them leaves. -/
theorem AtLeast.erase {P Q : T → Prop} {n : ℕ} (h : AtLeast P n) (hPQ : ∀ t, t ≠ c → P t → Q t) :
    AtLeast Q (n - 1) := by
  obtain ⟨l, hnd, hl, hn⟩ := h
  refine ⟨l.erase c, hnd.erase c, fun t ht => ?_, ?_⟩
  · obtain ⟨hne, ht⟩ := (hnd.mem_erase_iff).1 ht
    exact hPQ t hne (hl t ht)
  · rw [List.length_erase]
    split <;> omega

namespace Served

variable {n m : ℕ}

omit [DecidableEq T] [DecidableEq O] in
theorem of_init (h : s.Init cfg) : Served s q n := by
  obtain ⟨th, -, hs⟩ := h.sched
  have hw : s.waiting q = [] := by
    unfold Kernel.waiting
    rw [hs]
    rfl
  exact ⟨fun hne => absurd hw hne, fun u hu => by rw [hw] at hu; cases hu⟩

omit [DecidableEq T] [DecidableEq O] in
theorem mono (h : Served s q n) (hm : m ≤ n) : Served s q m :=
  ⟨fun hw => (h.resumed hw).mono (fun _ => id) hm, h.error⟩

omit [DecidableEq T] [DecidableEq O] in
/-- Nobody waits. -/
theorem of_nil (h : s.waiting q = []) : Served s q n :=
  ⟨fun hne => absurd h hne, fun u hu => by rw [h] at hu; cases hu⟩

omit [DecidableEq T] [DecidableEq O] in
theorem away (h : Served s q n) (ha : Away s s' q) : Served s' q n where
  resumed := by
    intro hw
    refine (h.resumed fun hn => hw ?_).mono (fun t ht => (ha.granted t).2 ht) le_rfl
    rw [ha.waiting, hn]
    rfl
  error := by
    intro u hu
    have hu' := hu
    rw [ha.waiting] at hu'
    exact (congrArg Prod.fst (ha.info u hu)).trans (h.error u (List.mem_filter.1 hu').1)

/-- The first waiter is woken. -/
theorem wake (h : Served s q n) (hl : Live cfg idle s) (hw : Wakes s t q k r) : Served r.1 q (n + 1) where
  resumed := by
    obtain ⟨l, hlist, -⟩ := hw.list
    have hmem : t ∈ s.waiting q := hlist ▸ List.mem_cons_self
    intro _
    refine (h.resumed (List.ne_nil_of_mem hmem)).cons (c := t) (fun u hu => ?_) ?_ fun hg => hg.2.1 hmem
    · exact (hw.granted hl (h.error t hmem)).2 (.inr hu)
    · exact (hw.granted hl (h.error t hmem)).2 (.inl ⟨rfl, rfl⟩)
  error := by
    intro u hu
    obtain ⟨l, hlist, hwait⟩ := hw.list
    rw [show (r.1.thread u).error = (s.thread u).error from congrArg Prod.fst (hw.info u)]
    rw [hwait, Function.update_self] at hu
    exact h.error u (hlist ▸ List.mem_cons_of_mem _ hu)

omit [DecidableEq T] in
/-- A waiter of another list is woken. -/
theorem wake_other (h : Served s q n) (hw : Wakes s t q' k r) (hq : q ≠ q') : Served r.1 q n where
  resumed := by
    obtain ⟨l, hlist, hwait⟩ := hw.list
    intro hne
    rw [hwait, Function.update_of_ne hq] at hne
    refine (h.resumed hne).mono (fun u hu => ?_) le_rfl
    unfold Granted at hu ⊢
    rw [hwait, Function.update_of_ne hq,
      show (r.1.thread u).error = (s.thread u).error from congrArg Prod.fst (hw.info u), hw.same]
    exact hu
  error := by
    intro u hu
    obtain ⟨l, hlist, hwait⟩ := hw.list
    rw [hwait, Function.update_of_ne hq] at hu
    rw [show (r.1.thread u).error = (s.thread u).error from congrArg Prod.fst (hw.info u)]
    exact h.error u hu

omit [DecidableEq O] in
/-- The thread `c` leaves its call. -/
theorem leave (h : Served s q n) {p : Pc O} (hp : p.waits = none) : Served (s.setPc c p) q (n - 1) where
  resumed := fun hne => (h.resumed hne).erase fun _ hu hg => (granted_setPc hp).2 ⟨hu, hg⟩
  error := h.error

omit [DecidableEq O] in
/-- A thread that was not resumed leaves its call. -/
theorem leave_other (h : Served s q n) {p : Pc O} (hp : p.waits = none) (hc : ¬Granted s q c) :
    Served (s.setPc c p) q n where
  resumed := fun hne => (h.resumed hne).mono
    (fun _ hu => (granted_setPc hp).2 ⟨fun e => hc (e ▸ hu), hu⟩) le_rfl
  error := h.error

/-- A thread waits where there is nothing to be served with. -/
theorem wait (h : Served s q n) (hw : Waits s c q k r) : Served (after c r) q 0 where
  resumed := fun _ => ⟨[], List.nodup_nil, nofun, le_rfl⟩
  error := by
    obtain ⟨l, hl, hlist⟩ := hw.list
    intro u hu
    by_cases huc : u = c
    · rw [huc]
      exact hw.error
    · change u ∈ r.1.waiting _ at hu
      rw [hlist, Function.update_self, hl.mem_iff] at hu
      show (r.1.thread u).error = _
      rw [hw.other u huc]
      exact h.error u ((List.mem_cons.1 hu).resolve_left huc)

/-- A thread waits in another list. -/
theorem wait_other (h : Served s q n) (hw : Waits s c q' k r) (hk : k.waits = some q') (hq : q ≠ q')
    (hc : ¬Granted s q c) (hcw : c ∉ s.waiting q) : Served (after c r) q n where
  resumed := by
    obtain ⟨l, hl, hlist⟩ := hw.list
    intro hne
    change r.1.waiting q ≠ [] at hne
    rw [hlist, Function.update_of_ne hq] at hne
    exact (h.resumed hne).mono (fun u hu => (hw.granted hk).2 ⟨fun e => hc (e ▸ hu), hu⟩) le_rfl
  error := by
    obtain ⟨l, hl, hlist⟩ := hw.list
    intro u hu
    change u ∈ r.1.waiting _ at hu
    rw [hlist, Function.update_of_ne hq] at hu
    have huc : u ≠ c := fun e => hcw (e ▸ hu)
    show (r.1.thread u).error = _
    rw [hw.other u huc]
    exact h.error u hu

omit [DecidableEq O] in
/-- A call gives up. -/
theorem quit (h : Served s q n) (hq : Quits s c r) (hcw : c ∉ s.waiting q) (hc : n = 0 ∨ ¬Granted s q c) :
    Served (after c r) q n where
  resumed := by
    intro hne
    change r.1.waiting q ≠ [] at hne
    rw [hq.waiting] at hne
    rcases hc with rfl | hc
    · exact ⟨[], List.nodup_nil, nofun, le_rfl⟩
    · exact (h.resumed hne).mono (fun u hu => hq.granted.2 ⟨fun e => hc (e ▸ hu), hu⟩) le_rfl
  error := by
    intro u hu
    change u ∈ r.1.waiting _ at hu
    rw [hq.waiting] at hu
    have huc : u ≠ c := fun e => hcw (e ▸ hu)
    show (r.1.thread u).error = _
    rw [hq.other u huc]
    exact h.error u hu

end Served

/-- **The invariant rule** for all runs. -/
theorem LogRuns.inv_sound {γ : Type} {start : Kernel T O → γ}
    {log : Kernel T O → Act T O → Kernel T O → γ → γ} {ok : Kernel T O → Act T O → Prop}
    {I : Kernel T O → γ → Prop} (h0 : ∀ s, s.Init cfg → I s (start s))
    (hstep : ∀ s g a s', Sound cfg idle s → I s g → ok s a → s.step cfg idle a = some s' →
      I s' (log s a s' g)) {p : Kernel T O × γ} (h : LogRuns cfg idle ok start log p) : I p.1 p.2 :=
  (Run.Reach.inv_logged (I := fun s g => Sound cfg idle s ∧ I s g) (fun s hs => ⟨.of_init hs, h0 s hs⟩)
    (fun s g a s' hI hok hs => ⟨sound_step hI.1 hs, hstep s g a s' hI.1 hI.2 hok hs⟩) h).2

/-- **The invariant rule** for runs with the scheduler unlocked. -/
theorem LogRuns.inv_live {γ : Type} {start : Kernel T O → γ}
    {log : Kernel T O → Act T O → Kernel T O → γ → γ} {ok : Kernel T O → Act T O → Prop}
    {I : Kernel T O → γ → Prop} (hlive : ∀ s a, ok s a → a.unlocked = true)
    (h0 : ∀ s, s.Init cfg → I s (start s))
    (hstep : ∀ s g a s', Live cfg idle s → I s g → ok s a → s.step cfg idle a = some s' →
      I s' (log s a s' g)) {p : Kernel T O × γ} (h : LogRuns cfg idle ok start log p) : I p.1 p.2 :=
  (Run.Reach.inv_logged (I := fun s g => Live cfg idle s ∧ I s g) (fun s hs => ⟨.of_init hs, h0 s hs⟩)
    (fun s g a s' hI hok hs => ⟨live_step hI.1 (hlive s a hok) hs, hstep s g a s' hI.1 hI.2 hok hs⟩) h).2

/-- **The invariant rule** for runs without signals. -/
theorem LogRuns.inv {γ : Type} {start : Kernel T O → γ}
    {log : Kernel T O → Act T O → Kernel T O → γ → γ} {ok : Kernel T O → Act T O → Prop}
    {I : Kernel T O → γ → Prop} (hquiet : ∀ s a, ok s a → a.quiet = true)
    (h0 : ∀ s, s.Init cfg → I s (start s))
    (hstep : ∀ s g a s', Quiet cfg idle s → I s g → ok s a → s.step cfg idle a = some s' →
      I s' (log s a s' g)) {p : Kernel T O × γ} (h : LogRuns cfg idle ok start log p) : I p.1 p.2 :=
  (Run.Reach.inv_logged (I := fun s g => Quiet cfg idle s ∧ I s g) (fun s hs => ⟨.of_init hs, h0 s hs⟩)
    (fun s g a s' hI hok hs => ⟨quiet_step hI.1 (hquiet s a hok) hs, hstep s g a s' hI.1 hI.2 hok hs⟩) h).2

end RtThread.Ipc
