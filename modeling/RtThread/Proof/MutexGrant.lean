import RtThread.Proof.MutexOwner

/-!
# Granted mutexes

A waiter that `rt_mutex_release` makes the owner returns from `rt_mutex_take` as the owner, unless a
signal comes in between: an error code that an earlier signal left behind, or one handled behind the
hand-over, sends it back to wait for its own mutex.

* `GrantsKept`: the condition.
* `Grant`, `Kept`, `kept_step`: what holds of a thread that owns the mutex and has not returned.
* `mutex_kept`: the result, and `mutex_waits_on_itself`: it fails without the condition.
-/

namespace RtThread.Ipc

open Sched Kernel

variable {T O : Type} [DecidableEq T] [DecidableEq O] {cfg : Config} {s s' : Kernel T O} {c t u w : T}
  {r : Kernel T O × Next O} {idle : T} {o : O} {a : Act T O} {k : Cont O} {g : List T}

/-- `t` owns mutex `o`, and its take has not returned. -/
def Grant (o : O) (s : Kernel T O) (t : T) : Prop :=
  (s.mutex o).owner = some t ∧ (s.pc t).waits = some (.mutex o)

/-- A mutex is handed to a waiter whose error code is clear, its new owner handles no signal before it
returns, and nobody takes it from there. -/
def GrantsKept (o : O) (s : Kernel T O) (a : Act T O) : Prop :=
  match a, s.goesOn a with
  | .call (.mutexRelease o'), _ => o' = o → (s.mutex o).owner = s.sched.current →
    (s.mutex o).hold - 1 = 0#8 → ∀ t ∈ (s.waiting (.mutex o)).head?, (s.thread t).error = .eok
  | .switched, _ | .signalEntry, _ => ∀ c ∈ s.sched.current, Grant o s c → ¬Handles (s.thread c)
  | .call (.mutexTake o' _), _ => o' = o → (s.mutex o).value ≠ 0#16 →
    ∀ t ∈ (s.mutex o).owner, (s.pc t).waits ≠ some (.mutex o)
  | _, some (.mutexOwn o') => o' = o → ∀ t ∈ (s.mutex o).owner, (s.pc t).waits ≠ some (.mutex o)
  | _, _ => True

instance {th : Thread} : Decidable (Handles th) :=
  inferInstanceAs (Decidable (th.sigPending &&& th.sigMask ≠ 0#32 ∧ th.siList ≠ []))

instance : Decidable (Grant o s t) :=
  inferInstanceAs (Decidable (_ ∧ _))

def grantsKept (o : O) (s : Kernel T O) (a : Act T O) : Bool :=
  match a, s.goesOn a with
  | .call (.mutexRelease o'), _ => o' = o → (s.mutex o).owner = s.sched.current →
    (s.mutex o).hold - 1 = 0#8 → ∀ t ∈ (s.waiting (.mutex o)).head?, (s.thread t).error = .eok
  | .switched, _ | .signalEntry, _ => ∀ c ∈ s.sched.current, Grant o s c → ¬Handles (s.thread c)
  | .call (.mutexTake o' _), _ => o' = o → (s.mutex o).value ≠ 0#16 →
    ∀ t ∈ (s.mutex o).owner, (s.pc t).waits ≠ some (.mutex o)
  | _, some (.mutexOwn o') => o' = o → ∀ t ∈ (s.mutex o).owner, (s.pc t).waits ≠ some (.mutex o)
  | _, _ => true

theorem grantsKept_iff : grantsKept o s a = true ↔ GrantsKept o s a := by
  unfold grantsKept GrantsKept
  split
  · exact decide_eq_true_iff
  · exact decide_eq_true_iff
  · exact decide_eq_true_iff
  · exact decide_eq_true_iff
  · exact decide_eq_true_iff
  · exact iff_of_true rfl trivial

instance : Decidable (GrantsKept o s a) := decidable_of_iff _ grantsKept_iff

/-- A granted thread: it will find that it has the mutex. -/
structure Kept (o : O) (s : Kernel T O) (t : T) : Prop where
  hold : (s.mutex o).hold = 1#8
  call : ∃ time, (s.pc t).call = some (.mutexTake o time)
  error : (s.thread t).error = .eok
  awake : s.sched.stat t ≠ .suspend

/-- **The invariant** of mutex `o` and the threads `g` that were granted it. -/
structure KeptAll (o : O) (s : Kernel T O) (g : List T) : Prop where
  sleeps : ∀ u, (s.pc u).sleeps = some (.mutex o) → ∃ time, (s.pc u).call = some (.mutexTake o time)
  kept : ∀ t, Grant o s t → Kept o s t
  granted : ∀ t ∈ g, Grant o s t

omit [DecidableEq O] in
theorem Pc.sleeps_iff {p : Pc O} {q : WaitList O} : p.sleeps = some q ↔ p.waits = some q ∧ p.stopped = true := by
  cases p with
  | user | cont => exact iff_of_false nofun nofun
  | schedule | switched => exact ⟨fun h => ⟨h, rfl⟩, And.left⟩

/-! ## Steps elsewhere -/

omit [DecidableEq T] [DecidableEq O] in
theorem goesOn_lists {o' : O} (h : s.goesOn a = some k) (hk : k.lists = [.mutex o']) (hq : .mutex o ∉ a.lists s) :
    o' ≠ o := by
  rintro rfl
  rw [lists_of_goesOn h, hk] at hq
  exact hq (List.mem_singleton_self _)

theorem grantLog_elsewhere (hq : .mutex o ∉ a.lists s) : grantLog cfg o s a s' g = g := by
  unfold grantLog
  split
  · rw [if_neg]
    rintro ⟨rfl, -⟩
    exact hq (List.mem_singleton_self _)
  · rename_i hgo
    rw [if_neg]
    rintro ⟨rfl, -⟩
    exact goesOn_lists hgo rfl hq rfl
  · rfl

omit [DecidableEq T] [DecidableEq O] in
/-- No signal is handled by a granted thread. -/
theorem GrantsKept.not_handles (hok : GrantsKept o s a) (ha : a = .switched ∨ a = .signalEntry)
    (hc : s.sched.current = some c) (hg : Grant o s c) : ¬Handles (s.thread c) := by
  rcases ha with rfl | rfl
  · exact hok c hc hg
  · exact hok c hc hg

theorem kept_elsewhere (hl : Live cfg idle s) (hok : GrantsKept o s a) (hs : s.step cfg idle a = some s')
    (hq : .mutex o ∉ a.lists s) (h : KeptAll o s g) : KeptAll o s' (grantLog cfg o s a s' g) := by
  have hm : s'.mutex o = s.mutex o := (objects_step hl.toSound hs).mutex o hq
  have hback : ∀ {t}, Grant o s' t → Grant o s t := fun hg =>
    ⟨hm ▸ hg.1, waits_of_step hl hs hq hg.2⟩
  rw [grantLog_elsewhere hq]
  refine ⟨fun u hu => ?_, fun t hg => ?_, fun t ht => ?_⟩
  · obtain ⟨hw, hst⟩ := Pc.sleeps_iff.1 hu
    have hw' := waits_of_step hl hs hq hw
    have hstays := waiter_step hl hs hq hw'
    rw [hstays.call]
    exact h.sleeps u (Pc.sleeps_iff.2 ⟨hw', hstays.stopped hst⟩)
  · have hg' := hback hg
    have hk := h.kept t hg'
    have hstays := waiter_step hl hs hq hg'.2
    refine ⟨hm ▸ hk.hold, by rw [hstays.call]; exact hk.call, ?_, hstays.stat hk.awake⟩
    rcases hstays.error with he | ⟨hsus, -⟩ | ⟨ha, hc, hh⟩
    · rw [he, hk.error]
    · exact absurd hsus hk.awake
    · exact absurd hh (hok.not_handles ha hc hg')
  · have hg := h.granted t ht
    refine ⟨by rw [hm]; exact hg.1, ?_⟩
    rw [Pc.waits_eq, (waiter_step hl hs hq hg.2).call, ← Pc.waits_eq, hg.2]

/-! ## Steps on the mutex -/

omit [DecidableEq O] in
/-- A step of `c` keeps the invariant if `c` is not granted afterwards and others stay as they are. -/
theorem KeptAll.after (h : KeptAll o s g) (hpc : r.1.pc = s.pc)
    (hsleep : ∀ k, r.2 = .schedule k → k.waits = some (.mutex o) → ∃ time, k = .mutexTake o time)
    (hc : ¬Grant o (after c r) c)
    (hkeep : ∀ t, t ≠ c → (r.1.mutex o).owner = some t → (s.pc t).waits = some (.mutex o) →
      (r.1.mutex o).hold = 1#8 ∧ (∃ time, (s.pc t).call = some (.mutexTake o time)) ∧
      (r.1.thread t).error = .eok ∧ r.1.sched.stat t ≠ .suspend)
    {g' : List T} (hg : ∀ t ∈ g', t ≠ c ∧ (r.1.mutex o).owner = some t ∧ (s.pc t).waits = some (.mutex o)) :
    KeptAll o (Ipc.Kernel.after c r) g' := by
  have hother : ∀ t, t ≠ c → (Ipc.Kernel.after c r).pc t = s.pc t := fun t ht => by
    rw [show (Ipc.Kernel.after c r).pc t = r.1.pc t from setPc_pc_ne _ ht, hpc]
  refine ⟨fun u hu => ?_, fun t ht => ?_, fun t ht => ?_⟩
  · by_cases huc : u = c
    · subst huc
      rw [show (Ipc.Kernel.after u r).pc u = r.2.pc from setPc_pc_self _] at hu ⊢
      obtain ⟨k, hk, hw⟩ := Next.pc_sleeps.1 hu
      obtain ⟨time, rfl⟩ := hsleep k hk hw
      exact ⟨time, by rw [hk]; rfl⟩
    · rw [hother u huc] at hu ⊢
      exact h.sleeps u hu
  · have htc : t ≠ c := by
      rintro rfl
      exact hc ht
    have hw := ht.2
    rw [hother t htc] at hw
    obtain ⟨h1, h2, h3, h4⟩ := hkeep t htc ht.1 hw
    exact ⟨h1, by rw [hother t htc]; exact h2, h3, h4⟩
  · obtain ⟨htc, how, hw⟩ := hg t ht
    exact ⟨how, by rw [hother t htc]; exact hw⟩

omit [DecidableEq O] in
theorem not_grant_after (hpc : r.2.pc.waits ≠ some (.mutex o)) : ¬Grant o (after c r) c := by
  rintro ⟨-, hw⟩
  rw [show (after c r).pc c = r.2.pc from setPc_pc_self _] at hw
  exact hpc hw

omit [DecidableEq O] in
theorem not_grant_of_owner (how : (r.1.mutex o).owner ≠ some c) : ¬Grant o (after c r) c :=
  fun hg => how hg.1

omit [DecidableEq O] in
/-- Nobody was granted the mutex, and nobody is. -/
theorem KeptAll.after_none (h : KeptAll o s g) (hpc : r.1.pc = s.pc) (hn : ∀ t, ¬Grant o s t)
    (hw : r.2.pc.waits = none) (how : ∀ t, (r.1.mutex o).owner = some t → t = c) :
    KeptAll o (Ipc.Kernel.after c r) g := by
  refine h.after hpc (fun k hk hkw => ?_) (not_grant_after (by rw [hw]; nofun))
    (fun t ht ht' => absurd (how t ht') ht) fun t ht => absurd (h.granted t ht) (hn t)
  rw [hk] at hw
  rw [show k.waits = none from hw] at hkw
  cases hkw

omit [DecidableEq T] [DecidableEq O] in
theorem not_grant_of_user (how : (s.mutex o).owner = some c) (hw : (s.pc c).waits ≠ some (.mutex o)) (t : T) :
    ¬Grant o s t := by
  rintro ⟨ht, htw⟩
  rw [how] at ht
  cases ht
  exact hw htw

theorem grantLog_resumed {elapsed time : Time} (hc : s.sched.current = some c)
    (hpc : s.pc c = .cont (.mutexTake o time)) (hr : s.ran cfg (.cont elapsed) = some r) :
    grantLog cfg o s (.cont elapsed) s' g = if r.2.result.isSome then g.filter (· ≠ c) else g := by
  unfold grantLog
  rw [goesOn_cont hc hpc, hc, outcome_eq hr]
  simp only [true_and]

theorem grantLog_cont {elapsed : Time} (hc : s.sched.current = some c) (hpc : s.pc c = .cont k)
    (hk : ∀ o time, k ≠ .mutexTake o time) : grantLog cfg o s (.cont elapsed) s' g = g := by
  unfold grantLog
  rw [goesOn_cont hc hpc, hc]
  split
  · rename_i ha
    cases ha
  · rename_i hgo _ _
    cases hgo
    exact absurd rfl (hk _ _)
  · rfl

/-- **A take.** -/
theorem kept_take {time : Time} (hok : GrantsKept o s (.call (.mutexTake o time)))
    (hcw : (s.pc c).waits ≠ some (.mutex o)) (hpc : r.1.pc = s.pc) (hcase : TakeCase s c o time r)
    (h : KeptAll o s g) : KeptAll o (after c r) g := by
  have hne : ∀ t ∈ g, t ≠ c := by
    rintro t ht rfl
    exact hcw (h.granted t ht).2
  cases hcase with
  | again how =>
    refine h.after_none hpc (not_grant_of_user how hcw) rfl fun t ht => ?_
    rw [show ((setMutex (s.setError c .eok) o _).mutex o) = _ from Function.update_self _ _ _] at ht
    exact (Option.some.inj (how.symm.trans ht)).symm
  | own how hv =>
    refine h.after_none hpc (fun t hg => hok rfl hv t hg.1 hg.2) rfl fun t ht => ?_
    rw [show ((s.setError c .eok).mutexOwn c o).mutex o = _ from Function.update_self _ _ _] at ht
    exact (Option.some.inj ht).symm
  | busy how =>
    refine h.after hpc nofun (not_grant_after (by nofun)) (fun t ht how' hw => ?_) fun t ht =>
      ⟨hne t ht, h.granted t ht⟩
    have hk := h.kept t ⟨how', hw⟩
    refine ⟨hk.hold, hk.call, ?_, ?_⟩
    · rw [setError_thread_ne _ ht, setError_thread_ne _ ht, hk.error]
    · rw [setError_stat, setError_stat]
      exact hk.awake
  | @wait w s' hw hwc hv hb =>
    have hm : s'.mutex o = s.mutex o := congrFun hb.mutex o
    refine h.after hpc (fun k hk _ => ⟨time, by cases hk; rfl⟩) (fun hg => ?_) (fun t ht how' hw' => ?_)
      fun t ht => ⟨hne t ht, by rw [hm]; exact (h.granted t ht).1, (h.granted t ht).2⟩
    · have := hg.1
      rw [show (after c (s', _)).mutex o = s'.mutex o from rfl, hm, hw] at this
      exact hwc (Option.some.inj this)
    · rw [hm] at how' ⊢
      have hk := h.kept t ⟨how', hw'⟩
      refine ⟨hk.hold, hk.call, ?_, ?_⟩
      · rw [hb.error, setError_thread_ne _ ht, hk.error]
      · rw [hb.stat t ht, setError_stat]
        exact hk.awake

/-- **A release.** -/
theorem kept_release (hl : Live cfg idle s) (hok : GrantsKept o s (.call (.mutexRelease o)))
    (hc : s.sched.current = some c) (hr : s.ran cfg (.call (.mutexRelease o)) = some r)
    (hrun : s.sched.stat c = .running) (hcw : (s.pc c).waits ≠ some (.mutex o)) (hpc : r.1.pc = s.pc)
    (hcase : ReleaseCase s c o r) (h : KeptAll o s g) :
    KeptAll o (after c r) (grantLog cfg o s (.call (.mutexRelease o)) (after c r) g) := by
  -- no waiter leaves the list
  have hlog : r.1.waiting (.mutex o) = s.waiting (.mutex o) →
      grantLog cfg o s (.call (.mutexRelease o)) (after c r) g = g := by
    intro hw
    show (if o = o ∧ _ then _ else g) = g
    split_ifs
    · rw [show (after c r).waiting (.mutex o) = _ from hw, List.filter_eq_nil_iff.2 fun u hu => by simpa using hu]
      rfl
    · rfl
  cases hcase with
  | refuse how =>
    rw [hlog rfl]
    refine h.after hpc nofun (not_grant_after (by nofun)) (fun t ht how' hw => ?_) fun t ht =>
      ⟨?_, h.granted t ht⟩
    · have hk := h.kept t ⟨how', hw⟩
      refine ⟨hk.hold, hk.call, ?_, ?_⟩
      · rw [setError_thread_ne _ ht, hk.error]
      · rw [setError_stat]
        exact hk.awake
    · rintro rfl
      exact how (h.granted t ht).1
  | less how hh =>
    rw [hlog rfl]
    refine h.after_none hpc (not_grant_of_user how hcw) rfl fun t ht => ?_
    rw [show (s.setMutex o _).mutex o = _ from Function.update_self _ _ _] at ht
    exact (Option.some.inj (how.symm.trans ht)).symm
  | @free x how hh hw hre =>
    rw [hlog (hre.wait _)]
    refine h.after_none hpc (not_grant_of_user how hcw) rfl fun t ht => ?_
    rw [show (setMutex { s with sched := x } o _).mutex o = _ from Function.update_self _ _ _] at ht
    cases ht
  | @hand t l s' how hh hw hd =>
    have hmem : t ∈ s.waiting (.mutex o) := by
      rw [hw]
      exact List.mem_cons_self
    have htc : t ≠ c := by
      rintro rfl
      exact hl.not_waiting hrun _ hmem
    have hsleeps := ((hl.waiting t _).1 hmem).1
    have hm : s'.mutex o = _ := (congrFun hd.mutex o).trans (Function.update_self _ _ _)
    have hwait : s'.waiting (.mutex o) = l := by
      rw [hd.waiting, Function.update_self]
    refine h.after hpc (fun k hk hkw => ?_) (fun hg => ?_) (fun u _ how' _ => ?_) fun u hu => ?_
    · cases hk
      cases hkw
    · have := hg.1
      rw [show (after c (s', _)).mutex o = s'.mutex o from rfl, hm] at this
      exact htc (Option.some.inj this)
    · rw [hm] at how' ⊢
      cases how'
      refine ⟨rfl, h.sleeps t hsleeps, ?_, hd.woken⟩
      rw [hd.error]
      exact hok rfl (how.trans hc.symm) hh t (by rw [hw]; rfl)
    -- the waiter that left the list is `t`
    · have hut : u = t := by
        unfold grantLog at hu
        simp only [outcome_eq hr, Next.result, and_self, if_true, List.mem_append, List.mem_filter,
          decide_eq_true_eq] at hu
        rw [show (after c (s', _)).waiting (.mutex o) = s'.waiting (.mutex o) from rfl, hwait, hw] at hu
        rcases hu with ⟨hu, hul⟩ | hu
        · exact (List.mem_cons.1 hu).resolve_right hul
        · exact absurd (h.granted u hu) (not_grant_of_user how hcw u)
      subst hut
      exact ⟨htc, by rw [hm], Pc.waits_of_sleeps hsleeps⟩

/-- **A take goes on behind `rt_schedule`**, and tells a granted thread that it has the mutex. -/
theorem kept_resumed {elapsed time : Time} (hc : s.sched.current = some c)
    (hr : s.ran cfg (.cont elapsed) = some r) (hcp : s.pc c = .cont (.mutexTake o time))
    (hpc : r.1.pc = s.pc) (hcase : ResumedCase s c o time r) (h : KeptAll o s g) :
    KeptAll o (after c r) (grantLog cfg o s (.cont elapsed) (after c r) g) := by
  rw [grantLog_resumed hc hcp hr]
  have hcw : (s.pc c).waits = some (.mutex o) := by
    rw [hcp]
    rfl
  have hfilter : ∀ t ∈ g.filter (· ≠ c), t ≠ c ∧ (s.mutex o).owner = some t ∧ (s.pc t).waits = some (.mutex o) :=
    fun t ht => ⟨by simpa using (List.mem_filter.1 ht).2, h.granted t (List.mem_of_mem_filter ht)⟩
  have hkeep : ∀ t, (s.mutex o).owner = some t → (s.pc t).waits = some (.mutex o) →
      (s.mutex o).hold = 1#8 ∧ (∃ time, (s.pc t).call = some (.mutexTake o time)) ∧
      (s.thread t).error = .eok ∧ s.sched.stat t ≠ .suspend := fun t how hw =>
    have hk := h.kept t ⟨how, hw⟩
    ⟨hk.hold, hk.call, hk.error, hk.awake⟩
  -- a granted thread has its error code clear
  have hnot : (s.thread c).error ≠ .eok → (s.mutex o).owner ≠ some c := fun he how =>
    he (h.kept c ⟨how, hcw⟩).error
  cases hcase with
  | granted he =>
    exact h.after hpc nofun (not_grant_after (by nofun)) (fun t _ => hkeep t) hfilter
  | failed he hne hni =>
    exact h.after hpc nofun (not_grant_after (by nofun)) (fun t _ => hkeep t) hfilter
  | busy he hv ht =>
    refine h.after hpc nofun (not_grant_after (by nofun)) (fun t ht how hw => ?_) hfilter
    rw [setError_thread_ne _ ht, setError_stat]
    exact hkeep t how hw
  | own he hv =>
    have hno := hnot (by rw [he]; nofun)
    refine h.after hpc nofun (not_grant_of_owner hno) (fun t _ => hkeep t) fun t ht => ⟨?_, h.granted t ht⟩
    rintro rfl
    exact hno (h.granted t ht).1
  | wait he hv ht =>
    have hno := hnot (by rw [he]; nofun)
    refine h.after hpc nofun (not_grant_of_owner hno) (fun t _ => hkeep t) fun t ht => ⟨?_, h.granted t ht⟩
    rintro rfl
    exact hno (h.granted t ht).1

/-- **A step keeps the invariant.** -/
theorem kept_step (hl : Live cfg idle s) (hok : GrantsKept o s a) (hs : s.step cfg idle a = some s')
    (h : KeptAll o s g) : KeptAll o s' (grantLog cfg o s a s' g) := by
  by_cases hq : .mutex o ∈ a.lists s
  swap
  · exact kept_elsewhere hl hok hs hq h
  obtain ⟨c, r, hc, -, hr, rfl, hm⟩ := mutexStep_of_mem hl.toSound hs hq
  have hpc := hm.pc
  cases hm with
  | take hcp hcase => exact kept_take hok (by rw [hcp]; nofun) hpc hcase h
  | release hcp hcase =>
    exact kept_release hl hok hc hr (hl.running hc (by rw [hcp]; nofun)) (by rw [hcp]; nofun) hpc hcase h
  | resumed hcp hcase => exact kept_resumed hc hr hcp hpc hcase h
  | @own elapsed hcp =>
    rw [grantLog_cont hc hcp (by nofun)]
    have hok' : ∀ t ∈ (s.mutex o).owner, (s.pc t).waits ≠ some (.mutex o) := by
      unfold GrantsKept at hok
      rw [goesOn_cont hc hcp] at hok
      exact hok rfl
    refine h.after_none hpc (fun t hg => hok' t hg.1 hg.2) rfl fun t ht => ?_
    rw [show (s.mutexOwn c o).mutex o = _ from Function.update_self _ _ _] at ht
    exact (Option.some.inj ht).symm
  | @wait time elapsed w s' hcp hw hb =>
    rw [grantLog_cont hc hcp (by nofun)]
    have hmu : s'.mutex o = s.mutex o := congrFun hb.mutex o
    -- a granted thread does not go back to wait
    have hno : (s.mutex o).owner ≠ some c := by
      intro how
      obtain ⟨time', hcall⟩ := (h.kept c ⟨how, by rw [hcp]; rfl⟩).call
      rw [hcp] at hcall
      cases hcall
    refine h.after hpc (fun k hk _ => ⟨time, by cases hk; rfl⟩) ?_ (fun t ht how hw' => ?_) fun t ht => ?_
    · refine not_grant_of_owner ?_
      rw [hmu]
      exact hno
    · rw [hmu] at how ⊢
      have hk := h.kept t ⟨how, hw'⟩
      refine ⟨hk.hold, hk.call, ?_, ?_⟩
      · rw [hb.error, hk.error]
      · rw [hb.stat t ht]
        exact hk.awake
    · refine ⟨?_, by rw [hmu]; exact (h.granted t ht).1, (h.granted t ht).2⟩
      rintro rfl
      exact hno (h.granted t ht).1

omit [DecidableEq T] [DecidableEq O] in
theorem KeptAll.of_init (h : s.Init cfg) : KeptAll o s [] where
  sleeps := by
    intro u hu
    rw [h.pc u] at hu
    cases hu
  kept := by
    intro t ht
    have := ht.2
    rw [h.pc t] at this
    cases this
  granted := nofun

end RtThread.Ipc
