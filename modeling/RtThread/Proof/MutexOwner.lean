import RtThread.Proof.Mutex

/-!
# Owners of a mutex

With the scheduler unlocked, signals included.

* `Balanced`, `mutex_balanced`: `hold` counts the takes of the owner that it has not released, as long
  as no take wraps `hold` around, no take tells its thread anything else than whether it is the owner,
  and no mutex is taken from its owner.
* `Kept`, `mutex_kept`: a waiter that a release makes the owner returns as the owner.
-/

namespace RtThread.Ipc

open Sched Kernel

variable {T O : Type} [DecidableEq T] [DecidableEq O] {cfg : Config} {s s' : Kernel T O} {c t u w : T}
  {r : Kernel T O × Next O} {idle : T} {o : O} {a : Act T O} {k : Cont O}

theorem outcome_eq (h : s.ran cfg a = some r) : s.outcome cfg a = r.2.result := by
  unfold outcome
  rw [h]
  rfl

omit [DecidableEq T] [DecidableEq O] in
theorem goesOn_cont {elapsed : Time} (hc : s.sched.current = some c) (hpc : s.pc c = .cont k) :
    s.goesOn (.cont elapsed) = some k := by
  unfold goesOn
  rw [hc, Option.bind_some, hpc]

/-! ## Takes and releases -/

/-- The takes of a thread that have not returned. -/
def pendingTake (o : O) (s : Kernel T O) (t : T) : ℕ := if (s.pc t).waits = some (.mutex o) then 1 else 0

/-- A recursive take finds room in `hold`. Behind `rt_schedule`, a thread finds its error code clear if it is
the owner, and set otherwise; but a signal may send the owner back to wait. At its label `__again`, a thread
that has seen the mutex free finds it free. -/
def TakesSettle (o : O) (s : Kernel T O) (a : Act T O) : Prop :=
  match a, s.goesOn a with
  | .call (.mutexTake o' _), _ =>
    o' = o → (s.mutex o).owner = s.sched.current → (s.mutex o).hold + 1 ≠ 0#8
  | _, some (.mutexTake o' time) => o' = o → ∀ c ∈ s.sched.current,
    if (s.thread c).error = .eok then (s.mutex o).owner = some c
    else (s.mutex o).owner = some c → (s.thread c).error = .eintr ∧ time ≠ 0
  | _, some (.mutexOwn o') => o' = o → (s.mutex o).value ≠ 0#16
  | _, _ => True

def takesSettle (o : O) (s : Kernel T O) (a : Act T O) : Bool :=
  match a, s.goesOn a with
  | .call (.mutexTake o' _), _ =>
    o' = o → (s.mutex o).owner = s.sched.current → (s.mutex o).hold + 1 ≠ 0#8
  | _, some (.mutexTake o' time) => o' = o → ∀ c ∈ s.sched.current,
    if (s.thread c).error = .eok then (s.mutex o).owner = some c
    else (s.mutex o).owner = some c → (s.thread c).error = .eintr ∧ time ≠ 0
  | _, some (.mutexOwn o') => o' = o → (s.mutex o).value ≠ 0#16
  | _, _ => true

theorem takesSettle_iff : takesSettle o s a = true ↔ TakesSettle o s a := by
  unfold takesSettle TakesSettle
  split
  · exact decide_eq_true_iff
  · exact decide_eq_true_iff
  · exact decide_eq_true_iff
  · exact iff_of_true rfl trivial

instance : Decidable (TakesSettle o s a) := decidable_of_iff _ takesSettle_iff

/-- **`hold` counts the outstanding takes of the owner**, and others have none. -/
structure Balanced (m : Mutex T) (pend : T → ℕ) (g : MutexLog T) : Prop where
  value : m.owner = none ∧ m.value = 1#16 ∧ m.hold = 0#8 ∨
    m.owner ≠ none ∧ m.value = 0#16 ∧ m.hold ≠ 0#8
  hold : ∀ t, m.owner = some t → m.hold.toNat + g.released t = g.taken t + pend t
  other : ∀ t, m.owner ≠ some t → g.taken t = g.released t

namespace Balanced

variable {m : Mutex T} {pend pend' : T → ℕ} {g : MutexLog T}

omit [DecidableEq T] in
theorem congr (h : Balanced m pend g) (hp : ∀ t, m.owner = some t → pend' t = pend t) :
    Balanced m pend' g :=
  ⟨h.value, fun t ht => by rw [hp t ht]; exact h.hold t ht, h.other⟩

omit [DecidableEq T] in
theorem value_of_owner (h : Balanced m pend g) (how : m.owner = some t) :
    m.value = 0#16 ∧ m.hold ≠ 0#8 := by
  rcases h.value with ⟨hn, -⟩ | ⟨-, hv⟩
  · rw [hn] at how
    cases how
  · exact hv

omit [DecidableEq T] in
theorem owner_of_value (h : Balanced m pend g) (hv : m.value ≠ 0#16) :
    m.owner = none ∧ m.value = 1#16 ∧ m.hold = 0#8 := by
  rcases h.value with hn | ⟨-, hv', -⟩
  · exact hn
  · exact absurd hv' hv

/-- The owner takes the mutex again. -/
theorem again (h : Balanced m pend g) (how : m.owner = some c) (hh : m.hold + 1 ≠ 0#8)
    (hp : pend' c = pend c) : Balanced { m with hold := m.hold + 1 } pend' (g.take c) where
  value := .inr ⟨by rw [how]; nofun, (h.value_of_owner how).1, hh⟩
  hold := by
    intro t ht
    have hct : t = c := Option.some.inj (ht.symm.trans how)
    subst hct
    have := h.hold t how
    simp only [MutexLog.take, Function.update_self, hp]
    bv_omega
  other := by
    intro t ht
    have hct : t ≠ c := by
      rintro rfl
      exact ht how
    simp only [MutexLog.take, Function.update_of_ne hct]
    exact h.other t ht

/-- A thread takes the free mutex. -/
theorem own (h : Balanced m pend g) (hv : m.value ≠ 0#16) (hp : pend' c = 0) {p : ℕ} :
    Balanced { m with value := m.value - 1, owner := some c, originalPriority := p, hold := m.hold + 1 }
      pend' (g.take c) := by
  obtain ⟨how, hv1, hh⟩ := h.owner_of_value hv
  refine ⟨.inr ⟨nofun, ?_, ?_⟩, fun t ht => ?_, fun t ht => ?_⟩
  · rw [hv1]
    rfl
  · rw [hh]
    nofun
  · cases ht
    have := h.other c (by rw [how]; nofun)
    simp only [MutexLog.take, Function.update_self, hh, hp]
    rw [this]
    exact Nat.add_comm _ _
  · have hct : t ≠ c := fun e => ht (by rw [e])
    simp only [MutexLog.take, Function.update_of_ne hct]
    exact h.other t (by rw [how]; nofun)

/-- A waiter returns as the owner. -/
theorem granted (h : Balanced m pend g) (how : m.owner = some c) (hp : pend c = 1) (hp' : pend' c = 0) :
    Balanced m pend' (g.take c) where
  value := h.value
  hold := by
    intro t ht
    have hct : t = c := Option.some.inj (ht.symm.trans how)
    subst hct
    have := h.hold t how
    simp only [MutexLog.take, Function.update_self]
    omega
  other := by
    intro t ht
    have hct : t ≠ c := by
      rintro rfl
      exact ht how
    simp only [MutexLog.take, Function.update_of_ne hct]
    exact h.other t ht

/-- The owner releases the mutex and keeps it. -/
theorem less (h : Balanced m pend g) (how : m.owner = some c) (hh : m.hold - 1 ≠ 0#8)
    (hp : pend' c = pend c) : Balanced { m with hold := m.hold - 1 } pend' (g.release c) where
  value := .inr ⟨by rw [how]; nofun, (h.value_of_owner how).1, hh⟩
  hold := by
    intro t ht
    have hct : t = c := Option.some.inj (ht.symm.trans how)
    subst hct
    have := h.hold t how
    have := (h.value_of_owner how).2
    simp only [MutexLog.release, Function.update_self, hp]
    bv_omega
  other := by
    intro t ht
    have hct : t ≠ c := by
      rintro rfl
      exact ht how
    simp only [MutexLog.release, Function.update_of_ne hct]
    exact h.other t ht

/-- After its last release a thread has none outstanding. -/
theorem settled (h : Balanced m pend g) (how : m.owner = some c) (hh : m.hold - 1 = 0#8)
    (hp : pend c = 0) (t : T) : (g.release c).taken t = (g.release c).released t := by
  by_cases hct : t = c
  · subst hct
    have := h.hold t how
    simp only [MutexLog.release, Function.update_self]
    bv_omega
  · simp only [MutexLog.release, Function.update_of_ne hct]
    exact h.other t fun e => hct (Option.some.inj (e.symm.trans how))

end Balanced

section Log

variable {g : MutexLog T} {e : Err} {out : Out}

omit [DecidableEq T] in
theorem mem_of_mutexTakes [DecidableEq T] (h : mutexTakes o s a = true) : .mutex o ∈ a.lists s := by
  unfold mutexTakes at h
  split at h
  · cases of_decide_eq_true h
    exact List.mem_singleton_self _
  · rename_i hgo
    cases of_decide_eq_true h
    rw [lists_of_goesOn hgo]
    exact List.mem_singleton_self _
  · rename_i hgo
    cases of_decide_eq_true h
    rw [lists_of_goesOn hgo]
    exact List.mem_singleton_self _
  · cases h

theorem mutexLog_elsewhere (hq : .mutex o ∉ a.lists s) : mutexLog cfg o s a s' g = g := by
  unfold mutexLog
  split
  swap
  · rfl
  rw [if_neg fun h => hq (mem_of_mutexTakes h)]
  split
  · rw [if_neg]
    rintro rfl
    exact hq (List.mem_singleton_self _)
  · rfl

theorem mutexLog_take (hc : s.sched.current = some c) (hr : s.ran cfg a = some r)
    (hres : r.2.result = some (.eok, out)) (ht : mutexTakes o s a = true) :
    mutexLog cfg o s a s' g = g.take c := by
  unfold mutexLog
  rw [hc, outcome_eq hr, hres]
  exact if_pos ht

theorem mutexLog_release (hc : s.sched.current = some c) (hr : s.ran cfg (.call (.mutexRelease o)) = some r)
    (hres : r.2.result = some (.eok, out)) :
    mutexLog cfg o s (.call (.mutexRelease o)) s' g = g.release c := by
  unfold mutexLog
  rw [hc, outcome_eq hr, hres]
  exact if_pos rfl

theorem mutexLog_failed (hr : s.ran cfg a = some r) (hres : ∀ out, r.2.result ≠ some (.eok, out)) :
    mutexLog cfg o s a s' g = g := by
  unfold mutexLog
  rw [outcome_eq hr]
  split
  · rename_i hres'
    exact absurd hres' (hres _)
  · rfl

omit [DecidableEq T] in
theorem mutexTakes_cont {elapsed : Time} (hc : s.sched.current = some c)
    (hpc : (∃ time, s.pc c = .cont (.mutexTake o time)) ∨ s.pc c = .cont (.mutexOwn o)) :
    mutexTakes o s (.cont elapsed) = true := by
  unfold mutexTakes
  rcases hpc with ⟨time, hpc⟩ | hpc
  · rw [goesOn_cont hc hpc]
    exact decide_eq_true rfl
  · rw [goesOn_cont hc hpc]
    exact decide_eq_true rfl

end Log

omit [DecidableEq T] in
theorem pendingTake_eq [DecidableEq T] (h : (s'.pc t).waits = some (.mutex o) ↔ (s.pc t).waits = some (.mutex o)) :
    pendingTake o s' t = pendingTake o s t := by
  unfold pendingTake
  simp only [h]

theorem pendingTake_ne (h : r.1.pc = s.pc) (ht : t ≠ c) : pendingTake o (after c r) t = pendingTake o s t := by
  refine pendingTake_eq ?_
  rw [show (after c r).pc t = r.1.pc t from setPc_pc_ne _ ht, h]

omit [DecidableEq T] in
theorem pendingTake_zero (h : (s.pc t).waits ≠ some (.mutex o)) : pendingTake o s t = 0 := if_neg h

theorem pendingTake_after (h : r.2.pc.waits ≠ some (.mutex o)) : pendingTake o (after c r) c = 0 := by
  refine pendingTake_zero ?_
  rwa [show (after c r).pc c = r.2.pc from setPc_pc_self _]

omit [DecidableEq T] [DecidableEq O] in
theorem TakesSettle.resumed {elapsed time : Time} (h : TakesSettle o s (.cont elapsed))
    (hc : s.sched.current = some c) (hpc : s.pc c = .cont (.mutexTake o time)) :
    if (s.thread c).error = .eok then (s.mutex o).owner = some c
    else (s.mutex o).owner = some c → (s.thread c).error = .eintr ∧ time ≠ 0 := by
  unfold TakesSettle at h
  rw [goesOn_cont hc hpc] at h
  exact h rfl c hc

omit [DecidableEq T] [DecidableEq O] in
theorem TakesSettle.own {elapsed : Time} (h : TakesSettle o s (.cont elapsed))
    (hc : s.sched.current = some c) (hpc : s.pc c = .cont (.mutexOwn o)) : (s.mutex o).value ≠ 0#16 := by
  unfold TakesSettle at h
  rw [goesOn_cont hc hpc] at h
  exact h rfl

/-- **A step on the mutex.** -/
theorem balanced_mutexStep {g : MutexLog T} (hl : Live cfg idle s) (hok : TakesSettle o s a)
    (hc : s.sched.current = some c) (hr : s.ran cfg a = some r) (hm : MutexStep s c o a r)
    (h : Balanced (s.mutex o) (pendingTake o s) g) :
    Balanced ((after c r).mutex o) (pendingTake o (after c r)) (mutexLog cfg o s a (after c r) g) := by
  have hne : ∀ t, t ≠ c → pendingTake o (after c r) t = pendingTake o s t := fun t => pendingTake_ne hm.pc
  -- the mutex and the history stay, and so does what the owner has outstanding
  have hkeep : (after c r).mutex o = s.mutex o → (∀ out, r.2.result ≠ some (.eok, out)) →
      (∀ t, (s.mutex o).owner = some t → pendingTake o (after c r) t = pendingTake o s t) →
      Balanced ((after c r).mutex o) (pendingTake o (after c r)) (mutexLog cfg o s a (after c r) g) := by
    intro hmutex hres hp
    rw [hmutex, mutexLog_failed hr hres]
    exact h.congr hp
  have hother : (s.mutex o).owner ≠ some c → ∀ t, (s.mutex o).owner = some t →
      pendingTake o (after c r) t = pendingTake o s t := by
    intro how t ht
    refine hne t ?_
    rintro rfl
    exact how ht
  cases hm with
  | @take e out time r hpc hcase =>
    have hz : pendingTake o s c = 0 := pendingTake_zero (by rw [hpc]; nofun)
    have htake : mutexTakes o s (.call (.mutexTake o time)) = true := decide_eq_true rfl
    cases hcase with
    | again how =>
      rw [mutexLog_take hc hr rfl htake]
      show Balanced (Function.update s.mutex o _ o) _ _
      rw [Function.update_self]
      exact h.again how (hok rfl (how.trans hc.symm)) ((pendingTake_after (by nofun)).trans hz.symm)
    | own how hv =>
      rw [mutexLog_take hc hr rfl htake]
      show Balanced (Function.update s.mutex o _ o) _ _
      rw [Function.update_self]
      exact h.own hv (pendingTake_after (by nofun))
    | busy how => exact hkeep rfl (by nofun) (hother how)
    | wait hw hwc hv hb =>
      refine hkeep (congrFun hb.mutex o) (by nofun) (hother ?_)
      rw [hw]
      exact fun e => hwc (Option.some.inj e)
  | release hpc hcase =>
    have hz : pendingTake o s c = 0 := pendingTake_zero (by rw [hpc]; nofun)
    cases hcase with
    | refuse how => exact hkeep rfl (by nofun) (hother how)
    | less how hh =>
      rw [mutexLog_release hc hr rfl]
      show Balanced (Function.update s.mutex o _ o) _ _
      rw [Function.update_self]
      exact h.less how hh ((pendingTake_after (by nofun)).trans hz.symm)
    | free how hh hw hre =>
      rw [mutexLog_release hc hr rfl]
      show Balanced (Function.update s.mutex o _ o) _ _
      rw [Function.update_self]
      refine ⟨.inl ⟨rfl, ?_, rfl⟩, nofun, fun t _ => h.settled how hh hz t⟩
      show (s.mutex o).value + 1 = 1#16
      rw [(h.value_of_owner how).1]
      rfl
    | @hand t l s' how hh hw hd =>
      rw [mutexLog_release hc hr rfl]
      show Balanced (s'.mutex o) _ _
      rw [hd.mutex, Function.update_self]
      have hmem : t ∈ s.waiting (.mutex o) := by
        rw [hw]
        exact List.mem_cons_self
      have htc : t ≠ c := by
        rintro rfl
        exact hl.not_waiting (hl.running hc (by rw [hpc]; nofun)) _ hmem
      have hp : pendingTake o s t = 1 :=
        if_pos (Pc.waits_of_sleeps ((hl.waiting t _).1 hmem).1)
      refine ⟨.inr ⟨nofun, (h.value_of_owner how).1, by nofun⟩, fun t' ht' => ?_, fun t' _ => h.settled how hh hz t'⟩
      cases ht'
      rw [hne t htc, hp, h.settled how hh hz t]
      exact Nat.add_comm _ _
  | @resumed time elapsed r hpc hcase =>
    have hsettle := hok.resumed hc hpc
    have hp : pendingTake o s c = 1 := if_pos (by rw [hpc]; rfl)
    cases hcase with
    | granted he =>
      rw [mutexLog_take hc hr rfl (mutexTakes_cont hc (.inl ⟨_, hpc⟩))]
      rw [if_pos he] at hsettle
      exact h.granted hsettle hp (pendingTake_after (by nofun))
    | failed he hne' hni =>
      rw [if_neg (by rw [he]; exact hne')] at hsettle
      refine hkeep rfl (fun out e => ?_) (hother fun how => hni (he.symm.trans (hsettle how).1))
      cases e
      exact hne' rfl
    | busy he hv ht =>
      rw [if_neg (by rw [he]; nofun)] at hsettle
      exact hkeep rfl (by nofun) (hother fun how => (hsettle how).2 ht)
    | own he hv =>
      refine hkeep rfl (by nofun) fun t _ => ?_
      by_cases htc : t = c
      · subst htc
        rw [hp]
        exact if_pos (congrArg Pc.waits (setPc_pc_self _))
      · exact hne t htc
    | wait he hv ht =>
      refine hkeep rfl (by nofun) fun t _ => ?_
      by_cases htc : t = c
      · subst htc
        rw [hp]
        exact if_pos (congrArg Pc.waits (setPc_pc_self _))
      · exact hne t htc
  | own hpc =>
    rw [mutexLog_take hc hr rfl (mutexTakes_cont hc (.inr hpc))]
    show Balanced (Function.update s.mutex o _ o) _ _
    rw [Function.update_self]
    exact h.own (hok.own hc hpc) (pendingTake_after (by nofun))
  | @wait time elapsed w s' hpc hw hb =>
    refine hkeep (congrFun hb.mutex o) (by nofun) fun t _ => ?_
    by_cases htc : t = c
    · subst htc
      rw [show pendingTake o s t = 1 from if_pos (by rw [hpc]; rfl)]
      exact if_pos (congrArg Pc.waits (setPc_pc_self _))
    · exact hne t htc

/-- **Every step keeps the balance.** -/
theorem balanced_step {g : MutexLog T} (hl : Live cfg idle s) (hok : TakesSettle o s a)
    (hs : s.step cfg idle a = some s') (h : Balanced (s.mutex o) (pendingTake o s) g) :
    Balanced (s'.mutex o) (pendingTake o s') (mutexLog cfg o s a s' g) := by
  by_cases hq : .mutex o ∈ a.lists s
  · obtain ⟨c, r, hc, -, hr, rfl, hm⟩ := mutexStep_of_mem hl.toSound hs hq
    exact balanced_mutexStep hl hok hc hr hm h
  · rw [mutexLog_elsewhere hq, (objects_step hl.toSound hs).mutex o hq]
    refine h.congr fun t _ => pendingTake_eq ⟨waits_of_step hl hs hq, fun hw => ?_⟩
    rw [Pc.waits_eq, (waiter_step hl hs hq hw).call, ← Pc.waits_eq, hw]

omit [DecidableEq T] in
theorem Balanced.of_init (h : s.Init cfg) : Balanced (s.mutex o) (pendingTake o s) ⟨fun _ => 0, fun _ => 0⟩ := by
  obtain ⟨flag, hm⟩ := h.mutex o
  rw [hm]
  exact ⟨.inl ⟨rfl, rfl, rfl⟩, nofun, fun _ _ => rfl⟩

end RtThread.Ipc
