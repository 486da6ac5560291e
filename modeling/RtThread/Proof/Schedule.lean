import RtThread.Proof.ReadyTable

/-!
# `rt_schedule` and the calls around it

* `getHighestPriorityThread_ok`: the thread found is ready, and none is more urgent.
* `rtSchedule_ok`: what `rt_schedule` changes; with the scheduler unlocked it leaves a current
  thread that is at least as urgent as every ready one.
* `step_inv`, `readyTable_represents`: the ready lists and the bitmap represent the ready threads
  in every run.
-/

namespace RtThread.Sched.Scheduler

variable {T Q : Type} [DecidableEq T] [DecidableEq Q] {cfg : Config} {s s' : Scheduler T Q} {t : T}

omit [DecidableEq T] [DecidableEq Q] in
/-- **`_get_highest_priority_thread` returns a ready thread of the least priority number.** -/
theorem getHighestPriorityThread_ok (hs : s.Lists cfg none) (ht : s.stat t = .ready) :
    ∃ u p, s.getHighestPriorityThread cfg = some (u, p) ∧ s.stat u = .ready ∧ s.priority u = p ∧
      ∀ r, s.stat r = .ready → p ≤ s.priority r := by
  have bit_of_ready : ∀ r, s.stat r = .ready → s.readyBit cfg (s.priority r) = true := fun r hr =>
    (hs.bit _).2 (List.ne_nil_of_mem (hs.mem_of_ready r hr nofun))
  obtain ⟨n, hn, hbit, hmin⟩ := highestReadyPriority_eq hs.group (bit_of_ready t ht)
  obtain ⟨u, l, hl⟩ := List.exists_cons_of_ne_nil ((hs.bit n).1 hbit)
  have hu : u ∈ s.list (.priority n) := by rw [hl]; exact List.mem_cons_self
  refine ⟨u, n, ?_, (hs.ready_of_mem u n hu).1, (hs.ready_of_mem u n hu).2, fun r hr =>
    hmin _ (bit_of_ready r hr)⟩
  unfold getHighestPriorityThread
  simp [hn, hs.below u n hu, hl]

omit [DecidableEq T] [DecidableEq Q] in
theorem getHighestPriorityThread_some {u : T} {p : ℕ} (hs : s.Lists cfg none)
    (h : s.getHighestPriorityThread cfg = some (u, p)) : s.stat u = .ready ∧ s.priority u = p ∧
      ∀ r, s.stat r = .ready → p ≤ s.priority r := by
  have hu : s.stat u = .ready := by
    unfold getHighestPriorityThread at h
    simp only [Option.bind_eq_bind, Option.bind_eq_some_iff] at h
    obtain ⟨n, -, h⟩ := h
    split at h
    · simp only [Option.bind_eq_some_iff, Option.pure_def, Option.some.injEq, Prod.mk.injEq] at h
      obtain ⟨v, hv, rfl, rfl⟩ := h
      exact (hs.ready_of_mem v n (List.mem_of_mem_head? hv)).1
    · cases h
  obtain ⟨v, q, hv, hvr, hvp, hmin⟩ := getHighestPriorityThread_ok hs hu
  rw [h] at hv
  cases hv
  exact ⟨hvr, hvp, hmin⟩

omit [DecidableEq T] [DecidableEq Q] in
/-- The group is empty exactly when no thread is ready. -/
theorem Lists.group_eq_zero_iff (hs : s.Lists cfg none) :
    s.readyGroup = 0#32 ↔ ∀ r, s.stat r ≠ .ready := by
  rw [readyGroup_eq_zero_iff hs.group]
  constructor
  · intro h r hr
    have := (hs.bit _).2 (List.ne_nil_of_mem (hs.mem_of_ready r hr nofun))
    rw [h] at this
    exact Bool.noConfusion this
  · intro h n
    by_contra hn
    obtain ⟨u, l, hl⟩ := List.exists_cons_of_ne_nil ((hs.bit n).1 (by simpa using hn))
    exact h u (hs.ready_of_mem u n (by rw [hl]; exact List.mem_cons_self)).1

/-- Only thread states differ. -/
def Restat (s s' : Scheduler T Q) : Prop := ∀ u, s'.thread u = { s.thread u with stat := s'.stat u }

omit [DecidableEq T] [DecidableEq Q] in
theorem Restat.trans {s₁ : Scheduler T Q} (h : s.Restat s₁) (h' : s₁.Restat s') : s.Restat s' :=
  fun u => by rw [h' u, h u]

omit [DecidableEq T] [DecidableEq Q] in
theorem Restat.of_thread (h : s'.thread = s.thread) : s.Restat s' := fun u => by
  unfold Scheduler.stat; rw [h]

omit [DecidableEq T] [DecidableEq Q] in
theorem Restat.priority (h : s.Restat s') (u : T) : s'.priority u = s.priority u := by
  unfold Scheduler.priority; rw [h u]

omit [DecidableEq T] [DecidableEq Q] in
theorem Restat.initPriority (h : s.Restat s') (u : T) :
    (s'.thread u).initPriority = (s.thread u).initPriority := by rw [h u]

/-- What `rt_schedule` does, seen from outside. -/
structure Rescheduled (s s' : Scheduler T Q) : Prop where
  restat : s.Restat s'
  wait : ∀ q, s'.list (.wait q) = s.list (.wait q)
  lockNest : s'.lockNest = s.lockNest
  stat : ∀ u, s'.stat u = s.stat u ∨ s.stat u = .ready ∧ s'.stat u = .running ∨
    s.stat u = .running ∧ s'.stat u = .ready
  current : s'.current = s.current ∨
    ∃ u, s'.current = some u ∧ s.stat u = .ready ∧ s'.stat u = .running
  running : s.lockNest = 0#16 → (∃ r, s.stat r = .ready) → ∀ c, s'.current = some c → s'.stat c = .running
  least : s.lockNest = 0#16 → ∀ c, s'.current = some c → ∀ r, s'.stat r = .ready →
    s'.priority c ≤ s'.priority r

omit [DecidableEq Q] in
/-- A thread taken out of the ready list, or running already, and now running. -/
theorem Lists.run (hs : s.Lists cfg none) (ht : s.stat t = .ready ∨ s.stat t = .running)
    {s₁ : Scheduler T Q} (h : s.rtScheduleRemoveThread cfg t = some s₁) :
    (s₁.setStat t .running).Lists cfg none ∧ s.Restat (s₁.setStat t .running) ∧
      (∀ u, u ≠ t → (s₁.setStat t .running).stat u = s.stat u) ∧
      (∀ q, (s₁.setStat t .running).list (.wait q) = s.list (.wait q)) ∧
      (s₁.setStat t .running).current = s.current ∧
      (s₁.setStat t .running).lockNest = s.lockNest := by
  obtain ⟨hth, hlist, hc, hn, -⟩ := rtScheduleRemoveThread_ok h
  have hm := hs.masksOk (t := t) (by rcases ht with ht | ht <;> rw [ht] <;> nofun)
    (by rcases ht with ht | ht <;> rw [ht] <;> nofun)
  refine ⟨((hs.remove (.inl rfl) h).setStat _ (by rw [hth]; exact hm)).settle (by simp),
    (Restat.of_thread hth).trans (setStat_thread _), fun u hu => ?_, fun q => ?_, hc, hn⟩
  · rw [Scheduler.setStat, update_stat_ne hu]
    unfold Scheduler.stat
    rw [hth]
  · show s₁.list _ = _
    rw [hlist]
    refine rtListRemove_list_of_not_mem fun hq => ?_
    have := hs.suspend_of_mem t q hq
    rcases ht with ht | ht <;> rw [ht] at this <;> cases this

/-- **`rt_schedule`.** -/
theorem rtSchedule_ok (hs : s.Inv cfg) (h : s.rtSchedule cfg = some s') :
    s'.Inv cfg ∧ s.Rescheduled s' := by
  unfold rtSchedule at h
  by_cases hn : s.lockNest = 0#16
  swap
  · rw [if_neg hn] at h
    cases h
    exact ⟨hs, Restat.of_thread rfl, fun _ => rfl, rfl, fun _ => .inl rfl, .inl rfl, fun h => absurd h hn,
      fun h => absurd h hn⟩
  rw [if_pos hn] at h
  by_cases hg : s.readyGroup ≠ 0#32
  swap
  · rw [if_neg hg] at h
    cases h
    have hr := hs.group_eq_zero_iff.1 (not_not.1 hg)
    exact ⟨hs, Restat.of_thread rfl, fun _ => rfl, rfl, fun _ => .inl rfl, .inl rfl,
      fun _ ⟨r, h⟩ => absurd h (hr r), fun _ _ _ r h => absurd h (hr r)⟩
  rw [if_pos hg] at h
  simp only [Option.bind_eq_bind, Option.bind_eq_some_iff] at h
  obtain ⟨⟨u, p⟩, hget, c, hc, h⟩ := h
  obtain ⟨hu, hup, hmin⟩ := getHighestPriorityThread_some hs.toLists hget
  have huc : u ≠ c := fun e => hs.current c hc (e ▸ hu)
  by_cases hstay : s.stat c = .running ∧ s.priority c < p
  · -- the current thread goes on
    simp only [hstay, and_self, if_true, ne_eq, not_true_eq_false, if_false, Option.bind_eq_some_iff,
      Option.pure_def, Option.some.injEq] at h
    obtain ⟨s₁, h₁, rfl⟩ := h
    obtain ⟨hl, hre, hst, hwait, hcur, hln⟩ := hs.toLists.run (.inr hstay.1) h₁
    have hst' : ∀ x, (s₁.setStat c .running).stat x = s.stat x := by
      intro x
      by_cases hx : x = c
      · rw [hx, setStat_stat_self, hstay.1]
      · exact hst x hx
    refine ⟨{ hl with running := fun x hx => ?_, current := fun x hx => ?_ }, hre, hwait, hln,
      fun x => .inl (hst' x), .inl hcur, fun _ _ x hx => ?_, fun _ x hx r hr => ?_⟩
    · rw [hcur]
      exact hs.running x (by rw [← hst']; exact hx)
    · rw [hcur] at hx
      rw [hst']
      exact hs.current x hx
    · rw [hcur, hc] at hx
      cases hx
      exact setStat_stat_self _
    · rw [hcur, hc] at hx
      cases hx
      rw [hst'] at hr
      rw [hre.priority, hre.priority]
      have := hmin r hr
      omega
  · -- a switch to the most urgent ready thread
    simp only [hstay, if_false, ne_eq, huc, not_false_eq_true, if_true] at h
    unfold switchTo at h
    simp only [Option.bind_eq_bind, Option.bind_eq_some_iff, Option.pure_def, Option.some.injEq] at h
    obtain ⟨s₁, h₁, s₂, h₂, rfl⟩ := h
    have hput : s₁.Lists cfg none ∧ s.Restat s₁ ∧ (∀ x, x ≠ c → s₁.stat x = s.stat x) ∧
        (s₁.stat c = s.stat c ∨ s.stat c = .running ∧ s₁.stat c = .ready) ∧
        (s₁.stat c ≠ .running) ∧
        (∀ q, s₁.list (.wait q) = s.list (.wait q)) ∧ s₁.current = some u ∧
        s₁.lockNest = s.lockNest := by
      by_cases hrun : s.stat c = .running
      · simp only [hrun, decide_true, if_true] at h₁
        have hm := hs.masksOk (t := c) (by rw [hrun]; nofun) (by rw [hrun]; nofun)
        have hloose := hs.toLists.not_linked (.inr hrun)
        have hl := ((hs.toLists.loosen hloose).setCurrent (some u) s.lockNest).insert hm h₁
        obtain ⟨hre, hst, hstc, hwait, hcur, hln⟩ := rtScheduleInsertThread_ok h₁
        rw [if_neg (by simpa using huc)] at hstc
        exact ⟨hl, hre, hst, .inr ⟨hrun, hstc⟩, by rw [hstc]; nofun, hwait, hcur, hln⟩
      · simp only [hrun, decide_false, Bool.false_eq_true, if_false, Option.some.injEq] at h₁
        subst h₁
        exact ⟨hs.toLists.setCurrent (some u) s.lockNest, Restat.of_thread rfl, fun _ _ => rfl, .inl rfl,
          hrun, fun _ => rfl, rfl, rfl⟩
    obtain ⟨hl₁, hre₁, hst₁, hstc₁, hnr₁, hwait₁, hcur₁, hln₁⟩ := hput
    have hu₁ : s₁.stat u = .ready := by rw [hst₁ u huc]; exact hu
    obtain ⟨hl, hre, hst, hwait, hcur, hln⟩ := hl₁.run (.inl hu₁) h₂
    have hre' := hre₁.trans hre
    refine ⟨{ hl with running := fun x hx => ?_, current := fun x hx => ?_ }, hre', fun q => ?_,
      by rw [hln, hln₁], fun x => ?_, .inr ⟨u, by rw [hcur, hcur₁], hu, setStat_stat_self _⟩,
      fun _ _ x hx => ?_, fun _ x hx r hr => ?_⟩
    · rw [hcur, hcur₁]
      by_cases hxu : x = u
      · rw [hxu]
      · rw [hst x hxu] at hx
        by_cases hxc : x = c
        · rw [hxc] at hx
          exact absurd hx hnr₁
        · rw [hst₁ x hxc] at hx
          have := hs.running x hx
          rw [hc] at this
          exact absurd (Option.some.inj this).symm hxc
    · rw [hcur, hcur₁] at hx
      cases hx
      rw [setStat_stat_self]
      nofun
    · rw [hwait, hwait₁]
    · by_cases hxu : x = u
      · subst hxu
        exact .inr (.inl ⟨hu, setStat_stat_self _⟩)
      · rw [hst x hxu]
        by_cases hxc : x = c
        · subst hxc
          rcases hstc₁ with h | h
          · exact .inl h
          · exact .inr (.inr h)
        · exact .inl (hst₁ x hxc)
    · rw [hcur, hcur₁] at hx
      cases hx
      exact setStat_stat_self _
    · rw [hcur, hcur₁] at hx
      cases hx
      rw [hre'.priority, hre'.priority, hup]
      have hru : r ≠ u := fun e => by rw [e, setStat_stat_self] at hr; cases hr
      rw [hst r hru] at hr
      by_cases hrc : r = c
      · rw [hrc] at hr ⊢
        rcases hstc₁ with h | ⟨h, -⟩
        · rw [hr] at h
          exact absurd h.symm (hs.current c hc)
        · exact Nat.le_of_not_lt fun hlt => hstay ⟨h, hlt⟩
      · rw [hst₁ r hrc] at hr
        exact hmin r hr

/-! ## The other calls -/

omit [DecidableEq Q] in
/-- The control block of a thread that is not ready may change, if its state stays and its
masks stay right. -/
theorem Inv.updateWaiting (hs : s.Inv cfg) {f : Thread → Thread} (ht : s.stat t ≠ .ready)
    (hf : (f (s.thread t)).stat = (s.thread t).stat)
    (hm : (f (s.thread t)).MasksFit cfg) : (s.update t f).Inv cfg := by
  have hst : ∀ u, (s.update t f).stat u = s.stat u := by
    intro u
    by_cases hu : u = t
    · subst hu
      unfold stat
      rw [update_thread_self, hf]
    · exact update_stat_ne hu f
  have hpr : ∀ u, s.stat u = .ready → (s.update t f).priority u = s.priority u := fun u hu =>
    update_priority_ne (fun e => ht (by rw [← e]; exact hu)) f
  refine { nodup := hs.nodup, ready_of_mem := fun u n hu => ?_, below := hs.below,
           suspend_of_mem := fun u q hu => ?_, close_of_mem := fun u hu => ?_,
           wait_unique := hs.wait_unique, mem_of_ready := fun u hu _ => ?_, loose := nofun,
           masks := fun u => ?_, bit := hs.bit, group := hs.group,
           running := fun u hu => hs.running u (by rw [← hst]; exact hu),
           current := fun u hu => by rw [hst]; exact hs.current u hu }
  · have := hs.ready_of_mem u n hu
    rw [hst, hpr u this.1]
    exact this
  · rw [hst]
    exact hs.suspend_of_mem u q hu
  · rw [hst]
    exact hs.close_of_mem u hu
  · rw [hst] at hu
    rw [hpr u hu]
    exact hs.mem_of_ready u hu nofun
  · by_cases hut : u = t
    · subst hut
      rw [update_thread_self]
      exact hm
    · rw [update_thread_ne hut]
      exact hs.masks u

omit [DecidableEq Q] in
theorem update_field {α : Type} {g : Thread → α} {f : Thread → Thread}
    (hg : ∀ th, g (f th) = g th) (u : T) : g ((s.update t f).thread u) = g (s.thread u) := by
  by_cases hu : u = t
  · rw [hu, update_thread_self, hg]
  · rw [update_thread_ne hu]

omit [DecidableEq Q] in
theorem update_stat {f : Thread → Thread} (hf : ∀ th, (f th).stat = th.stat) (u : T) :
    (s.update t f).stat u = s.stat u := update_field hf u

omit [DecidableEq Q] in
/-- A control block may change where the scheduler does not look. -/
theorem Inv.edit (hs : s.Inv cfg) {f : Thread → Thread}
    (hf : ∀ th, (f th).stat = th.stat ∧ (f th).currentPriority = th.currentPriority ∧
      (f th).number = th.number ∧ (f th).numberMask = th.numberMask ∧ (f th).highMask = th.highMask) :
    (s.update t f).Inv cfg := by
  have hst : ∀ u, (s.update t f).stat u = s.stat u := update_stat fun th => (hf th).1
  have hpr : ∀ u, (s.update t f).priority u = s.priority u :=
    update_field (g := Thread.currentPriority) fun th => (hf th).2.1
  refine { nodup := hs.nodup, ready_of_mem := fun u n hu => ?_, below := hs.below,
           suspend_of_mem := fun u q hu => ?_, close_of_mem := fun u hu => ?_,
           wait_unique := hs.wait_unique, mem_of_ready := fun u hu hx => ?_, loose := nofun,
           masks := fun u => ?_, bit := hs.bit, group := hs.group,
           running := fun u hu => hs.running u (by rw [← hst]; exact hu),
           current := fun u hu => by rw [hst]; exact hs.current u hu }
  · rw [hst, hpr]
    exact hs.ready_of_mem u n hu
  · rw [hst]
    exact hs.suspend_of_mem u q hu
  · rw [hst]
    exact hs.close_of_mem u hu
  · rw [hst] at hu
    rw [hpr]
    exact hs.mem_of_ready u hu hx
  · rw [update_field (g := fun th => th.MasksFit cfg) fun th => ?_]
    · exact hs.masks u
    · obtain ⟨h1, h2, h3, h4, h5⟩ := hf th
      unfold Thread.MasksFit Thread.MasksOk
      rw [h1, h2, h3, h4, h5]

/-- `rt_thread_control` with `RT_THREAD_CTRL_CHANGE_PRIORITY`. -/
theorem rtThreadChangePriority_ok {p : ℕ} (hs : s.Inv cfg)
    (h : s.rtThreadChangePriority cfg t p = some s') :
    s'.Inv cfg ∧ (∀ u, u ≠ t → s'.thread u = s.thread u) ∧ s'.priority t = p ∧
      s'.stat t = s.stat t ∧ (∃ th : Thread, s'.thread t = { s.thread t with
        currentPriority := th.currentPriority, number := th.number, numberMask := th.numberMask,
        highMask := th.highMask }) ∧
      (∀ q, s'.list (.wait q) = s.list (.wait q)) ∧ s'.current = s.current ∧
      s'.lockNest = s.lockNest := by
  unfold rtThreadChangePriority at h
  by_cases ht : s.stat t = .ready
  · rw [if_pos ht] at h
    simp only [Option.bind_eq_bind, Option.bind_eq_some_iff] at h
    obtain ⟨s₁, h₁, th, hth, h₂⟩ := h
    obtain ⟨hmask, hprio, hrest⟩ := setPriority_ok hth
    obtain ⟨hth₁, hlist₁, hc₁, hn₁, -⟩ := rtScheduleRemoveThread_ok h₁
    have hl₁ := hs.toLists.remove (.inl rfl) h₁
    have hself : (s₁.update t fun _ => th).thread t = th := update_thread_self _
    have hother : ∀ u, u ≠ t → (s₁.update t fun _ => th).thread u = s.thread u := fun u hu => by
      rw [update_thread_ne hu, hth₁]
    have hl := (hl₁.update (fun _ => th) (.inl hmask)).insert (by rw [hself]; exact hmask) h₂
    obtain ⟨hre, hst, hstt, hwait, hc, hn⟩ := rtScheduleInsertThread_ok h₂
    have hcur : s'.current = s.current := hc.trans hc₁
    have hnc : s.current ≠ some t := fun e => hs.current t e ht
    have hstt' : s'.stat t = .ready := by
      rw [hstt, if_neg]
      show s₁.current ≠ _
      rw [hc₁]
      exact hnc
    have hst' : ∀ u, s'.stat u = s.stat u := by
      intro u
      by_cases hu : u = t
      · rw [hu, hstt', ht]
      · rw [hst u hu]
        unfold stat
        rw [hother u hu]
    refine ⟨{ hl with running := fun u hu => ?_, current := fun u hu => ?_ }, fun u hu => ?_, ?_, hst' t,
      ⟨th, ?_⟩, fun q => ?_, hcur, hn.trans hn₁⟩
    · rw [hcur]
      exact hs.running u (by rw [← hst']; exact hu)
    · rw [hst']
      exact hs.current u (by rw [← hcur]; exact hu)
    · rw [hre u, hother u hu, hst']
      rfl
    · unfold priority
      rw [hre t, hself, hprio]
    · rw [hre t, hself, hst', hrest, hth₁]
      rfl
    · rw [hwait]
      show s₁.list _ = _
      rw [hlist₁]
      refine rtListRemove_list_of_not_mem fun hq => ?_
      have := hs.suspend_of_mem t q hq
      rw [ht] at this
      cases this
  · rw [if_neg ht] at h
    simp only [Option.bind_eq_bind, Option.bind_eq_some_iff, Option.pure_def, Option.some.injEq] at h
    obtain ⟨th, hth, rfl⟩ := h
    obtain ⟨hmask, hprio, hrest⟩ := setPriority_ok hth
    have hself : (s.update t fun _ => th).thread t = th := update_thread_self _
    refine ⟨hs.updateWaiting ht (by rw [hrest]) (.inl hmask), fun u hu => update_thread_ne hu _, ?_, ?_,
      ⟨th, ?_⟩, fun _ => rfl, rfl, rfl⟩
    · unfold priority
      rw [hself, hprio]
    · unfold stat
      rw [hself, hrest]
    · rw [hself, hrest]

/-- **`rt_thread_timeout`** wakes the thread with `-RT_ETIMEOUT` and schedules. -/
theorem rtThreadTimeout_ok (hs : s.Inv cfg) (h : s.rtThreadTimeout cfg t = some s') :
    s.stat t = .suspend ∧ ∃ s₁ : Scheduler T Q, s₁.Inv cfg ∧
      s₁.thread t = { s.thread t with stat := s₁.stat t, error := .etimeout } ∧
      s.Moves s₁ t (if s.current = some t then .running else .ready)
        (fun q => (s.list (.wait q)).filter (· ≠ t)) ∧ s'.Inv cfg ∧ s₁.Rescheduled s' := by
  unfold rtThreadTimeout at h
  by_cases ht : s.stat t = .suspend
  · rw [if_pos ht] at h
    simp only [Option.bind_eq_bind, Option.bind_eq_some_iff] at h
    obtain ⟨s₁, h₁, h₂⟩ := h
    obtain ⟨hi, hself, hmv⟩ := wake_ok (f := fun th => { th with error := .etimeout }) hs ht
      (hs.masksOk (by rw [ht]; nofun) (by rw [ht]; nofun)) rfl rfl h₁
    exact ⟨ht, s₁, hi, hself, hmv, rtSchedule_ok hi h₂⟩
  · rw [if_neg ht] at h
    cases h

/-- **`rt_thread_startup`** makes an initialised thread ready at its initial priority. -/
theorem makeReady_ok (hs : s.Inv cfg) (h : s.makeReady cfg t = some s') :
    s.stat t = .init ∧ s'.Inv cfg ∧ (∀ u, u ≠ t → s'.thread u = s.thread u) ∧
      s'.priority t = (s.thread t).initPriority ∧
      s'.stat t = (if s.current = some t then .running else .ready) ∧
      (∃ th : Thread, s'.thread t = { s.thread t with
        stat := s'.stat t, timerActive := false, currentPriority := th.currentPriority,
        number := th.number, numberMask := th.numberMask, highMask := th.highMask }) ∧
      (∀ q, s'.list (.wait q) = s.list (.wait q)) ∧ s'.current = s.current ∧
      s'.lockNest = s.lockNest := by
  unfold makeReady at h
  by_cases ht : s.stat t = .init
  · rw [if_pos ht] at h
    simp only [Option.bind_eq_bind, Option.bind_eq_some_iff, Option.pure_def, Option.some.injEq] at h
    obtain ⟨th, hth, ⟨e, s₁⟩, h₁, rfl⟩ := h
    obtain ⟨hmask, hprio, hrest⟩ := setPriority_ok hth
    have hloose := hs.toLists.not_linked (.inl ht)
    have hself : (s.update t fun _ => { th with stat := .suspend }).thread t =
        { th with stat := .suspend } := update_thread_self _
    have hst₀ : (s.update t fun _ => { th with stat := .suspend }).stat t = .suspend := by
      unfold stat
      rw [hself]
    have hi₀ : (s.update t fun _ => { th with stat := .suspend }).Inv cfg := by
      refine { ((hs.toLists.loosen hloose).update _ (.inl hmask)).settle (by rw [hst₀]; nofun) with
        running := fun u hu => ?_, current := fun u hu => ?_ }
      · have hut : u ≠ t := fun e => by rw [e, hst₀] at hu; cases hu
        rw [update_stat_ne hut] at hu
        exact hs.running u hu
      · by_cases hut : u = t
        · rw [hut, hst₀]
          nofun
        · rw [update_stat_ne hut]
          exact hs.current u hu
    obtain ⟨hi₁, ⟨hne, -⟩ | ⟨-, -, hself₁, hmv⟩⟩ := rtThreadResume_ok hi₀ h₁
    · exact absurd hst₀ hne
    refine ⟨ht, hi₁, fun u hu => by rw [hmv.other u hu, update_thread_ne hu], ?_, hmv.stat, ⟨th, ?_⟩,
      fun q => ?_, hmv.current, hmv.lockNest⟩
    · unfold priority
      rw [hself₁, hself, hprio]
    · rw [hself₁, hself, hrest]
    · rw [hmv.wait]
      refine List.filter_eq_self.2 fun u hu => ?_
      have : u ≠ t := fun e => hloose _ (e ▸ hu)
      simpa using this
  · rw [if_neg ht] at h
    cases h

/-- **The end of a thread** that is off the lists. -/
theorem close_inv (hs : s.Lists cfg (some t)) (hr : ∀ u, u ≠ t → s.stat u = .running → s.current = some u)
    (hc : ∀ u, u ≠ t → s.current = some u → s.stat u ≠ .ready) : (s.close t).Inv cfg := by
  have hl : ((s.setTimer t false).setStat t .close).Lists cfg (some t) := by
    have hm₀ : ({ s.thread t with timerActive := false } : Thread).MasksFit cfg := hs.masks t
    have hself : (s.setTimer t false).thread t = { s.thread t with timerActive := false } :=
      update_thread_self _
    refine (hs.update _ hm₀).update _ ?_
    show ({ (s.setTimer t false).thread t with stat := .close } : Thread).MasksFit cfg
    rw [hself]
    rcases hs.masks t with h | ⟨h, -⟩
    · exact .inl h
    · exact .inr ⟨h, .inr rfl⟩
  have hst : ∀ u, u ≠ t → ((s.setTimer t false).setStat t .close).stat u = s.stat u := fun u hu => by
    rw [setStat, update_stat_ne hu, setTimer, update_stat_ne hu]
  have hstt : ((s.setTimer t false).setStat t .close).stat t = .close := setStat_stat_self _
  -- linked into the defunct list or not, the thread is closed
  have key : ∀ s₁ : Scheduler T Q, s₁.Lists cfg none →
      s₁.thread = ((s.setTimer t false).setStat t .close).thread → s₁.current = s.current →
      s₁.Inv cfg := by
    intro s₁ hl₁ hth hcur
    have hst₁ : ∀ u, s₁.stat u = ((s.setTimer t false).setStat t .close).stat u := fun u => by
      unfold stat
      rw [hth]
    refine { hl₁ with running := fun u hu => ?_, current := fun u hu => ?_ }
    · have hut : u ≠ t := fun e => by rw [e, hst₁, hstt] at hu; cases hu
      rw [hst₁, hst u hut] at hu
      rw [hcur]
      exact hr u hut hu
    · rw [hst₁]
      by_cases hut : u = t
      · rw [hut, hstt]
        simp
      · rw [hst u hut]
        rw [hcur] at hu
        exact hc u hut hu
  unfold close
  dsimp only
  split
  · exact key _ (hl.settle (by rw [hstt]; simp)) rfl rfl
  · exact key _ (hl.link (List.Perm.refl _) (.inr ⟨rfl, hstt⟩)) rfl rfl

/-- A thread that ends leaves its list first. -/
theorem remove_close {s₁ : Scheduler T Q} (hs : s.Inv cfg) (h : s.rtScheduleRemoveThread cfg t = some s₁) :
    (s₁.close t).Inv cfg := by
  obtain ⟨hth, -, hcur, -, -⟩ := rtScheduleRemoveThread_ok h
  have hst : ∀ u, s₁.stat u = s.stat u := fun u => by unfold stat; rw [hth]
  refine close_inv (hs.toLists.remove (.inl rfl) h) (fun u _ hu => ?_) fun u _ hu => ?_
  · rw [hcur]
    exact hs.running u (by rw [← hst]; exact hu)
  · rw [hst]
    exact hs.current u (by rw [← hcur]; exact hu)

/-- A thread that never started is in no list. -/
theorem removeStarted_close {s₁ : Scheduler T Q} (hs : s.Inv cfg)
    (h : (if s.stat t ≠ .init then s.rtScheduleRemoveThread cfg t else some s) = some s₁) :
    (s₁.close t).Inv cfg := by
  by_cases ht : s.stat t = .init
  · rw [if_neg (not_not.2 ht)] at h
    cases h
    exact close_inv (hs.toLists.loosen (hs.toLists.not_linked (.inl ht))) (fun u _ => hs.running u)
      fun u _ => hs.current u
  · rw [if_pos ht] at h
    exact remove_close hs h

omit [DecidableEq T] [DecidableEq Q] in
/-- The lock does not matter to the invariant. -/
theorem Inv.setLock (hs : s.Inv cfg) (n : BitVec 16) : { s with lockNest := n }.Inv cfg :=
  { hs.toLists.setCurrent s.current n with running := hs.running, current := hs.current }

theorem rtExitCritical_inv (hs : s.Inv cfg) (h : s.rtExitCritical cfg = some s') : s'.Inv cfg := by
  unfold rtExitCritical at h
  simp only at h
  split at h
  · split at h
    · exact (rtSchedule_ok (hs.setLock _) h).1
    · cases h
      exact hs.setLock _
  · cases h
    exact hs.setLock _

omit [DecidableEq Q] in
/-- `rt_system_scheduler_start`, when no thread runs yet. -/
theorem rtSystemSchedulerStart_ok (hs : s.Inv cfg) (hc : s.current = none)
    (h : s.rtSystemSchedulerStart cfg = some s') : s'.Inv cfg ∧ s.Restat s' ∧
      (∀ q, s'.list (.wait q) = s.list (.wait q)) ∧ s'.lockNest = s.lockNest ∧
      ∃ u, s'.current = some u ∧ s.stat u = .ready ∧ s'.stat u = .running ∧
        (∀ x, x ≠ u → s'.stat x = s.stat x) ∧ ∀ r, s.stat r = .ready → s.priority u ≤ s.priority r := by
  unfold rtSystemSchedulerStart at h
  simp only [Option.bind_eq_bind, Option.bind_eq_some_iff, Option.pure_def, Option.some.injEq] at h
  obtain ⟨⟨u, p⟩, hget, s₁, h₁, rfl⟩ := h
  obtain ⟨hu, hup, hmin⟩ := getHighestPriorityThread_some hs.toLists hget
  obtain ⟨hl, hre, hst, hwait, hcur, hn⟩ := (hs.toLists.setCurrent (some u) s.lockNest).run (.inl hu) h₁
  refine ⟨{ hl with running := fun x hx => ?_, current := fun x hx => ?_ }, hre, hwait, hn, u, hcur, hu,
    setStat_stat_self _, hst, fun r hr => hup ▸ hmin r hr⟩
  · rw [hcur]
    by_cases hxu : x = u
    · rw [hxu]
    · rw [hst x hxu] at hx
      have := hs.running x hx
      rw [hc] at this
      cases this
  · rw [hcur] at hx
    cases hx
    rw [setStat_stat_self]
    nofun

/-! ## Runs -/

omit [DecidableEq T] [DecidableEq Q] in
theorem init_inv (h : s.Init cfg) : s.Inv cfg := by
  obtain ⟨th, hth, rfl⟩ := h
  have hinit : ∀ t, (th t).stat = .init ∧ (th t).numberMask = 0#32 ∧ (th t).highMask = 0#8 := by
    intro t
    obtain ⟨p, sys, x, c, hx, hx'⟩ := hth t
    rw [hx']
    unfold rtThreadInit at hx
    split at hx
    · cases hx
      exact ⟨rfl, rfl, rfl⟩
    · cases hx
  refine { nodup := fun _ => List.nodup_nil, ready_of_mem := nofun, below := nofun,
           suspend_of_mem := nofun, close_of_mem := nofun, wait_unique := nofun,
           mem_of_ready := fun t ht _ => ?_, loose := nofun,
           masks := fun t => .inr ⟨(hinit t).2, .inl (hinit t).1⟩, bit := fun n => ?_,
           group := fun _ r => ?_, running := fun t ht => ?_, current := nofun }
  · have : (th t).stat = .ready := ht
    rw [(hinit t).1] at this
    cases this
  · unfold readyBit rtSystemSchedulerInit
    simp
  · simp [rtSystemSchedulerInit]
  · have : (th t).stat = .running := ht
    rw [(hinit t).1] at this
    cases this

/-- **Every call keeps the invariant.** -/
theorem step_inv {op : Op T Q} (hs : s.Inv cfg) (h : s.step cfg op = some s') : s'.Inv cfg := by
  cases op with
  | startup t =>
    simp only [step, rtThreadStartup, Option.bind_eq_bind, Option.bind_eq_some_iff] at h
    obtain ⟨s₁, h₁, h⟩ := h
    have hi := (makeReady_ok hs h₁).2.1
    split at h
    · exact (rtSchedule_ok hi h).1
    · cases h
      exact hi
  | suspend t =>
    simp only [step, Option.map_eq_some_iff] at h
    obtain ⟨⟨e, s₁⟩, h₁, rfl⟩ := h
    rcases rtThreadSuspend_ok hs h₁ with ⟨-, rfl⟩ | ⟨-, -, hi, -⟩
    · exact hs
    · exact hi
  | resume t =>
    simp only [step, Option.map_eq_some_iff] at h
    obtain ⟨⟨e, s₁⟩, h₁, rfl⟩ := h
    exact (rtThreadResume_ok hs h₁).1
  | delete t =>
    simp only [step, rtThreadDelete] at h
    split at h
    · simp only [Option.bind_eq_bind, Option.bind_eq_some_iff, Option.pure_def, Option.some.injEq] at h
      obtain ⟨s₁, h₁, rfl⟩ := h
      exact removeStarted_close hs h₁
    · cases h
  | detach t =>
    simp only [step, rtThreadDetach] at h
    split at h
    · simp only [Option.bind_eq_bind, Option.bind_eq_some_iff, Option.pure_def, Option.some.injEq] at h
      obtain ⟨s₁, h₁, rfl⟩ := h
      exact removeStarted_close hs h₁
    · cases h
  | exit =>
    simp only [step, rtThreadExit, Option.bind_eq_bind, Option.bind_eq_some_iff] at h
    obtain ⟨c, hc, s₁, h₁, h₂⟩ := h
    exact (rtSchedule_ok (remove_close hs h₁) h₂).1
  | timeout t =>
    obtain ⟨-, s₁, -, -, -, hi, -⟩ := rtThreadTimeout_ok hs h
    exact hi
  | changePriority t p => exact (rtThreadChangePriority_ok hs h).1
  | schedule => exact (rtSchedule_ok hs h).1
  | schedulerStart =>
    simp only [step] at h
    split at h
    · exact (rtSystemSchedulerStart_ok hs ‹_› h).1
    · cases h
  | enterCritical =>
    cases h
    exact hs.setLock _
  | exitCritical => exact rtExitCritical_inv hs h
  | ipcListSuspend q flag =>
    simp only [step, Option.bind_eq_some_iff] at h
    obtain ⟨c, -, h⟩ := h
    exact (rtIpcListSuspend_ok hs h).1
  | ipcListResume q =>
    simp only [step, rtIpcListResume, Option.bind_eq_bind, Option.bind_eq_some_iff, Option.pure_def,
      Option.some.injEq] at h
    obtain ⟨c, -, ⟨e, s₁⟩, h₁, rfl⟩ := h
    exact (rtThreadResume_ok hs h₁).1

/-- The invariant says that the bitmap and the lists represent the ready threads. -/
theorem Inv.represents (hs : s.Inv cfg) : s.Represents cfg where
  ready := by
    intro t ht h
    by_cases hh : h = .priority (s.priority t)
    · rw [if_pos hh, hh]
      exact List.count_eq_one_of_mem (hs.nodup _) (hs.mem_of_ready t ht nofun)
    · rw [if_neg hh]
      refine List.count_eq_zero_of_not_mem fun hmem => hh ?_
      rcases h with n | q | _
      · rw [(hs.ready_of_mem t n hmem).2]
      · have := hs.suspend_of_mem t q hmem
        rw [ht] at this
        cases this
      · have := hs.close_of_mem t hmem
        rw [ht] at this
        cases this
  other := fun t n h => (hs.ready_of_mem t n h).1
  bit := hs.bit
  group := by
    intro hw r
    rw [hs.group hw]
    constructor
    · intro hne
      have : ∃ i, (s.readyTable r).getLsbD i = true := by
        by_contra hno
        push Not at hno
        exact hne ((Bits.eq_zero_iff _).2 fun n => by simpa using hno n)
      obtain ⟨i, hi⟩ := this
      have hi8 : i < 8 := by
        by_contra hge
        rw [BitVec.getLsbD_of_ge _ i (by omega)] at hi
        exact Bool.noConfusion hi
      refine ⟨8 * r + i, by omega, (hs.bit _).1 ?_⟩
      unfold readyBit
      rw [if_pos hw, show (8 * r + i) / 8 = r by omega, show (8 * r + i) % 8 = i by omega]
      exact hi
    · rintro ⟨n, rfl, hn⟩ h0
      have := (hs.bit n).2 hn
      unfold readyBit at this
      rw [if_pos hw, h0, BitVec.getLsbD_zero] at this
      exact Bool.noConfusion this
  highest := fun t ht => getHighestPriorityThread_ok hs.toLists ht

/-- **In every reachable state** the ready lists and the bitmap represent the ready threads. -/
theorem readyTable_represents
    (h : Run.Reach (Scheduler.Init cfg) (fun s op s' => s.step cfg op = some s') Run.Any s) :
    s.Represents cfg :=
  Inv.represents (h.inv (I := fun s => Inv cfg s) (fun _ => init_inv) fun _ _ _ hs _ => step_inv hs)
/-- Two threads start, the second gets a more urgent priority and is scheduled, the first one
is suspended, and the second one waits in an IPC list until its timeout. -/
theorem readyTable_represents_two : ∃ s : Scheduler ℕ Unit,
    Run.exec (fun s op => s.step ⟨256, le_rfl⟩ op)
      (rtSystemSchedulerInit fun n => { initPriority := n % 256, currentPriority := n % 256 })
      [.startup 20, .startup 70, .schedulerStart, .changePriority 70 10, .schedule, .suspend 20,
        .ipcListSuspend () .prio, .timeout 70] = some s ∧ s.Represents ⟨256, le_rfl⟩ := by
  obtain ⟨s, hs⟩ := Option.isSome_iff_exists.1 (show (Run.exec (fun s op => s.step ⟨256, le_rfl⟩ op)
    (rtSystemSchedulerInit fun n => { initPriority := n % 256, currentPriority := n % 256 })
    [.startup 20, .startup 70, .schedulerStart, .changePriority 70 10, .schedule, .suspend 20,
      .ipcListSuspend () .prio, .timeout 70]).isSome = true by decide)
  refine ⟨s, hs, readyTable_represents (.exec (.init ⟨_, fun n => ?_, rfl⟩) hs)⟩
  exact ⟨n % 256, false, _, false, if_pos (Nat.mod_lt n (by decide)), rfl⟩

end RtThread.Sched.Scheduler
