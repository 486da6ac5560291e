import RtThread.Proof.Schedule

/-!
# Wait lists by priority

A waiter goes into the list of an object with `RT_IPC_FLAG_PRIO` behind all that are as urgent as it
is. `Arrivals` numbers the waits in the order in which they begin, and `Before` is the order in which
waiters should be resumed.

* `Thins`, `thins_step`: all calls but two only take waiters out of their lists.
* `wait_ordered`: such a list is in order, and the first waiter the most urgent one, in every run in
  which no waiting thread gets a priority that changes its place in line.
* `wait_disordered`: a waiter is left where it is when its priority is raised.
-/

namespace RtThread.Sched.Scheduler

open Run

variable {T Q : Type} [DecidableEq T] [DecidableEq Q] {cfg : Config} {s s' s₁ : Scheduler T Q} {t : T}

/-- A history of the waits: the number of each thread's last one, and the next number. -/
structure Arrivals (T : Type) where
  stamp : T → ℕ := fun _ => 0
  next : ℕ := 1

/-- The current thread's wait gets the next number. -/
def arrivalLog (s : Scheduler T Q) (op : Op T Q) (_ : Scheduler T Q) (g : Arrivals T) : Arrivals T :=
  match op, s.current with
  | .ipcListSuspend _ _, some c => { stamp := Function.update g.stamp c g.next, next := g.next + 1 }
  | _, _ => g

/-- Thread `a` should be resumed before `b`: it is more urgent, or as urgent and came first. -/
def Before (s : Scheduler T Q) (g : Arrivals T) (a b : T) : Prop :=
  s.priority a < s.priority b ∨ s.priority a = s.priority b ∧ g.stamp a < g.stamp b

/-- With priority `p` thread `t` keeps its place among the waiters of the lists in priority order. -/
def KeepsPlace (flag : Q → IpcFlag) (s : Scheduler T Q) (g : Arrivals T) (t : T) (p : ℕ) : Prop :=
  ∀ q, flag q = .prio → ∀ l₁ l₂, s.list (.wait q) = l₁ ++ t :: l₂ →
    (∀ u ∈ l₁, s.priority u < p ∨ s.priority u = p ∧ g.stamp u < g.stamp t) ∧
      ∀ u ∈ l₂, p < s.priority u ∨ p = s.priority u ∧ g.stamp t < g.stamp u

/-- Object `q` is created with `flag q`, and no change of a priority moves a waiter in line. -/
def PlacesKept (flag : Q → IpcFlag) (p : Scheduler T Q × Arrivals T) : Op T Q → Prop
  | .ipcListSuspend q f => f = flag q
  | .changePriority t n => KeepsPlace flag p.1 p.2 t n
  | _ => True

/-- Object `q` is created with `flag q`. -/
def Flagged (flag : Q → IpcFlag) (_ : Scheduler T Q × Arrivals T) : Op T Q → Prop
  | .ipcListSuspend q f => f = flag q
  | _ => True

/-- The runs with the numbers of the waits. -/
abbrev WaitRuns (cfg : Config) (ok : Scheduler T Q × Arrivals T → Op T Q → Prop) :
    Scheduler T Q × Arrivals T → Prop :=
  Reach (fun p => p.1.Init cfg ∧ p.2 = {}) (Logged (fun s op s' => s.step cfg op = some s') arrivalLog) ok

/-- **Wait lists by priority** in a state. -/
structure WaitOrdered (cfg : Config) (flag : Q → IpcFlag) (s : Scheduler T Q) (g : Arrivals T) : Prop where
  /-- the list is sorted by priority, waiters of one priority as they came -/
  sorted : ∀ q, flag q = .prio → (s.list (.wait q)).Pairwise (s.Before g)
  /-- the thread that a release resumes is a most urgent waiter -/
  urgent : ∀ q s', flag q = .prio → s.step cfg (.ipcListResume q) = some s' →
    ∃ t ∈ s.list (.wait q), s'.stat t ≠ .suspend ∧ t ∉ s'.list (.wait q) ∧
      ∀ u ∈ s.list (.wait q), s.priority t ≤ s.priority u

/-! ## Calls that only resume waiters -/

/-- Waiters are only taken out, and keep their priorities. -/
structure Thins (s s' : Scheduler T Q) : Prop where
  wait : ∀ q, (s'.list (.wait q)).Sublist (s.list (.wait q))
  priority : ∀ q, ∀ u ∈ s'.list (.wait q), s'.priority u = s.priority u

namespace Thins

omit [DecidableEq T] [DecidableEq Q] in
theorem trans (h : s.Thins s₁) (h' : s₁.Thins s') : s.Thins s' where
  wait := fun q => (h'.wait q).trans (h.wait q)
  priority := fun q u hu => (h'.priority q u hu).trans (h.priority q u ((h'.wait q).subset hu))

omit [DecidableEq T] [DecidableEq Q] in
theorem refl : s.Thins s := ⟨fun _ => List.Sublist.refl _, fun _ _ _ => rfl⟩

omit [DecidableEq T] [DecidableEq Q] in
theorem of_restat (h : s.Restat s') (hw : ∀ q, s'.list (.wait q) = s.list (.wait q)) : s.Thins s' :=
  ⟨fun q => by rw [hw], fun _ u _ => h.priority u⟩

omit [DecidableEq T] [DecidableEq Q] in
theorem of_rescheduled (h : s.Rescheduled s') : s.Thins s' := of_restat h.restat h.wait

omit [DecidableEq T] [DecidableEq Q] in
theorem of_moves {v : Stat} {w : Q → List T} (h : s.Moves s' t v w)
    (hw : ∀ q, (w q).Sublist (s.list (.wait q))) : s.Thins s' := by
  refine ⟨fun q => by rw [h.wait]; exact hw q, fun q u _ => ?_⟩
  by_cases hu : u = t
  · rw [hu, h.priority]
  · unfold Scheduler.priority
    rw [h.other u hu]

theorem of_resume {e : Err} (hs : s.Inv cfg) (h : s.rtThreadResume cfg t = some (e, s')) : s.Thins s' := by
  obtain ⟨-, ⟨-, -, rfl⟩ | ⟨-, -, -, hmv⟩⟩ := rtThreadResume_ok hs h
  · exact refl
  · exact of_moves hmv fun q => List.filter_sublist

theorem of_makeReady (hs : s.Inv cfg) (h : s.makeReady cfg t = some s') : s.Thins s' := by
  obtain ⟨hinit, -, hother, -, -, -, hwait, -⟩ := makeReady_ok hs h
  refine ⟨fun q => by rw [hwait], fun q u hu => ?_⟩
  -- a thread that waits has been started
  have hut : u ≠ t := by
    rintro rfl
    rw [hwait] at hu
    have := hs.suspend_of_mem u q hu
    rw [hinit] at this
    cases this
  unfold Scheduler.priority
  rw [hother u hut]

omit [DecidableEq Q] in
theorem of_remove (h : s.rtScheduleRemoveThread cfg t = some s') : s.Thins s' := by
  obtain ⟨hth, hlist, -⟩ := rtScheduleRemoveThread_ok h
  refine ⟨fun q => by rw [hlist]; exact List.filter_sublist, fun q u _ => ?_⟩
  unfold Scheduler.priority
  rw [hth]

theorem of_close : s.Thins (s.close t) := by
  have hpr : ∀ u, ((s.setTimer t false).setStat t .close).priority u = s.priority u := by
    intro u
    have hstat : ((s.setTimer t false).setStat t .close).priority u = (s.setTimer t false).priority u :=
      update_field (g := Thread.currentPriority) (f := fun th => { th with stat := .close }) (fun _ => rfl) u
    exact hstat.trans
      (update_field (g := Thread.currentPriority) (f := fun th => { th with timerActive := false })
        (fun _ => rfl) u)
  unfold close
  dsimp only
  split
  · exact ⟨fun q => List.Sublist.refl _, fun _ u _ => hpr u⟩
  · exact ⟨fun q => List.Sublist.refl _, fun _ u _ => hpr u⟩

end Thins

/-- **All calls but two** only take waiters out of their lists. -/
theorem thins_step {op : Op T Q} (hs : s.Inv cfg) (hw : ∀ q f, op ≠ .ipcListSuspend q f)
    (hp : ∀ t p, op ≠ .changePriority t p) (h : s.step cfg op = some s') : s.Thins s' := by
  cases op with
  | startup t =>
    simp only [step, rtThreadStartup, Option.bind_eq_bind, Option.bind_eq_some_iff] at h
    obtain ⟨s₁, h₁, h⟩ := h
    have hi := (makeReady_ok hs h₁).2.1
    split at h
    · exact (Thins.of_makeReady hs h₁).trans (.of_rescheduled (rtSchedule_ok hi h).2)
    · cases h
      exact .of_makeReady hs h₁
  | suspend t =>
    simp only [step, Option.map_eq_some_iff] at h
    obtain ⟨⟨e, s₁⟩, h₁, rfl⟩ := h
    rcases rtThreadSuspend_ok hs h₁ with ⟨-, rfl⟩ | ⟨-, -, -, -, -, hmv⟩
    · exact .refl
    · exact .of_moves hmv fun _ => List.Sublist.refl _
  | resume t =>
    simp only [step, Option.map_eq_some_iff] at h
    obtain ⟨⟨e, s₁⟩, h₁, rfl⟩ := h
    exact .of_resume hs h₁
  | delete t =>
    simp only [step, rtThreadDelete] at h
    split at h
    swap
    · cases h
    simp only [Option.bind_eq_bind, Option.bind_eq_some_iff, Option.pure_def, Option.some.injEq] at h
    obtain ⟨s₁, h₁, rfl⟩ := h
    split at h₁
    · exact (Thins.of_remove h₁).trans .of_close
    · cases h₁
      exact .of_close
  | detach t =>
    simp only [step, rtThreadDetach] at h
    split at h
    swap
    · cases h
    simp only [Option.bind_eq_bind, Option.bind_eq_some_iff, Option.pure_def, Option.some.injEq] at h
    obtain ⟨s₁, h₁, rfl⟩ := h
    split at h₁
    · exact (Thins.of_remove h₁).trans .of_close
    · cases h₁
      exact .of_close
  | exit =>
    simp only [step, rtThreadExit, Option.bind_eq_bind, Option.bind_eq_some_iff] at h
    obtain ⟨c, hc, s₁, h₁, h₂⟩ := h
    have hclose : (s₁.close c).Inv cfg := remove_close hs h₁
    exact ((Thins.of_remove h₁).trans .of_close).trans (.of_rescheduled (rtSchedule_ok hclose h₂).2)
  | timeout t =>
    obtain ⟨-, s₁, -, -, hmv, -, hre⟩ := rtThreadTimeout_ok hs h
    exact (Thins.of_moves hmv fun q => List.filter_sublist).trans (.of_rescheduled hre)
  | changePriority t p => exact absurd rfl (hp t p)
  | schedule => exact .of_rescheduled (rtSchedule_ok hs h).2
  | schedulerStart =>
    simp only [step] at h
    split at h
    · obtain ⟨-, hre, hwait, -⟩ := rtSystemSchedulerStart_ok hs ‹_› h
      exact .of_restat hre hwait
    · cases h
  | enterCritical =>
    cases h
    exact ⟨fun _ => List.Sublist.refl _, fun _ _ _ => rfl⟩
  | exitCritical =>
    simp only [step, rtExitCritical] at h
    split at h
    · split at h
      · obtain ⟨hre, hwait, -⟩ := (rtSchedule_ok (hs.setLock 0#16) h).2
        exact .of_restat hre hwait
      · cases h
        exact ⟨fun _ => List.Sublist.refl _, fun _ _ _ => rfl⟩
    · cases h
      exact ⟨fun _ => List.Sublist.refl _, fun _ _ _ => rfl⟩
  | ipcListSuspend q flag => exact absurd rfl (hw q flag)
  | ipcListResume q =>
    simp only [step, rtIpcListResume, Option.bind_eq_bind, Option.bind_eq_some_iff, Option.pure_def,
      Option.some.injEq] at h
    obtain ⟨c, -, ⟨e, s₁⟩, h₁, rfl⟩ := h
    exact .of_resume hs h₁

/-! ## Lists in order -/

/-- The invariant: the lists by priority are in order, and the next number is new. -/
structure Ordered (flag : Q → IpcFlag) (s : Scheduler T Q) (g : Arrivals T) : Prop where
  sorted : ∀ q, flag q = .prio → (s.list (.wait q)).Pairwise (s.Before g)
  fresh : ∀ t, g.stamp t < g.next

variable {flag : Q → IpcFlag} {g : Arrivals T}

omit [DecidableEq T] [DecidableEq Q] in
theorem Ordered.thin (h : Ordered flag s g) (ht : s.Thins s') : Ordered flag s' g := by
  refine ⟨fun q hq => ?_, h.fresh⟩
  refine ((h.sorted q hq).sublist (ht.wait q)).imp_of_mem fun {a b} ha hb hab => ?_
  unfold Before
  rw [ht.priority q a ha, ht.priority q b hb]
  exact hab

/-- **A new waiter** goes in behind those that are as urgent. -/
theorem Ordered.wait (h : Ordered flag s g) (hs : s.Inv cfg) {q : Q} {f : IpcFlag} (hf : f = flag q)
    (hr : s.rtIpcListSuspend cfg q t f = some s') :
    Ordered flag s' { stamp := Function.update g.stamp t g.next, next := g.next + 1 } := by
  obtain ⟨-, hst, -, l, -, hmv, hl⟩ := rtIpcListSuspend_ok hs hr
  have hout : ∀ q', t ∉ s.list (.wait q') := by
    intro q' ht
    have := hs.suspend_of_mem t q' ht
    rcases hst with hst | hst <;> rw [hst] at this <;> cases this
  have hpr : ∀ u, s'.priority u = s.priority u := by
    intro u
    by_cases hu : u = t
    · rw [hu, hmv.priority]
    · unfold Scheduler.priority
      rw [hmv.other u hu]
  -- the waiters keep their numbers
  have hold : ∀ q', flag q' = .prio → (s.list (.wait q')).Pairwise
      (s'.Before { stamp := Function.update g.stamp t g.next, next := g.next + 1 }) := by
    intro q' hq'
    refine (h.sorted q' hq').imp_of_mem fun {a b} ha hb hab => ?_
    have hat : a ≠ t := fun e => hout q' (e ▸ ha)
    have hbt : b ≠ t := fun e => hout q' (e ▸ hb)
    unfold Before
    rw [hpr, hpr]
    simp only [Function.update_of_ne hat, Function.update_of_ne hbt]
    exact hab
  refine ⟨fun q' hq' => ?_, fun u => ?_⟩
  · rw [hmv.wait]
    by_cases hqq : q' = q
    swap
    · rw [Function.update_of_ne hqq]
      exact hold q' hq'
    subst hqq
    obtain rfl : f = .prio := hf.trans hq'
    rw [Function.update_self, hl]
    refine Queue.pairwise_insertBefore (hold q' hq') ?_ (fun y hy hp => ?_) fun y hy hp => ?_
    · refine (h.sorted q' hq').imp fun {a b} hab ha => ?_
      rw [decide_eq_true_eq] at ha ⊢
      rcases hab with hab | ⟨hab, -⟩ <;> omega
    · -- a waiter that is passed is as urgent, and came first
      have hyt : y ≠ t := fun e => hout q' (e ▸ hy)
      have hyn := h.fresh y
      unfold Before
      rw [hpr, hpr]
      simp only [Function.update_of_ne hyt, Function.update_self]
      rw [decide_eq_false_iff_not] at hp
      omega
    · rw [decide_eq_true_eq] at hp
      refine .inl ?_
      rw [hpr, hpr]
      exact hp
  · by_cases hu : u = t
    · rw [hu]
      simp
    · have := h.fresh u
      simp only [Function.update_of_ne hu]
      omega

/-- A waiter whose new priority keeps its place. -/
theorem Ordered.changePriority (h : Ordered flag s g) (hs : s.Inv cfg) {p : ℕ}
    (hk : KeepsPlace flag s g t p) (hr : s.rtThreadChangePriority cfg t p = some s') :
    Ordered flag s' g := by
  obtain ⟨-, hother, hp, -, -, hwait, -⟩ := rtThreadChangePriority_ok hs hr
  refine ⟨fun q hq => ?_, h.fresh⟩
  have hpr : ∀ u, u ≠ t → s'.priority u = s.priority u := fun u hu => by
    unfold Scheduler.priority
    rw [hother u hu]
  rw [hwait]
  have hsorted := h.sorted q hq
  have hnd := hs.nodup (.wait q)
  by_cases ht : t ∈ s.list (.wait q)
  swap
  · refine hsorted.imp_of_mem fun {a b} ha hb hab => ?_
    unfold Before
    rw [hpr a fun e => ht (e ▸ ha), hpr b fun e => ht (e ▸ hb)]
    exact hab
  obtain ⟨l₁, l₂, hl⟩ := List.append_of_mem ht
  obtain ⟨hk₁, hk₂⟩ := hk q hq l₁ l₂ hl
  rw [hl] at hsorted hnd ⊢
  have hne₁ : ∀ u ∈ l₁, u ≠ t := by
    rintro u hu rfl
    exact (List.nodup_append.1 hnd).2.2 u hu u List.mem_cons_self rfl
  have hne₂ : ∀ u ∈ l₂, u ≠ t := by
    rintro u hu rfl
    exact (List.nodup_cons.1 (List.nodup_append.1 hnd).2.1).1 hu
  have hsame : ∀ {a b : T}, a ≠ t → b ≠ t → s.Before g a b → s'.Before g a b := by
    intro a b ha hb hab
    unfold Before
    rw [hpr a ha, hpr b hb]
    exact hab
  have hleft : ∀ u ∈ l₁, s'.Before g u t := by
    intro u hu
    unfold Before
    rw [hpr u (hne₁ u hu), hp]
    exact hk₁ u hu
  have hright : ∀ u ∈ l₂, s'.Before g t u := by
    intro u hu
    unfold Before
    rw [hpr u (hne₂ u hu), hp]
    exact hk₂ u hu
  rw [List.pairwise_append, List.pairwise_cons] at hsorted ⊢
  obtain ⟨h₁, ⟨-, h₂⟩, h₁₂⟩ := hsorted
  refine ⟨h₁.imp_of_mem fun ha hb => hsame (hne₁ _ ha) (hne₁ _ hb),
    ⟨hright, h₂.imp_of_mem fun ha hb => hsame (hne₂ _ ha) (hne₂ _ hb)⟩, fun a ha b hb => ?_⟩
  rcases List.mem_cons.1 hb with rfl | hb
  · exact hleft a ha
  · exact hsame (hne₁ a ha) (hne₂ b hb) (h₁₂ a ha b (List.mem_cons_of_mem _ hb))

/-- **One call** keeps the lists in order. -/
theorem ordered_step {op : Op T Q} (hs : s.Inv cfg) (h : Ordered flag s g)
    (hok : PlacesKept flag (s, g) op) (hst : s.step cfg op = some s') :
    Ordered flag s' (arrivalLog s op s' g) := by
  by_cases hw : ∃ q f, op = .ipcListSuspend q f
  · obtain ⟨q, f, rfl⟩ := hw
    simp only [step, Option.bind_eq_some_iff] at hst
    obtain ⟨c, hc, hr⟩ := hst
    simp only [arrivalLog, hc]
    exact h.wait hs hok hr
  have hlog : arrivalLog s op s' g = g := by
    unfold arrivalLog
    split
    · exact absurd ⟨_, _, rfl⟩ hw
    · rfl
  rw [hlog]
  by_cases hp : ∃ t p, op = .changePriority t p
  · obtain ⟨t, p, rfl⟩ := hp
    exact h.changePriority hs hok hst
  · exact h.thin (thins_step hs (fun q f e => hw ⟨q, f, e⟩) (fun t p e => hp ⟨t, p, e⟩) hst)

/-- In a list in order the first waiter is the most urgent one. -/
theorem Ordered.urgent (h : Ordered flag s g) (hs : s.Inv cfg) {q : Q} (hq : flag q = .prio)
    (hr : s.step cfg (.ipcListResume q) = some s') :
    ∃ t ∈ s.list (.wait q), s'.stat t ≠ .suspend ∧ t ∉ s'.list (.wait q) ∧
      ∀ u ∈ s.list (.wait q), s.priority t ≤ s.priority u := by
  simp only [step, rtIpcListResume, Option.bind_eq_bind, Option.bind_eq_some_iff, Option.pure_def,
    Option.some.injEq] at hr
  obtain ⟨t, ht, ⟨e, s₁⟩, h₁, rfl⟩ := hr
  obtain ⟨l, hl⟩ := List.head?_eq_some_iff.1 ht
  have hmem : t ∈ s.list (.wait q) := by rw [hl]; exact List.mem_cons_self
  obtain ⟨-, ⟨hne, -⟩ | ⟨-, -, -, hmv⟩⟩ := rtThreadResume_ok hs h₁
  · exact absurd (hs.suspend_of_mem t q hmem) hne
  refine ⟨t, hmem, ?_, ?_, fun u hu => ?_⟩
  · rw [hmv.stat]
    split <;> simp
  · rw [hmv.wait]
    simp
  · have hsorted := h.sorted q hq
    rw [hl] at hsorted hu
    rcases List.mem_cons.1 hu with rfl | hu
    · exact le_rfl
    · rcases (List.pairwise_cons.1 hsorted).1 u hu with h | ⟨h, -⟩
      · exact h.le
      · exact h.le

/-- **The wait lists by priority are in order** in every run in which no waiting thread gets a
priority that changes its place in line. -/
theorem wait_ordered {p : Scheduler T Q × Arrivals T} (h : WaitRuns cfg (PlacesKept flag) p) :
    WaitOrdered cfg flag p.1 p.2 := by
  have hinv : p.1.Inv cfg ∧ Ordered flag p.1 p.2 := by
    refine h.inv (I := fun p => p.1.Inv cfg ∧ Ordered flag p.1 p.2) ?_ ?_
    · rintro ⟨s, g⟩ ⟨hs, hg⟩
      dsimp only at hs hg
      subst hg
      have hi := init_inv hs
      obtain ⟨th, -, rfl⟩ := hs
      exact ⟨hi, fun q _ => List.Pairwise.nil, fun _ => Nat.zero_lt_one⟩
    · rintro ⟨s, g⟩ op ⟨s', g'⟩ ⟨hs, hg⟩ hok ⟨hst, hlog⟩
      dsimp only at hs hg hst hlog
      subst hlog
      exact ⟨step_inv hs hst, ordered_step hs hg hok hst⟩
  exact ⟨hinv.2.sorted, fun q s' hq hr => hinv.2.urgent hinv.1 hq hr⟩

/-! ## Two waiters -/

/-- The call waits by priority, if it waits. -/
def Op.byPriority : Op T Q → Bool
  | .ipcListSuspend _ f => f = .prio
  | _ => true

/-- The call changes no priority. -/
def Op.keepsPriority : Op T Q → Bool
  | .changePriority _ _ => false
  | _ => true

omit [DecidableEq T] [DecidableEq Q] in
theorem Op.flagged {p : Scheduler T Q × Arrivals T} {op : Op T Q} (h : Op.byPriority op = true) :
    Flagged (fun _ => .prio) p op := by
  cases op with
  | ipcListSuspend q f =>
    have hf : f = .prio := of_decide_eq_true h
    exact hf
  | _ => trivial

omit [DecidableEq T] [DecidableEq Q] in
theorem Op.placesKept {p : Scheduler T Q × Arrivals T} {op : Op T Q} (h : Op.byPriority op = true)
    (hp : Op.keepsPriority op = true) : PlacesKept (fun _ => .prio) p op := by
  cases op with
  | ipcListSuspend q f =>
    have hf : f = .prio := of_decide_eq_true h
    exact hf
  | changePriority t n => cases hp
  | _ => trivial

/-- Threads named by their priorities. -/
theorem init_board : (rtSystemSchedulerInit fun n => { initPriority := n % 256, currentPriority := n % 256 } :
    Scheduler ℕ Unit).Init ⟨256, le_rfl⟩ :=
  ⟨_, fun n => ⟨n % 256, false, _, false, if_pos (Nat.mod_lt n (by decide)), rfl⟩, rfl⟩

/-- Two threads wait, the more urgent one last. -/
theorem wait_ordered_two : ∃ p : Scheduler ℕ Unit × Arrivals ℕ, p.1.list (.wait ()) = [20, 70] ∧
    WaitOrdered ⟨256, le_rfl⟩ (fun _ => .prio) p.1 p.2 := by
  obtain ⟨p, hp, hl⟩ := Reach.exec_logged (fun s op => s.step ⟨256, le_rfl⟩ op) (fun _ => {}) arrivalLog
    (fun _ op => Op.byPriority op = true ∧ Op.keepsPriority op = true) init_board
    [.startup 70, .startup 100, .schedulerStart, .ipcListSuspend () .prio, .schedule, .startup 20,
      .schedule, .ipcListSuspend () .prio, .schedule]
    (fun p => decide (p.1.list (.wait ()) = [20, 70])) (by decide +kernel)
  exact ⟨p, by simpa using hl, wait_ordered (Reach.mono (fun p op h => Op.placesKept h.1 h.2) hp)⟩

/-- **A waiter stays where it is** when its priority is raised: thread 70, now more urgent than
thread 20, still waits behind it. -/
theorem wait_disordered : ¬ ∀ p : Scheduler ℕ Unit × Arrivals ℕ,
    WaitRuns ⟨256, le_rfl⟩ (Flagged fun _ => .prio) p →
      WaitOrdered ⟨256, le_rfl⟩ (fun _ => .prio) p.1 p.2 := by
  intro hall
  obtain ⟨p, hp, hl⟩ := Reach.exec_logged (fun s op => s.step ⟨256, le_rfl⟩ op) (fun _ => {}) arrivalLog
    (fun _ op => Op.byPriority op = true) init_board
    [.startup 70, .startup 100, .schedulerStart, .ipcListSuspend () .prio, .schedule, .startup 20,
      .schedule, .ipcListSuspend () .prio, .schedule, .changePriority 70 10]
    (fun p => decide (p.1.list (.wait ()) = [20, 70] ∧ p.1.priority 20 = 20 ∧ p.1.priority 70 = 10))
    (by decide +kernel)
  obtain ⟨hl, h20, h70⟩ := of_decide_eq_true hl
  have hsorted := (hall p (Reach.mono (fun p op h => Op.flagged h) hp)).sorted () rfl
  rw [hl, List.pairwise_cons] at hsorted
  have := hsorted.1 70 List.mem_cons_self
  unfold Before at this
  rw [h20, h70] at this
  omega

end RtThread.Sched.Scheduler
