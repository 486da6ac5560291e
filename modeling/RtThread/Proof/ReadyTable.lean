import RtThread.Proof.ReadyBits

/-!
# The lists a thread can be in

A thread is linked where its state says: a ready thread in the list of its priority, a
suspended one in at most one wait list, a closed one in the defunct list or nowhere. Every
function of the scheduler takes a thread out of its list, changes its control block and puts
it back; in between the thread is loose. `Lists cfg s x` is the invariant with thread `x` loose.

* `Lists.remove`, `Lists.insert`: `rt_schedule_remove_thread` makes a thread loose,
  `rt_schedule_insert_thread` puts a loose thread back.
* `rtSchedule_ok`: what `rt_schedule` does; the thread it leaves running is as urgent as any
  ready thread.
* `rtThreadResume_ok`, `rtThreadSuspend_ok`, `rtIpcListSuspend_ok`: who moves, and where.
-/

namespace RtThread.Sched.Scheduler

variable {T Q : Type} [DecidableEq T] [DecidableEq Q] {cfg : Config} {s s' : Scheduler T Q} {t : T}

/-- Every thread is linked where its state says, and the bitmap tells the non-empty ready
lists; only thread `x`, if any, is linked nowhere. -/
structure Lists (cfg : Config) (s : Scheduler T Q) (x : Option T) : Prop where
  nodup : ∀ h, (s.list h).Nodup
  ready_of_mem : ∀ t n, t ∈ s.list (.priority n) → s.stat t = .ready ∧ s.priority t = n
  below : ∀ t n, t ∈ s.list (.priority n) → n < cfg.priorityMax
  suspend_of_mem : ∀ t q, t ∈ s.list (.wait q) → s.stat t = .suspend
  close_of_mem : ∀ t, t ∈ s.list .defunct → s.stat t = .close
  wait_unique : ∀ t q q', t ∈ s.list (.wait q) → t ∈ s.list (.wait q') → q = q'
  mem_of_ready : ∀ t, s.stat t = .ready → x ≠ some t → t ∈ s.list (.priority (s.priority t))
  loose : ∀ t, x = some t → ∀ h, t ∉ s.list h
  masks : ∀ t, (s.thread t).MasksFit cfg
  bit : ∀ n, s.readyBit cfg n = true ↔ s.list (.priority n) ≠ []
  group : s.GroupOk cfg

/-- **The scheduler's invariant**: all threads are linked as their states say, and only the
current thread runs. -/
structure Inv (cfg : Config) (s : Scheduler T Q) : Prop extends Lists cfg s none where
  running : ∀ t, s.stat t = .running → s.current = some t
  current : ∀ t, s.current = some t → s.stat t ≠ .ready

omit [DecidableEq T] [DecidableEq Q] in
theorem Lists.masksOk {x : Option T} (hs : s.Lists cfg x) (hi : s.stat t ≠ .init)
    (hc : s.stat t ≠ .close) : (s.thread t).MasksOk cfg :=
  (hs.masks t).resolve_right fun h => h.2.elim hi hc

omit [DecidableEq T] [DecidableEq Q] in
/-- A thread in a state that has no list is linked nowhere. -/
theorem Lists.not_linked {x : Option T} (hs : s.Lists cfg x) (ht : s.stat t = .init ∨ s.stat t = .running)
    (k : Head Q) : t ∉ s.list k := by
  intro hk
  have : s.stat t = .ready ∨ s.stat t = .suspend ∨ s.stat t = .close := by
    rcases k with n | q | _
    · exact .inl (hs.ready_of_mem t n hk).1
    · exact .inr (.inl (hs.suspend_of_mem t q hk))
    · exact .inr (.inr (hs.close_of_mem t hk))
  rcases ht with ht | ht <;> rw [ht] at this <;> simp at this

/-! ## Fields after an update -/

section Fields

omit [DecidableEq Q]

@[simp] theorem update_thread_self (f : Thread → Thread) :
    (s.update t f).thread t = f (s.thread t) := Function.update_self ..

@[simp] theorem update_thread_ne {u : T} (hu : u ≠ t) (f : Thread → Thread) :
    (s.update t f).thread u = s.thread u := Function.update_of_ne hu ..

@[simp] theorem update_list (f : Thread → Thread) : (s.update t f).list = s.list := rfl

@[simp] theorem update_current (f : Thread → Thread) : (s.update t f).current = s.current := rfl

@[simp] theorem update_lockNest (f : Thread → Thread) : (s.update t f).lockNest = s.lockNest := rfl

theorem update_stat_ne {u : T} (hu : u ≠ t) (f : Thread → Thread) :
    (s.update t f).stat u = s.stat u := by unfold stat; rw [update_thread_ne hu]

theorem update_priority_ne {u : T} (hu : u ≠ t) (f : Thread → Thread) :
    (s.update t f).priority u = s.priority u := by unfold priority; rw [update_thread_ne hu]

@[simp] theorem setStat_stat_self (v : Stat) : (s.setStat t v).stat t = v := by
  simp [setStat, stat]

@[simp] theorem setStat_priority (v : Stat) (u : T) :
    (s.setStat t v).priority u = s.priority u := by
  unfold setStat priority
  by_cases hu : u = t
  · subst hu; simp
  · rw [update_thread_ne hu]

theorem setStat_thread (v : Stat) (u : T) :
    (s.setStat t v).thread u = { s.thread u with stat := (s.setStat t v).stat u } := by
  unfold setStat stat
  by_cases hu : u = t
  · subst hu; simp
  · rw [update_thread_ne hu]

omit [DecidableEq T] in
@[simp] theorem setReadyBit_thread : (s.setReadyBit cfg t).thread = s.thread := by
  unfold setReadyBit; dsimp only; split <;> rfl

omit [DecidableEq T] in
@[simp] theorem setReadyBit_list : (s.setReadyBit cfg t).list = s.list := by
  unfold setReadyBit; dsimp only; split <;> rfl

omit [DecidableEq T] in
@[simp] theorem setReadyBit_current : (s.setReadyBit cfg t).current = s.current := by
  unfold setReadyBit; dsimp only; split <;> rfl

omit [DecidableEq T] in
@[simp] theorem setReadyBit_lockNest : (s.setReadyBit cfg t).lockNest = s.lockNest := by
  unfold setReadyBit; dsimp only; split <;> rfl

omit [DecidableEq T] in
@[simp] theorem clearReadyBit_thread : (s.clearReadyBit cfg t).thread = s.thread := by
  unfold clearReadyBit; dsimp only; split <;> rfl

omit [DecidableEq T] in
@[simp] theorem clearReadyBit_list : (s.clearReadyBit cfg t).list = s.list := by
  unfold clearReadyBit; dsimp only; split <;> rfl

omit [DecidableEq T] in
@[simp] theorem clearReadyBit_current : (s.clearReadyBit cfg t).current = s.current := by
  unfold clearReadyBit; dsimp only; split <;> rfl

omit [DecidableEq T] in
@[simp] theorem clearReadyBit_lockNest : (s.clearReadyBit cfg t).lockNest = s.lockNest := by
  unfold clearReadyBit; dsimp only; split <;> rfl

theorem mem_rtListRemove {u : T} {h : Head Q} :
    u ∈ (s.rtListRemove t).list h ↔ u ∈ s.list h ∧ u ≠ t := by
  simp [rtListRemove]

theorem rtListRemove_list_of_not_mem {h : Head Q} (hm : t ∉ s.list h) :
    (s.rtListRemove t).list h = s.list h := by
  unfold rtListRemove
  rw [List.filter_eq_self]
  intro u hu
  have : u ≠ t := fun e => hm (e ▸ hu)
  simpa using this

end Fields

/-! ## Loose threads -/

omit [DecidableEq T] [DecidableEq Q] in
/-- A thread linked nowhere may be set loose. -/
theorem Lists.loosen (hs : s.Lists cfg none) (hl : ∀ h, t ∉ s.list h) : s.Lists cfg (some t) :=
  { hs with
    mem_of_ready := fun u hu _ => hs.mem_of_ready u hu nofun
    loose := fun u hu => by cases hu; exact hl }

omit [DecidableEq T] [DecidableEq Q] in
/-- A loose thread that is not ready is where its state says. -/
theorem Lists.settle (hs : s.Lists cfg (some t)) (ht : s.stat t ≠ .ready) : s.Lists cfg none :=
  { hs with
    mem_of_ready := fun u hu _ => hs.mem_of_ready u hu fun h => by cases h; exact ht hu
    loose := nofun }

omit [DecidableEq Q] in
/-- The control block of a loose thread may change, if its masks stay right. -/
theorem Lists.update (hs : s.Lists cfg (some t)) (f : Thread → Thread)
    (hf : (f (s.thread t)).MasksFit cfg) : (s.update t f).Lists cfg (some t) := by
  have hne : ∀ {u h}, u ∈ s.list h → u ≠ t := fun hu e => hs.loose t rfl _ (e ▸ hu)
  refine { nodup := hs.nodup, ready_of_mem := fun u n hu => ?_, below := hs.below,
           suspend_of_mem := fun u q hu => ?_, close_of_mem := fun u hu => ?_,
           wait_unique := hs.wait_unique,
           mem_of_ready := fun u hu hx => ?_, loose := hs.loose, masks := fun u => ?_,
           bit := hs.bit, group := hs.group }
  · rw [update_stat_ne (hne hu), update_priority_ne (hne hu)]
    exact hs.ready_of_mem u n hu
  · rw [update_stat_ne (hne hu)]
    exact hs.suspend_of_mem u q hu
  · rw [update_stat_ne (hne hu)]
    exact hs.close_of_mem u hu
  · have hut : u ≠ t := fun e => hx (by rw [e])
    rw [update_stat_ne hut] at hu
    rw [update_priority_ne hut]
    exact hs.mem_of_ready u hu hx
  · by_cases hut : u = t
    · subst hut
      rw [update_thread_self]
      exact hf
    · rw [update_thread_ne hut]
      exact hs.masks u

omit [DecidableEq Q] in
theorem Lists.setStat (hs : s.Lists cfg (some t)) (v : Stat) (hm : (s.thread t).MasksOk cfg) :
    (s.setStat t v).Lists cfg (some t) :=
  hs.update _ (.inl hm)

omit [DecidableEq Q] in
/-- Taking a thread that is in no ready list out of its list. -/
theorem Lists.unlink (hs : s.Lists cfg none) (ht : s.stat t ≠ .ready) :
    (s.rtListRemove t).Lists cfg (some t) := by
  have hlist : ∀ n, (s.rtListRemove t).list (.priority n) = s.list (.priority n) := fun n =>
    rtListRemove_list_of_not_mem fun hm => ht (hs.ready_of_mem t n hm).1
  refine { nodup := fun h => (hs.nodup h).filter _, ready_of_mem := fun u n hu => ?_,
           below := fun u n hu => hs.below u n (mem_rtListRemove.1 hu).1,
           suspend_of_mem := fun u q hu => ?_, close_of_mem := fun u hu => ?_,
           wait_unique := fun u q q' hq hq' => ?_, mem_of_ready := fun u hu _ => ?_,
           loose := fun u hu h => ?_, masks := hs.masks, bit := fun n => ?_, group := hs.group }
  · exact hs.ready_of_mem u n (mem_rtListRemove.1 hu).1
  · exact hs.suspend_of_mem u q (mem_rtListRemove.1 hu).1
  · exact hs.close_of_mem u (mem_rtListRemove.1 hu).1
  · exact hs.wait_unique u q q' (mem_rtListRemove.1 hq).1 (mem_rtListRemove.1 hq').1
  · rw [hlist]
    exact hs.mem_of_ready u hu nofun
  · cases hu
    simp [mem_rtListRemove]
  · rw [hlist]
    exact hs.bit n

omit [DecidableEq Q] in
/-- What `rt_schedule_remove_thread` leaves alone. -/
theorem rtScheduleRemoveThread_ok (h : s.rtScheduleRemoveThread cfg t = some s') :
    s'.thread = s.thread ∧ s'.list = (s.rtListRemove t).list ∧ s'.current = s.current ∧
      s'.lockNest = s.lockNest ∧ s.priority t < cfg.priorityMax := by
  unfold rtScheduleRemoveThread at h
  by_cases hp : s.priority t < cfg.priorityMax
  · rw [if_pos hp] at h
    simp only [Option.some.injEq] at h
    subst h
    split
    · rw [clearReadyBit_thread, clearReadyBit_list, clearReadyBit_current, clearReadyBit_lockNest]
      exact ⟨rfl, rfl, rfl, rfl, hp⟩
    · exact ⟨rfl, rfl, rfl, rfl, hp⟩
  · rw [if_neg hp] at h
    cases h

omit [DecidableEq Q] in
/-- **`rt_schedule_remove_thread` makes a thread loose**, and clears its bit if its ready list
became empty. -/
theorem Lists.remove {x : Option T} (hs : s.Lists cfg x) (hx : x = none ∨ x = some t)
    (h : s.rtScheduleRemoveThread cfg t = some s') :
    s'.Lists cfg (some t) := by
  obtain ⟨hth, hlist, -, -, hp⟩ := rtScheduleRemoveThread_ok h
  have hst : ∀ u, s'.stat u = s.stat u := fun u => by unfold stat; rw [hth]
  have hpr : ∀ u, s'.priority u = s.priority u := fun u => by unfold priority; rw [hth]
  have hmem : ∀ {u k}, u ∈ s'.list k ↔ u ∈ s.list k ∧ u ≠ t := by
    intro u k; rw [hlist]; exact mem_rtListRemove
  -- only the list of the thread's own priority can have changed
  have hsame : ∀ n, n ≠ s.priority t → s'.list (.priority n) = s.list (.priority n) := fun n hn => by
    rw [hlist]
    exact rtListRemove_list_of_not_mem fun hm => hn (hs.ready_of_mem t n hm).2.symm
  have hbits : (∀ n, s'.readyBit cfg n = true ↔ s'.list (.priority n) ≠ []) ∧ s'.GroupOk cfg := by
    unfold rtScheduleRemoveThread at h
    rw [if_pos hp] at h
    simp only [Option.some.injEq] at h
    by_cases he : ((s.rtListRemove t).list (.priority ((s.rtListRemove t).priority t))).isEmpty = true
    · rw [if_pos he] at h
      subst h
      rw [List.isEmpty_iff] at he
      rcases hs.masks t with hm | ⟨⟨hnm, hhm⟩, hidle⟩
      · refine ⟨fun n => ?_, groupOk_clearReadyBit hm hs.group⟩
        rw [readyBit_clearReadyBit (s := s.rtListRemove t) hm]
        by_cases hn : n = s.priority t
        · rw [clearReadyBit_list, hn, show s.priority t = (s.rtListRemove t).priority t from rfl, he]
          simp
        · rw [hsame n hn, ← hs.bit n]
          simp [show n ≠ (s.rtListRemove t).priority t from hn,
            show (s.rtListRemove t).readyBit cfg n = s.readyBit cfg n from rfl]
      · -- a thread without masks is in no ready list
        rw [clearReadyBit_of_zero (s := s.rtListRemove t) hnm hhm]
        refine ⟨fun n => ?_, hs.group⟩
        rw [rtListRemove_list_of_not_mem]
        · exact hs.bit n
        · intro hm
          have : (s.thread t).stat = .ready := (hs.ready_of_mem t n hm).1
          rcases hidle with h | h <;> rw [this] at h <;> cases h
    · rw [if_neg he] at h
      subst h
      refine ⟨fun n => ?_, hs.group⟩
      by_cases hn : n = s.priority t
      · subst hn
        have hne : (s.rtListRemove t).list (.priority (s.priority t)) ≠ [] := by
          rwa [List.isEmpty_iff] at he
        refine ⟨fun _ => hne, fun _ => (hs.bit _).2 fun h0 => hne ?_⟩
        show (s.list _).filter _ = []
        rw [h0]
        rfl
      · rw [hsame n hn]
        exact hs.bit n
  refine { nodup := fun k => by rw [hlist]; exact (hs.nodup k).filter _,
           ready_of_mem := fun u n hu => ?_, below := fun u n hu => hs.below u n (hmem.1 hu).1,
           suspend_of_mem := fun u q hu => ?_, close_of_mem := fun u hu => ?_,
           wait_unique := fun u q q' hq hq' => ?_, mem_of_ready := fun u hu hux => ?_, 
           loose := fun u hu k => ?_, masks := fun u => by rw [hth]; exact hs.masks u, bit := hbits.1, group := hbits.2 }
  · rw [hst, hpr]
    exact hs.ready_of_mem u n (hmem.1 hu).1
  · rw [hst]
    exact hs.suspend_of_mem u q (hmem.1 hu).1
  · rw [hst]
    exact hs.close_of_mem u (hmem.1 hu).1
  · exact hs.wait_unique u q q' (hmem.1 hq).1 (hmem.1 hq').1
  · have hut : u ≠ t := fun e => hux (by rw [e])
    rw [hst] at hu
    rw [hpr, hmem]
    refine ⟨hs.mem_of_ready u hu ?_, hut⟩
    rcases hx with rfl | rfl
    · exact nofun
    · exact hux
  · cases hu
    rw [hmem]
    exact fun hu => hu.2 rfl

omit [DecidableEq T] in
/-- Putting a loose thread into a wait list, or into the defunct list. -/
theorem Lists.link (hs : s.Lists cfg (some t)) {k : Head Q} {l : List T}
    (hl : l.Perm (t :: s.list k))
    (hk : (∃ q, k = .wait q ∧ s.stat t = .suspend) ∨ (k = .defunct ∧ s.stat t = .close)) :
    { s with list := Function.update s.list k l }.Lists cfg none := by
  have hprio : ∀ n, Function.update s.list k l (.priority n) = s.list (.priority n) := by
    intro n
    rw [Function.update_of_ne]
    rintro rfl
    rcases hk with ⟨q, h, -⟩ | ⟨h, -⟩ <;> cases h
  have hmem : ∀ {u j}, u ∈ Function.update s.list k l j → u ∈ s.list j ∨ u = t ∧ j = k := by
    intro u j hu
    by_cases hj : j = k
    · subst hj
      rw [Function.update_self, hl.mem_iff, List.mem_cons] at hu
      tauto
    · rw [Function.update_of_ne hj] at hu
      exact .inl hu
  refine { nodup := fun j => ?_, ready_of_mem := fun u n hu => ?_, below := fun u n hu => ?_,
           suspend_of_mem := fun u q hu => ?_, close_of_mem := fun u hu => ?_, wait_unique := fun u q q' hq hq' => ?_,
           mem_of_ready := fun u hu _ => ?_, loose := nofun, masks := hs.masks,
           bit := fun n => ?_, group := hs.group }
  · by_cases hj : j = k
    · subst hj
      simp only [Function.update_self]
      exact hl.nodup_iff.2 (List.nodup_cons.2 ⟨hs.loose t rfl _, hs.nodup _⟩)
    · simp only [Function.update_of_ne hj]
      exact hs.nodup j
  · simp only [hprio] at hu
    exact hs.ready_of_mem u n hu
  · simp only [hprio] at hu
    exact hs.below u n hu
  · rcases hmem hu with hu | ⟨rfl, hq⟩
    · exact hs.suspend_of_mem u q hu
    · rcases hk with ⟨_, -, h⟩ | ⟨h, -⟩
      · exact h
      · rw [h] at hq
        cases hq
  · rcases hmem hu with hu | ⟨rfl, hq⟩
    · exact hs.close_of_mem u hu
    · rcases hk with ⟨_, h, -⟩ | ⟨-, h⟩
      · rw [h] at hq
        cases hq
      · exact h
  · rcases hmem hq with hu | ⟨rfl, rfl⟩ <;> rcases hmem hq' with hu' | ⟨hu', hq''⟩
    · exact hs.wait_unique u q q' hu hu'
    · exact absurd (hu' ▸ hu) (hs.loose t rfl _)
    · exact absurd hu' (hs.loose _ rfl _)
    · cases hq''
      rfl
  · show u ∈ Function.update s.list k l _
    rw [hprio]
    refine hs.mem_of_ready u hu fun h => ?_
    cases h
    have hr : s.stat t = .ready := hu
    rcases hk with ⟨_, -, h⟩ | ⟨-, h⟩ <;> rw [hr] at h <;> cases h
  · show _ ↔ Function.update s.list k l _ ≠ []
    rw [hprio]
    exact hs.bit n

/-- What `rt_schedule_insert_thread` does. -/
theorem rtScheduleInsertThread_ok (h : s.rtScheduleInsertThread cfg t = some s') :
    (∀ u, s'.thread u = { s.thread u with stat := s'.stat u }) ∧
      (∀ u, u ≠ t → s'.stat u = s.stat u) ∧
      s'.stat t = (if s.current = some t then .running else .ready) ∧
      (∀ q, s'.list (.wait q) = s.list (.wait q)) ∧
      s'.current = s.current ∧ s'.lockNest = s.lockNest := by
  unfold rtScheduleInsertThread at h
  by_cases hc : s.current = some t
  · rw [if_pos hc] at h
    cases h
    rw [if_pos hc]
    exact ⟨setStat_thread _, fun u hu => update_stat_ne hu _, setStat_stat_self _, fun _ => rfl, rfl, rfl⟩
  · rw [if_neg hc] at h
    by_cases hp : s.priority t < cfg.priorityMax
    · rw [if_pos hp] at h
      cases h
      rw [if_neg hc, setReadyBit_list, setReadyBit_current, setReadyBit_lockNest]
      unfold stat
      rw [setReadyBit_thread]
      refine ⟨setStat_thread (s := s) _, fun u hu => ?_, setStat_stat_self (s := s) _, fun q => ?_,
        rfl, rfl⟩
      · show ((s.setStat t .ready).thread u).stat = _
        rw [setStat, update_thread_ne hu]
      · show Function.update s.list (.priority (s.priority t))
          (s.list (.priority (s.priority t)) ++ [t]) (.wait q) = _
        exact Function.update_of_ne (by simp) ..
    · rw [if_neg hp] at h
      cases h

omit [DecidableEq T] [DecidableEq Q] in
/-- A loose ready thread goes to the end of the ready list of its priority, and the bit of this
priority is set. -/
theorem Lists.linkReady (hs : s.Lists cfg (some t)) (ht : s.stat t = .ready)
    (hp : s.priority t < cfg.priorityMax)
    (hth : s'.thread = s.thread)
    (hown : s'.list (.priority (s.priority t)) = s.list (.priority (s.priority t)) ++ [t])
    (hother : ∀ k, k ≠ .priority (s.priority t) → s'.list k = s.list k)
    (hbit : ∀ n, s'.readyBit cfg n = (s.readyBit cfg n || decide (n = s.priority t)))
    (hgroup : s'.GroupOk cfg) : s'.Lists cfg none := by
  have hst : ∀ u, s'.stat u = s.stat u := fun u => by unfold stat; rw [hth]
  have hpr : ∀ u, s'.priority u = s.priority u := fun u => by unfold priority; rw [hth]
  have hwait : ∀ q, s'.list (.wait q) = s.list (.wait q) := fun q => hother _ fun h => by cases h
  have hdef : s'.list .defunct = s.list .defunct := hother _ fun h => by cases h
  have hrow : ∀ n, n ≠ s.priority t → s'.list (.priority n) = s.list (.priority n) := fun n hn =>
    hother _ fun h => hn (by cases h; rfl)
  refine { nodup := fun k => ?_, ready_of_mem := fun u n hu => ?_, below := fun u n hu => ?_,
           suspend_of_mem := fun u q hu => ?_, close_of_mem := fun u hu => ?_,
           wait_unique := fun u q q' hq hq' => ?_, mem_of_ready := fun u hu _ => ?_, loose := nofun,
           masks := fun u => by rw [hth]; exact hs.masks u, bit := fun n => ?_, group := hgroup }
  · by_cases hk : k = .priority (s.priority t)
    · rw [hk, hown]
      exact List.nodup_append.2 ⟨hs.nodup _, List.nodup_singleton _, fun a ha b hb => by
        rw [List.mem_singleton.1 hb]
        exact fun e => hs.loose t rfl _ (e ▸ ha)⟩
    · rw [hother k hk]
      exact hs.nodup k
  · rw [hst, hpr]
    by_cases hn : n = s.priority t
    · subst hn
      rw [hown, List.mem_append, List.mem_singleton] at hu
      rcases hu with hu | rfl
      · exact hs.ready_of_mem u _ hu
      · exact ⟨ht, rfl⟩
    · rw [hrow n hn] at hu
      exact hs.ready_of_mem u n hu
  · by_cases hn : n = s.priority t
    · rw [hn]
      exact hp
    · rw [hrow n hn] at hu
      exact hs.below u n hu
  · rw [hst]
    rw [hwait] at hu
    exact hs.suspend_of_mem u q hu
  · rw [hst]
    rw [hdef] at hu
    exact hs.close_of_mem u hu
  · rw [hwait] at hq hq'
    exact hs.wait_unique u q q' hq hq'
  · rw [hst] at hu
    rw [hpr]
    by_cases hut : t = u
    · subst hut
      rw [hown]
      exact List.mem_append_right _ (List.mem_singleton_self _)
    · have hmem := hs.mem_of_ready u hu fun e => hut (by cases e; rfl)
      by_cases hn : s.priority u = s.priority t
      · rw [hn] at hmem ⊢
        rw [hown]
        exact List.mem_append_left _ hmem
      · rw [hrow _ hn]
        exact hmem
  · rw [hbit]
    by_cases hn : n = s.priority t
    · subst hn
      rw [hown]
      simp
    · rw [hrow n hn, ← hs.bit n]
      simp [hn]

/-- **`rt_schedule_insert_thread` puts a loose thread back.** -/
theorem Lists.insert (hs : s.Lists cfg (some t)) (hm : (s.thread t).MasksOk cfg)
    (h : s.rtScheduleInsertThread cfg t = some s') : s'.Lists cfg none := by
  unfold rtScheduleInsertThread at h
  by_cases hc : s.current = some t
  · rw [if_pos hc] at h
    cases h
    exact (hs.setStat _ hm).settle (by simp)
  · rw [if_neg hc] at h
    by_cases hp : s.priority t < cfg.priorityMax
    · rw [if_pos hp] at h
      cases h
      generalize hs₁ : s.setStat t .ready = s₁
      have hl : s₁.Lists cfg (some t) := hs₁ ▸ hs.setStat _ hm
      have hst : s₁.stat t = .ready := hs₁ ▸ setStat_stat_self _
      have hpr : s.priority t = s₁.priority t := by rw [← hs₁, setStat_priority]
      have hmk : (s₁.thread t).MasksOk cfg := hl.masksOk (by rw [hst]; nofun) (by rw [hst]; nofun)
      rw [hpr] at hp ⊢
      generalize hs₂ : s₁.rtListInsertBefore (.priority (s₁.priority t)) t = s₂
      have hown : s₂.list (.priority (s₁.priority t)) = s₁.list (.priority (s₁.priority t)) ++ [t] := by
        rw [← hs₂]; exact Function.update_self ..
      have hother : ∀ k, k ≠ .priority (s₁.priority t) → s₂.list k = s₁.list k := fun k hk => by
        rw [← hs₂]; exact Function.update_of_ne hk ..
      have hth : s₂.thread = s₁.thread := by rw [← hs₂]; rfl
      have hpr₂ : s₂.priority t = s₁.priority t := by unfold priority; rw [hth]
      have hbit : ∀ n, (s₂.setReadyBit cfg t).readyBit cfg n =
          (s₁.readyBit cfg n || decide (n = s₁.priority t)) := fun n => by
        rw [readyBit_setReadyBit (by rw [hth]; exact hmk) (by rw [hpr₂]; exact hp), hpr₂, ← hs₂]
        rfl
      have hgroup : (s₂.setReadyBit cfg t).GroupOk cfg :=
        groupOk_setReadyBit (by rw [hth]; exact hmk) (by rw [hpr₂]; exact hp) (hs₂ ▸ hl.group)
      exact hl.linkReady hst hp (by rw [setReadyBit_thread, hth]) (by rw [setReadyBit_list, hown])
        (by rw [setReadyBit_list]; exact hother) hbit hgroup
    · rw [if_neg hp] at h
      cases h

/-! ## Suspending and resuming -/

omit [DecidableEq T] [DecidableEq Q] in
/-- Where the threads are does not depend on which one runs. -/
theorem Lists.setCurrent {x : Option T} (hs : s.Lists cfg x) (c : Option T) (n : BitVec 16) :
    { s with current := c, lockNest := n }.Lists cfg x :=
  { nodup := hs.nodup, ready_of_mem := hs.ready_of_mem, below := hs.below,
    suspend_of_mem := hs.suspend_of_mem, close_of_mem := hs.close_of_mem, wait_unique := hs.wait_unique,
    mem_of_ready := hs.mem_of_ready, loose := hs.loose, masks := hs.masks, bit := hs.bit,
    group := hs.group }

/-- What moving thread `t` to state `v` leaves alone, if the wait lists become `wait`. -/
structure Moves (s s' : Scheduler T Q) (t : T) (v : Stat) (wait : Q → List T) : Prop where
  other : ∀ u, u ≠ t → s'.thread u = s.thread u
  stat : s'.stat t = v
  priority : s'.priority t = s.priority t
  initPriority : (s'.thread t).initPriority = (s.thread t).initPriority
  wait : ∀ q, s'.list (.wait q) = wait q
  current : s'.current = s.current
  lockNest : s'.lockNest = s.lockNest

/-- Waking a suspended thread: out of its wait list, control block changed by `f`, and ready, or
running again if it is still the current thread. -/
theorem wake_ok (hs : s.Inv cfg) (ht : s.stat t = .suspend) {f : Thread → Thread}
    (hm : (f (s.thread t)).MasksOk cfg)
    (hp : (f (s.thread t)).currentPriority = (s.thread t).currentPriority)
    (hi : (f (s.thread t)).initPriority = (s.thread t).initPriority)
    (h : ((s.rtListRemove t).update t f).rtScheduleInsertThread cfg t = some s') :
    s'.Inv cfg ∧ s'.thread t = { f (s.thread t) with stat := s'.stat t } ∧
      s.Moves s' t (if s.current = some t then .running else .ready)
        (fun q => (s.list (.wait q)).filter (· ≠ t)) := by
  have hl : ((s.rtListRemove t).update t f).Lists cfg (some t) :=
    (hs.toLists.unlink (by rw [ht]; nofun)).update _ (.inl hm)
  have hself : ((s.rtListRemove t).update t f).thread t = f (s.thread t) := update_thread_self _
  obtain ⟨hth, hst, hstt, hwait, hc, hn⟩ := rtScheduleInsertThread_ok h
  have hother : ∀ u, u ≠ t → s'.thread u = s.thread u := by
    intro u hu
    have hu' : ((s.rtListRemove t).update t f).thread u = s.thread u := update_thread_ne hu _
    rw [hth u, hst u hu]
    unfold Scheduler.stat
    rw [hu']
  have hself' : s'.thread t = { f (s.thread t) with stat := s'.stat t } := by
    rw [hth t, hself]
  have hc' : s'.current = s.current := hc
  have hstt' : s'.stat t = if s.current = some t then .running else .ready := hstt
  refine ⟨{ hl.insert (by rw [hself]; exact hm) h with
    running := fun u hu => ?_, current := fun u hu => ?_ },
    hself', ⟨hother, hstt, ?_, ?_, hwait, hc, hn⟩⟩
  · rw [hc']
    by_cases hut : u = t
    · subst hut
      rw [hstt'] at hu
      by_contra hne
      rw [if_neg hne] at hu
      cases hu
    · unfold Scheduler.stat at hu
      rw [hother u hut] at hu
      exact hs.running u hu
  · rw [hc'] at hu
    by_cases hut : u = t
    · subst hut
      rw [hstt', if_pos hu]
      nofun
    · unfold Scheduler.stat
      rw [hother u hut]
      exact hs.current u hu
  · unfold Scheduler.priority
    rw [hself']
    exact hp
  · rw [hself']
    exact hi

/-- **`rt_thread_resume`** wakes a suspended thread and stops its timer; other threads it
refuses. -/
theorem rtThreadResume_ok {e : Err} (hs : s.Inv cfg) (h : s.rtThreadResume cfg t = some (e, s')) :
    s'.Inv cfg ∧ (s.stat t ≠ .suspend ∧ e = .error ∧ s' = s ∨ s.stat t = .suspend ∧ e = .eok ∧
      s'.thread t = { s.thread t with stat := s'.stat t, timerActive := false } ∧
      s.Moves s' t (if s.current = some t then .running else .ready)
        (fun q => (s.list (.wait q)).filter (· ≠ t))) := by
  unfold rtThreadResume at h
  by_cases ht : s.stat t = .suspend
  · rw [if_pos ht] at h
    simp only [Option.bind_eq_bind, Option.bind_eq_some_iff, Option.pure_def, Option.some.injEq,
      Prod.mk.injEq] at h
    obtain ⟨s₁, h₁, rfl, rfl⟩ := h
    obtain ⟨hi, hself, hmv⟩ := wake_ok hs ht (hs.masksOk (by rw [ht]; nofun) (by rw [ht]; nofun)) rfl rfl h₁
    exact ⟨hi, .inr ⟨ht, rfl, hself, hmv⟩⟩
  · rw [if_neg ht] at h
    cases h
    exact ⟨hs, .inl ⟨ht, rfl, rfl⟩⟩

omit [DecidableEq Q] in
/-- **`rt_thread_suspend`** of a ready thread, or of the current thread while it runs. -/
theorem rtThreadSuspend_ok {e : Err} (hs : s.Inv cfg) (h : s.rtThreadSuspend cfg t = some (e, s')) :
    (e ≠ .eok ∧ s' = s) ∨ (e = .eok ∧ (s.stat t = .ready ∨ s.stat t = .running) ∧
      s'.Inv cfg ∧ s'.Lists cfg (some t) ∧
      s'.thread t = { s.thread t with stat := .suspend, timerActive := false } ∧
      s.Moves s' t .suspend (fun q => s.list (.wait q))) := by
  unfold rtThreadSuspend at h
  by_cases ht : s.stat t = .ready ∨ s.stat t = .running
  · rw [if_pos ht] at h
    by_cases hc : s.stat t = .running → s.current = some t
    · rw [if_pos hc] at h
      simp only [Option.bind_eq_bind, Option.bind_eq_some_iff, Option.pure_def, Option.some.injEq,
        Prod.mk.injEq] at h
      obtain ⟨s₁, h₁, rfl, rfl⟩ := h
      have hm := hs.masksOk (t := t) (by rcases ht with ht | ht <;> rw [ht] <;> nofun)
        (by rcases ht with ht | ht <;> rw [ht] <;> nofun)
      have hl := hs.toLists.remove (.inl rfl) h₁
      obtain ⟨hth, hlist, hcur, hn, -⟩ := rtScheduleRemoveThread_ok h₁
      have hl' : ((s₁.setStat t .suspend).setTimer t false).Lists cfg (some t) := by
        refine (hl.update _ (.inl ?_)).update _ (.inl ?_)
        · rw [hth]; exact hm
        · rw [update_thread_self, hth]; exact hm
      have hself : ((s₁.setStat t .suspend).setTimer t false).thread t =
          { s.thread t with stat := .suspend, timerActive := false } := by
        unfold setTimer setStat
        rw [update_thread_self, update_thread_self, hth]
      have hother : ∀ u, u ≠ t →
          ((s₁.setStat t .suspend).setTimer t false).thread u = s.thread u := by
        intro u hu
        unfold setTimer setStat
        rw [update_thread_ne hu, update_thread_ne hu, hth]
      have hst : ((s₁.setStat t .suspend).setTimer t false).stat t = .suspend := by
        unfold Scheduler.stat
        rw [hself]
      refine .inr ⟨rfl, ht, { hl'.settle (by rw [hst]; nofun) with
        running := fun u hu => ?_, current := fun u hu => ?_ }, hl', hself,
        ⟨hother, hst, ?_, ?_, fun q => ?_, hcur, hn⟩⟩
      · have hut : u ≠ t := fun e => by rw [e, hst] at hu; cases hu
        unfold Scheduler.stat at hu
        rw [hother u hut] at hu
        show s₁.current = _
        rw [hcur]
        exact hs.running u hu
      · change s₁.current = _ at hu
        rw [hcur] at hu
        by_cases hut : u = t
        · rw [hut, hst]
          nofun
        · unfold Scheduler.stat
          rw [hother u hut]
          exact hs.current u hu
      · unfold Scheduler.priority
        rw [hself]
      · rw [hself]
      · show s₁.list _ = _
        rw [hlist]
        refine rtListRemove_list_of_not_mem fun hq => ?_
        have := hs.suspend_of_mem t q hq
        rcases ht with ht | ht <;> rw [ht] at this <;> cases this
    · rw [if_neg hc] at h
      cases h
  · rw [if_neg ht] at h
    cases h
    exact .inl ⟨nofun, rfl⟩

/-- **`rt_ipc_list_suspend`** moves a thread from its ready list, or from the CPU, into the wait
list, at the end or by priority. -/
theorem rtIpcListSuspend_ok {q : Q} {flag : IpcFlag} (hs : s.Inv cfg)
    (h : s.rtIpcListSuspend cfg q t flag = some s') :
    s'.Inv cfg ∧ (s.stat t = .ready ∨ s.stat t = .running) ∧
      s'.thread t = { s.thread t with stat := .suspend, timerActive := false } ∧
      ∃ l, l.Perm (t :: s.list (.wait q)) ∧
        s.Moves s' t .suspend (Function.update (fun q => s.list (.wait q)) q l) ∧
        l = match flag with
          | .fifo => s.list (.wait q) ++ [t]
          | .prio => Queue.insertBefore (fun x => decide (s.priority t < s.priority x)) t
              (s.list (.wait q)) := by
  unfold rtIpcListSuspend at h
  simp only [Option.bind_eq_bind, Option.bind_eq_some_iff] at h
  obtain ⟨⟨e, s₁⟩, h₁, h⟩ := h
  rcases rtThreadSuspend_ok hs h₁ with ⟨he, -⟩ | ⟨rfl, ht, hi, hl, hself, hmv⟩
  · rw [if_neg he] at h
    cases h
  rw [if_pos rfl] at h
  have hpr : ∀ u, s₁.priority u = s.priority u := by
    intro u
    by_cases hut : u = t
    · rw [hut, hmv.priority]
    · unfold Scheduler.priority
      rw [hmv.other u hut]
  -- both flags put the thread into the list, at one place or another
  have key : ∀ l : List T, l.Perm (t :: s.list (.wait q)) →
      s' = { s₁ with list := Function.update s₁.list (.wait q) l } →
      s'.Inv cfg ∧ s'.thread t = { s.thread t with stat := .suspend, timerActive := false } ∧
        s.Moves s' t .suspend (Function.update (fun q => s.list (.wait q)) q l) := by
    rintro l hperm rfl
    refine ⟨{ hl.link (by rw [hmv.wait]; exact hperm) (.inl ⟨q, rfl, hmv.stat⟩) with
      running := hi.running, current := hi.current }, hself,
      ⟨hmv.other, hmv.stat, hmv.priority, hmv.initPriority, fun q' => ?_, hmv.current, hmv.lockNest⟩⟩
    by_cases hq : q' = q
    · subst hq
      show Function.update s₁.list _ l _ = _
      rw [Function.update_self, Function.update_self]
    · show Function.update s₁.list _ l _ = _
      rw [Function.update_of_ne (by simpa using hq), Function.update_of_ne hq, hmv.wait]
  rcases flag with _ | _
  · simp only [Option.pure_def, Option.some.injEq] at h
    have hperm : (s.list (.wait q) ++ [t]).Perm (t :: s.list (.wait q)) := List.perm_append_singleton ..
    have := key _ hperm (by rw [← h, ← hmv.wait]; rfl)
    exact ⟨this.1, ht, this.2.1, _, hperm, this.2.2, rfl⟩
  · simp only [Option.pure_def, Option.some.injEq] at h
    have hperm := Queue.perm_insertBefore (fun x => decide (s.priority t < s.priority x)) t
      (s.list (.wait q))
    have := key _ hperm (by rw [← h, ← hmv.wait]; simp only [hpr])
    exact ⟨this.1, ht, this.2.1, _, hperm, this.2.2, rfl⟩

end RtThread.Sched.Scheduler
