import RtThread.Proof.PthreadRwlock

/-!
# Nobody sleeps beside a free read-write lock

* `queues_step`, `looped_step`: the suspended threads are those of the two semaphores, and a broadcast leaves
  its loop when no reader is left.
* `Claimed`: while the lock is free and a writer waits, a wake-up for the writers is on its way.
* `Brought`: while no writer holds the lock or waits for it, no reader sleeps, or that is about to change.
* `fair_step`: a step that loses no wake-up keeps both.
* `rwlock_awake`: where nothing is under way, nobody sleeps beside a free lock.
* `rwlock_sleeps`: a timed writer that gives up leaves a reader asleep.
-/

namespace RtThread.Rwlock

open Pthread State

variable {T : Type} [DecidableEq T] {s s' : State T} {a : Act T} {t u : T} {c : Call} {side d : Side} {p : Pc}

/-! ## The queues -/

/-- The threads that sleep on a condition. -/
abbrev State.sleepers (s : State T) (side : Side) (u : T) : Bool := (s.pc u).sleepsOn side

/-- The suspended threads are those in the queues. -/
def Queues (s : State T) : Prop := ∀ side, Queue (s.rwCond side) (s.sleepers side)

theorem sleeps_update {f : T → Pc} (ht : (f t).sleepsOn d = false) (hp : p.sleepsOn d = false) (u : T) :
    (Function.update f t p u).sleepsOn d = (f u).sleepsOn d := by
  by_cases hu : u = t
  · rw [hu, Function.update_self, ht, hp]
  · rw [Function.update_of_ne hu]

/-- A thread that does not sleep goes on. -/
theorem Queues.stay (h : Queues s) (hc : s'.rwCond = s.rwCond) (hpc : s'.pc = Function.update s.pc t p)
    (ht : ∀ d, (s.pc t).sleepsOn d = false) (hp : ∀ d, p.sleepsOn d = false) : Queues s' := by
  intro d
  unfold State.sleepers
  rw [hc, hpc]
  exact (h d).congr (sleeps_update (ht d) (hp d))

omit [DecidableEq T] in
theorem setCond_self (s : State T) (side : Side) (m : Sem T) : (s.setCond side m).rwCond side = m :=
  Function.update_self ..

omit [DecidableEq T] in
theorem setCond_of_ne (s : State T) (m : Sem T) (hd : d ≠ side) : (s.setCond side m).rwCond d = s.rwCond d :=
  Function.update_of_ne hd ..

theorem semRelease_cond (s : State T) (side : Side) : (s.semRelease side).rwCond side = (s.rwCond side).release :=
  Function.update_self ..

theorem semRelease_of_ne (s : State T) (hd : d ≠ side) : (s.semRelease side).rwCond d = s.rwCond d :=
  Function.update_of_ne hd ..

/-- A step at the semaphore of one condition. -/
theorem Queues.setCond (h : Queues s) {m : Sem T} (hm : Queue m fun u => (Function.update s.pc t p u).sleepsOn side)
    (hother : ∀ d, d ≠ side → (s.pc t).sleepsOn d = false ∧ p.sleepsOn d = false) :
    Queues ((s.setCond side m).setPc t p) := by
  intro d
  by_cases hd : d = side
  · subst hd
    have hcond : ((s.setCond d m).setPc t p).rwCond d = m := setCond_self s d m
    rw [hcond]
    exact hm
  · have hcond : ((s.setCond side m).setPc t p).rwCond d = s.rwCond d := setCond_of_ne s m hd
    rw [hcond]
    exact (h d).congr (sleeps_update (hother d hd).1 (hother d hd).2)

theorem resume_sleeps (p : Pc) (d : Side) : (p.resume .ok).sleepsOn d = false := by
  cases p <;> rfl

theorem sleeps_other (h : p.sleepsOn side = true) (hd : d ≠ side) : p.sleepsOn d = false := by
  cases p with
  | suspended c e =>
    rw [show e = side from of_decide_eq_true h]
    exact decide_eq_false hd.symm
  | _ => cases h

/-- A release wakes the first thread of its queue, or stores a token. -/
theorem Queues.semRelease (h : Queues s) (side : Side) : Queues (s.semRelease side) := by
  intro d
  cases hw : (s.rwCond side).waiting with
  | nil =>
    unfold State.sleepers
    rw [semRelease_nil hw]
    by_cases hd : d = side
    · subst hd
      rw [semRelease_cond]
      exact (h d).release_nil hw
    · rw [semRelease_of_ne s hd]
      exact h d
  | cons v w =>
    have hv : (s.pc v).sleepsOn side = true := ((h side).mem v).1 (hw ▸ List.mem_cons_self)
    unfold State.sleepers
    rw [semRelease_cons hw]
    by_cases hd : d = side
    · subst hd
      rw [semRelease_cond]
      refine (h d).release_cons hw ?_ ?_
      · intro u hu
        rw [Function.update_of_ne hu]
      · rw [Function.update_self]
        exact resume_sleeps _ d
    · rw [semRelease_of_ne s hd]
      exact (h d).congr (sleeps_update (sleeps_other hv hd) (resume_sleeps _ d))

theorem sleepsOn_of_ne {e : Side} (hd : d ≠ e) : (Pc.suspended c e).sleepsOn d = false := decide_eq_false hd.symm

omit [DecidableEq T] in
theorem wakes_sleeps (s : State T) (d : Side) : s.wakes.sleepsOn d = false := by
  rcases wakes_cases s with ⟨hw, -⟩ | ⟨hw, -⟩ | ⟨hw, -⟩ <;> rw [hw] <;> rfl

/-- A thread that does not sleep is not woken. -/
theorem semRelease_self {q : Pc} (hp : s.pc t = q) (hq : ∀ d, q.sleepsOn d = false) (side : Side) :
    (s.semRelease side).pc t = q := by
  rcases semRelease_pc s side t with hpc | ⟨c, d, hs, -⟩
  · rw [hpc, hp]
  · have hd := hq d
    rw [← hp, hs] at hd
    exact absurd hd (by simp [Pc.sleepsOn])

theorem Queues.release (h : Queues s) {q : Pc} (hp : s.pc t = q) (hq : ∀ d, q.sleepsOn d = false) (side : Side)
    (hc : s'.rwCond = (s.semRelease side).rwCond) (hpc : s'.pc = Function.update (s.semRelease side).pc t p)
    (hps : ∀ d, p.sleepsOn d = false) : Queues s' := by
  refine (h.semRelease side).stay hc hpc ?_ hps
  intro d
  rw [semRelease_self hp hq]
  exact hq d

theorem queues_cont (h : Queues s) (hc : ContCase s t s') : Queues s' := by
  cases hc with
  | locked c m p hp hl hpc =>
    refine h.stay rfl rfl (hp ▸ fun _ => rfl) ?_
    rcases hpc with rfl | rfl <;> exact fun _ => rfl
  | test c hp ht =>
    cases ht with
    | unlock _ => exact h.stay rfl rfl (hp ▸ fun _ => rfl) (wakes_sleeps s)
    | rdWait _ _ _ | wrWait _ _ _ | rdBusy _ _ _ | wrBusy _ _ _ | read _ _ | write _ _ =>
      exact h.stay rfl rfl (hp ▸ fun _ => rfl) fun _ => rfl
  | waits c side hp _ | notOwner c side hp _ | relocked c side r m hp _ | again c side hp | failed c side r hp _
  | done c r hp => exact h.stay rfl rfl (hp ▸ fun _ => rfl) fun _ => rfl
  | sem hc =>
    cases hc with
    | gaveUp c side hp _ _ | locked hp | failed hp _ => exact h.stay rfl rfl (hp ▸ fun _ => rfl) fun _ => rfl
    | taken c side hp hv =>
      refine h.setCond ?_ (hp ▸ fun _ _ => ⟨rfl, rfl⟩)
      exact ((h side).setValue fun _ => (h side).empty hv).congr (sleeps_update (hp ▸ rfl) rfl)
    | tried hp hv =>
      refine h.setCond ?_ (hp ▸ fun _ _ => ⟨rfl, rfl⟩)
      exact ((h .readers).setValue fun _ => (h .readers).empty hv).congr (sleeps_update (hp ▸ rfl) rfl)
    | suspended c side hp hv _ =>
      refine h.setCond ?_ (hp ▸ fun _ hd => ⟨rfl, sleepsOn_of_ne hd⟩)
      refine (h side).push hv (congrArg (Pc.sleepsOn side) hp) ?_ ?_
      · intro u hu
        rw [Function.update_of_ne hu]
      · rw [Function.update_self]
        exact decide_eq_true rfl
    | signal hp => exact h.release hp (fun _ => rfl) .writers rfl rfl fun _ => rfl
    | left hp => exact h.release hp (fun _ => rfl) .readers rfl rfl fun _ => rfl
    | again hp => exact h.release hp (fun _ => rfl) .readers rfl rfl fun _ => rfl

theorem queues_step (h : Queues s) (hs : s.step a = some s') : Queues s' := by
  cases step_cases hs with
  | call t c _ hp _ hs' =>
    rw [hs']
    exact h.stay rfl rfl (hp ▸ fun _ => rfl) fun _ => rfl
  | cont t _ _ hc => exact queues_cont h hc
  | timeout t c side _ hp hs' =>
    rw [hs']
    refine h.setCond ?_ (hp ▸ fun _ hd => ⟨sleepsOn_of_ne hd, rfl⟩)
    refine (h side).erase ?_ ?_
    · intro u hu
      rw [Function.update_of_ne hu]
    · rw [Function.update_self]
      rfl

/-! ## The loop of a broadcast -/

/-- The thread in the loop of a broadcast has the scheduler locked, and once it has taken a token no reader
sleeps. -/
structure Looped (s : State T) : Prop where
  critical : ∀ c, s.critical = some c ↔ (s.pc c).inLoop = true
  last : ∀ c, s.pc c = .release true → (s.rwCond .readers).waiting = []

/-- No thread enters a loop, or leaves it. -/
theorem Looped.stay (h : Looped s) (hm : Moves s s' t p) (hc : s'.critical = s.critical)
    (hp : p.inLoop = (s.pc t).inLoop)
    (hlast : p = .release true → (s'.rwCond .readers).waiting = [])
    (hw : (∃ c, c ≠ t ∧ s.pc c = .release true) → (s.rwCond .readers).waiting = [] →
      (s'.rwCond .readers).waiting = []) : Looped s' := by
  refine ⟨?_, ?_⟩
  · intro c
    rw [hc, h.critical]
    by_cases hct : c = t
    · rw [hct, hm.pc, hp]
    · rw [hm.same Pc.inLoop (fun _ _ => rfl) hct]
  · intro c hcr
    by_cases hct : c = t
    · rw [hct, hm.pc] at hcr
      exact hlast hcr
    · have hpc : s.pc c = .release true := by
        rcases hm.others c hct with hpc | ⟨c', d, -, hr⟩
        · exact hpc ▸ hcr
        · rw [hr] at hcr
          cases hcr
      exact hw ⟨c, hct, hpc⟩ (h.last c hpc)

omit [DecidableEq T] in
theorem wakes_inLoop (s : State T) : s.wakes.inLoop = false := by
  rcases wakes_cases s with ⟨hw, -⟩ | ⟨hw, -⟩ | ⟨hw, -⟩ <;> rw [hw] <;> rfl

omit [DecidableEq T] in
theorem Looped.unlocked (h : Looped s) (hen : s.critical = none ∨ s.critical = some t) (hu : u ≠ t) :
    (s.pc u).inLoop = false := by
  apply Bool.eq_false_iff.2
  intro hloop
  have hc := (h.critical u).2 hloop
  rcases hen with hen | hen
  · rw [hc] at hen
    cases hen
  · rw [hc] at hen
    exact hu (Option.some.inj hen)

/-- A thread enters the loop. -/
theorem Looped.enter (h : Looped s) (hen : s.critical = none ∨ s.critical = some t) (hm : Moves s s' t .trytake)
    (hc : s'.critical = some t) : Looped s' := by
  refine ⟨?_, ?_⟩
  · intro v
    rw [hc, Option.some_inj]
    by_cases hv : v = t
    · rw [hv, hm.pc]
      exact iff_of_true rfl rfl
    · rw [hm.same Pc.inLoop (fun _ _ => rfl) hv, h.unlocked hen hv]
      exact iff_of_false (Ne.symm hv) Bool.false_ne_true
  · intro v hv
    by_cases hvt : v = t
    · rw [hvt, hm.pc] at hv
      cases hv
    · have hin := hm.same Pc.inLoop (fun _ _ => rfl) hvt
      rw [h.unlocked hen hvt, hv] at hin
      cases hin

/-- The thread in the loop leaves it. -/
theorem Looped.leave (h : Looped s) (hen : s.critical = none ∨ s.critical = some t) (hm : Moves s s' t p)
    (hp : p.inLoop = false) (hc : s'.critical = none) : Looped s' := by
  have hnone : ∀ v, (s'.pc v).inLoop = false := by
    intro v
    by_cases hv : v = t
    · rw [hv, hm.pc, hp]
    · rw [hm.same Pc.inLoop (fun _ _ => rfl) hv, h.unlocked hen hv]
  refine ⟨?_, ?_⟩
  · intro v
    rw [hc, hnone v]
    exact iff_of_false nofun Bool.false_ne_true
  · intro v hv
    have hin := hnone v
    rw [hv] at hin
    cases hin

/-- A step outside the readers' queue. -/
theorem Looped.same (h : Looped s) (hm : Moves s s' t p) (hc : s'.critical = s.critical)
    (hp : p.inLoop = false) (ht : (s.pc t).inLoop = false)
    (hw : (s.rwCond .readers).waiting = [] → (s'.rwCond .readers).waiting = []) : Looped s' := by
  refine h.stay hm hc (hp.trans ht.symm) ?_ fun _ => hw
  intro hpr
  rw [hpr] at hp
  cases hp

omit [DecidableEq T] in
theorem setCond_waiting {m : Sem T} (hm : m.waiting = (s.rwCond side).waiting)
    (hw : (s.rwCond d).waiting = []) : ((s.setCond side m).rwCond d).waiting = [] := by
  by_cases hd : d = side
  · subst hd
    rw [setCond_self, hm, hw]
  · rw [setCond_of_ne s m hd, hw]

theorem semRelease_waiting (hw : (s.rwCond d).waiting = []) : ((s.semRelease side).rwCond d).waiting = [] := by
  by_cases hd : d = side
  · subst hd
    rw [semRelease_cond, sem_release_nil hw]
  · rw [semRelease_of_ne s hd, hw]

theorem looped_sem (h : Looped s) (hq : Queues s) (hen : s.critical = none ∨ s.critical = some t)
    (hc : SemCase s t s') : Looped s' := by
  cases hc with
  | taken c side hp _ => exact h.same (moves_setPc rfl) rfl rfl (hp ▸ rfl) (setCond_waiting rfl)
  | gaveUp c side hp _ _ => exact h.same (moves_setPc rfl) rfl rfl (hp ▸ rfl) id
  | suspended c side hp _ _ =>
    refine h.stay (moves_setPc rfl) rfl (hp ▸ rfl) nofun ?_
    rintro ⟨v, hv, hvr⟩ _
    have hin := h.unlocked hen hv
    rw [hvr] at hin
    cases hin
  | signal hp => exact h.same (moves_semRelease rfl) rfl rfl (hp ▸ rfl) semRelease_waiting
  | locked hp => exact h.enter hen (moves_setPc rfl) rfl
  | tried hp hv =>
    refine h.stay (moves_setPc rfl) rfl (hp ▸ rfl) ?_ fun _ => setCond_waiting rfl
    intro _
    exact setCond_waiting rfl ((hq .readers).empty hv)
  | failed hp _ => exact h.stay (moves_setPc rfl) rfl (hp ▸ rfl) nofun fun _ => id
  | left hp => exact h.leave hen (moves_semRelease rfl) rfl rfl
  | again hp => exact h.stay (moves_semRelease rfl) rfl (hp ▸ rfl) nofun fun _ => semRelease_waiting

theorem looped_step (h : Looped s) (hq : Queues s) (hs : s.step a = some s') : Looped s' := by
  cases step_cases hs with
  | call t c _ hp _ hs' =>
    rw [hs']
    exact h.same (moves_setPc rfl) rfl rfl (hp ▸ rfl) id
  | timeout t c side _ hp hs' =>
    rw [hs']
    refine h.same (moves_setPc rfl) rfl rfl (hp ▸ rfl) ?_
    intro hw
    by_cases hd : side = .readers
    · subst hd
      show ((s.setCond _ _).rwCond _).waiting = []
      rw [setCond_self]
      show (s.rwCond .readers).waiting.erase t = []
      rw [hw]
      rfl
    · show ((s.setCond _ _).rwCond _).waiting = []
      rw [setCond_of_ne s _ (Ne.symm hd), hw]
  | cont t _ hen hc =>
    cases hc with
    | sem hc => exact looped_sem h hq hen hc
    | locked c m p hp hl hpc =>
      refine h.same (moves_setPc rfl) rfl ?_ (hp ▸ rfl) id
      rcases hpc with rfl | rfl <;> rfl
    | test c hp ht =>
      cases ht with
      | unlock _ => exact h.same (moves_setPc rfl) rfl (wakes_inLoop s) (hp ▸ rfl) id
      | rdWait _ _ _ | wrWait _ _ _ | rdBusy _ _ _ | wrBusy _ _ _ | read _ _ | write _ _ =>
        exact h.same (moves_setPc rfl) rfl rfl (hp ▸ rfl) id
    | waits c side hp _ | notOwner c side hp _ | relocked c side r m hp _ | again c side hp | failed c side r hp _
    | done c r hp => exact h.same (moves_setPc rfl) rfl rfl (hp ▸ rfl) id

/-! ## What keeps a wake-up on its way -/

/-- On the way to the semaphore of a condition, or suspended on it. -/
def Pc.enteredOn (side : Side) : Pc → Bool
  | .take _ d | .suspended _ d => d = side
  | _ => false

/-- An unlock is about to signal, or a writer was woken and will look at the lock again. -/
def Pc.claims : Pc → Bool
  | .signal | .relock _ .writers .ok | .back _ .writers .ok | .test .wrlock | .test (.timedwrlock _) => true
  | _ => false

/-- A writer that is about to wait has found the lock held. -/
def Found (s : State T) : Prop := ∀ t c, s.pc t = .wait c .writers → s.rwRefcount ≠ 0

/-- While the lock is free and a writer waits, a wake-up for the writers is on its way. -/
def Claimed (s : State T) : Prop :=
  s.rwRefcount = 0 → (∃ u, (s.pc u).enteredOn .writers = true) →
    0 < (s.rwCond .writers).value ∨ ∃ u, (s.pc u).claims = true

/-- While no writer holds the lock or waits for it, no reader sleeps, or that is about to change. -/
def Brought (s : State T) : Prop :=
  0 ≤ s.rwRefcount → s.rwNwait .writers = 0 → (∃ u, (s.pc u).brings = true) ∨ ∀ u, (s.pc u).sleepsOn .readers = false

omit [DecidableEq T] in
theorem Moves.entered (hm : Moves s s' t p) (hu : u ≠ t) (h : (s'.pc u).enteredOn d = true) :
    (s.pc u).enteredOn d = true := by
  rcases hm.others u hu with hpc | ⟨c, e, -, hr⟩
  · rwa [hpc] at h
  · rw [hr] at h
    cases h

omit [DecidableEq T] in
theorem Moves.claims (hm : Moves s s' t p) (hu : u ≠ t) (h : (s.pc u).claims = true) : (s'.pc u).claims = true := by
  rcases hm.others u hu with hpc | ⟨c, e, hs, -⟩
  · rwa [hpc]
  · rw [hs] at h
    cases h

omit [DecidableEq T] in
theorem Moves.sleeps (hm : Moves s s' t p) (hu : u ≠ t) (h : (s'.pc u).sleepsOn d = true) :
    (s.pc u).sleepsOn d = true := by
  rcases hm.others u hu with hpc | ⟨c, e, -, hr⟩
  · rwa [hpc] at h
  · rw [hr] at h
    cases h

omit [DecidableEq T] in
theorem Found.move (h : Found s) (hm : Moves s s' t p) (hr : s'.rwRefcount = s.rwRefcount)
    (hp : ∀ c, p = .wait c .writers → s.rwRefcount ≠ 0) : Found s' := by
  intro u c hu
  rw [hr]
  by_cases hut : u = t
  · rw [hut, hm.pc] at hu
    exact hp c hu
  · rcases hm.others u hut with hpc | ⟨c', e, -, hr'⟩
    · rw [hpc] at hu
      exact h u c hu
    · rw [hr'] at hu
      cases hu

omit [DecidableEq T] in
/-- A step that keeps a token of the writers, and what the thread claims. -/
theorem Claimed.move (h : Claimed s) (hm : Moves s s' t p) (hr : s'.rwRefcount = s.rwRefcount)
    (hent : s.rwRefcount = 0 → p.enteredOn .writers = true → (s.pc t).enteredOn .writers = true)
    (hkeep : 0 < (s.rwCond .writers).value ∨ (s.pc t).claims = true →
      0 < (s'.rwCond .writers).value ∨ ∃ u, (s'.pc u).claims = true) : Claimed s' := by
  rintro h0 ⟨u, hu⟩
  rw [hr] at h0
  have hold : ∃ v, (s.pc v).enteredOn .writers = true := by
    refine ⟨u, ?_⟩
    by_cases hut : u = t
    · rw [hut, hm.pc] at hu
      exact hut ▸ hent h0 hu
    · exact hm.entered hut hu
  rcases h h0 hold with hv | ⟨v, hv⟩
  · exact hkeep (.inl hv)
  · by_cases hvt : v = t
    · exact hkeep (.inr (hvt ▸ hv))
    · exact .inr ⟨v, hm.claims hvt hv⟩

omit [DecidableEq T] in
/-- A step after which no thread more sleeps, and no broadcast less is under way. -/
theorem Brought.move (h : Brought s) (hm : Moves s s' t p)
    (hpre : 0 ≤ s'.rwRefcount → s'.rwNwait .writers = 0 → 0 ≤ s.rwRefcount ∧ s.rwNwait .writers = 0)
    (hsl : p.sleepsOn .readers = true → (s.pc t).sleepsOn .readers = true)
    (hbr : (s.pc t).brings = true → p.brings = true) : Brought s' := by
  intro h0 hn
  obtain ⟨h0, hn⟩ := hpre h0 hn
  rcases h h0 hn with ⟨u, hu⟩ | hno
  · left
    refine ⟨u, ?_⟩
    by_cases hut : u = t
    · rw [hut, hm.pc]
      exact hbr (hut ▸ hu)
    · rw [hm.same Pc.brings (fun _ _ => rfl) hut]
      exact hu
  · right
    intro u
    apply Bool.eq_false_iff.2
    intro hu
    have hold : (s.pc u).sleepsOn .readers = true := by
      by_cases hut : u = t
      · rw [hut, hm.pc] at hu
        exact hut ▸ hsl hu
      · exact hm.sleeps hut hu
    rw [hno u] at hold
    cases hold

/-- What the runs keep for the sleepers. -/
structure Fair (s : State T) : Prop where
  found : Found s
  claimed : Claimed s
  brought : Brought s

omit [DecidableEq T] in
/-- A step that neither counts nor wakes. -/
theorem Fair.move (h : Fair s) (hm : Moves s s' t p) (hr : s'.rwRefcount = s.rwRefcount)
    (hn : s'.rwNwait .writers = s.rwNwait .writers) (hv : (s'.rwCond .writers).value = (s.rwCond .writers).value)
    (hp : ∀ c, p ≠ .wait c .writers)
    (hent : s.rwRefcount = 0 → p.enteredOn .writers = true → (s.pc t).enteredOn .writers = true)
    (hcl : (s.pc t).claims = true → p.claims = true)
    (hsl : p.sleepsOn .readers = true → (s.pc t).sleepsOn .readers = true)
    (hbr : (s.pc t).brings = true → p.brings = true) : Fair s' := by
  refine ⟨h.found.move hm hr fun c hc => absurd hc (hp c), h.claimed.move hm hr hent ?_,
    h.brought.move hm (by rw [hr, hn]; exact And.intro) hsl hbr⟩
  rintro (hpos | hc)
  · exact .inl (hv ▸ hpos)
  · exact .inr ⟨t, hm.pc ▸ hcl hc⟩

section Steps

variable [Fintype T]

theorem writers_ne : Side.writers ≠ Side.readers := by decide

omit [DecidableEq T] [Fintype T] in
theorem addNwait_of_ne (s : State T) (n : ℤ) (hd : d ≠ side) : (s.addNwait side n).rwNwait d = s.rwNwait d :=
  Function.update_of_ne hd ..

omit [DecidableEq T] [Fintype T] in
theorem addNwait_self (s : State T) (side : Side) (n : ℤ) :
    (s.addNwait side n).rwNwait side = s.rwNwait side + n := Function.update_self ..

omit [DecidableEq T] in
theorem Counted.nonneg (h : Counted s) (side : Side) : 0 ≤ s.rwNwait side := by
  rw [h side]
  exact Int.natCast_nonneg _

omit [DecidableEq T] in
theorem Counted.none (h : Counted s) (hn : s.rwNwait side ≤ 0) (u : T) : (s.pc u).waitsOn side = false := by
  rw [h side] at hn
  have hcard : s.waiters side = 0 := by omega
  apply Bool.eq_false_iff.2
  intro hu
  have hmem := Finset.card_eq_zero.1 hcard
  exact absurd (hmem ▸ Finset.mem_filter.2 ⟨Finset.mem_univ u, hu⟩) (Finset.notMem_empty u)

theorem waitsOn_of_entered (h : p.enteredOn d = true) : p.waitsOn d = true := by
  cases p <;> first | exact h | cases h

theorem waitsOn_of_sleeps (h : p.sleepsOn d = true) : p.waitsOn d = true := by
  cases p <;> first | exact h | cases h

omit [DecidableEq T] in
/-- Nobody waits where the counter is 0. -/
theorem Moves.nobody (hm : Moves s s' t p) (hn : Counted s) (hle : s.rwNwait side ≤ 0) (hp : p.waitsOn side = false)
    (u : T) : (s'.pc u).waitsOn side = false := by
  by_cases hu : u = t
  · rw [hu, hm.pc, hp]
  · rw [hm.same (fun q => q.waitsOn side) (fun _ _ => rfl) hu]
    exact hn.none hle u

theorem waitsFor_reading (hr : c.reading = true) : c.waitsFor ≠ some .writers := by
  cases c <;> simp_all [Call.waitsFor, Call.reading]

theorem waitsFor_tries (ht : c.tries = true) : c.waitsFor ≠ some .writers := by
  cases c <;> simp_all [Call.waitsFor, Call.tries]

/-- What a call tests that waits for no lock of writers: nothing is lost. -/
theorem test_claims (h : c.waitsFor ≠ some .writers) : (Pc.test c).claims = false ∧ (Pc.test c).brings = false := by
  cases c <;> first | exact ⟨rfl, rfl⟩ | exact absurd rfl h

theorem fair_test (h : Fair s) (ho : Owned s) (hn : Counted s) (hp : s.pc t = .test c) (hc : TestCase s t c s') :
    Fair s' := by
  have hquiet : c.waitsFor ≠ some .writers → (s.pc t).claims = false ∧ (s.pc t).brings = false := by
    intro hw
    rw [hp]
    exact test_claims hw
  have hinside : (s.pc t).inside = true := hp ▸ rfl
  have hwait : ∀ u c', u ≠ t → s.pc u ≠ .wait c' .writers := by
    intro u c' hu hw
    have hin := ho.alone hinside hu
    rw [hw] at hin
    cases hin
  cases hc with
  | rdWait hr _ _ =>
    obtain ⟨hcl, hbr⟩ := hquiet (waitsFor_reading hr)
    exact h.move (moves_setPc rfl) rfl (addNwait_of_ne s 1 writers_ne) rfl nofun (fun _ => nofun) (hcl ▸ nofun) nofun
      (hbr ▸ nofun)
  | rdBusy ht _ _ =>
    obtain ⟨hcl, hbr⟩ := hquiet (waitsFor_tries ht)
    exact h.move (moves_setPc rfl) rfl rfl rfl nofun (fun _ => nofun) (hcl ▸ nofun) nofun (hbr ▸ nofun)
  | wrBusy ht _ _ =>
    obtain ⟨hcl, hbr⟩ := hquiet (waitsFor_tries ht)
    exact h.move (moves_setPc rfl) rfl rfl rfl nofun (fun _ => nofun) (hcl ▸ nofun) nofun (hbr ▸ nofun)
  | read hr hb =>
    obtain ⟨hcl, hbr⟩ := hquiet (waitsFor_reading hr)
    have hge : 0 ≤ s.rwRefcount := not_lt.1 fun hlt => hb (.inl hlt)
    have hm : Moves s ({ s with rwRefcount := s.rwRefcount + 1 }.setPc t (.done c .ok)) t (.done c .ok) :=
      moves_setPc rfl
    refine ⟨?_, ?_, ?_⟩
    · intro u c' _
      show s.rwRefcount + 1 ≠ 0
      omega
    · intro h0 _
      have h0 : s.rwRefcount + 1 = 0 := h0
      omega
    · exact h.brought.move hm (fun _ hnw => ⟨hge, hnw⟩) nofun (hbr ▸ nofun)
  | wrWait _ _ hne =>
    refine ⟨fun _ _ _ => hne, fun h0 => absurd h0 hne, ?_⟩
    intro _ hnw
    have hnw : s.rwNwait .writers + 1 = 0 := (addNwait_self s .writers 1).symm.trans hnw
    have hge := hn.nonneg .writers
    omega
  | write _ _ =>
    refine ⟨fun _ _ _ => (by decide : (-1 : ℤ) ≠ 0), fun h0 => absurd h0 (by decide : (-1 : ℤ) ≠ 0), ?_⟩
    intro h0
    exact absurd h0 (by decide : ¬(0 : ℤ) ≤ -1)
  | unlock _ =>
    have hm : Moves s ({ s with rwRefcount := s.unlockedCount }.setPc t s.wakes) t s.wakes := moves_setPc rfl
    refine ⟨?_, ?_, ?_⟩
    · intro u c' hw
      by_cases hu : u = t
      · rw [hu, hm.pc] at hw
        rcases wakes_cases s with ⟨hk, -⟩ | ⟨hk, -⟩ | ⟨hk, -⟩ <;> rw [hk] at hw <;> cases hw
      · rcases hm.others u hu with hpc | ⟨c', d, -, hr⟩
        · exact absurd (hpc ▸ hw) (hwait u c' hu)
        · rw [hr] at hw
          cases hw
    · rintro h0 ⟨u, hu⟩
      have hwaits := waitsOn_of_entered hu
      rcases wakes_cases s with ⟨hk, -⟩ | ⟨hk, hle⟩ | ⟨hk, hne, -⟩
      · exact .inr ⟨t, by rw [hm.pc, hk]; rfl⟩
      · rw [hm.nobody hn hle (by rw [hk]; rfl) u] at hwaits
        cases hwaits
      · have hle : s.rwNwait .writers ≤ 0 := not_lt.1 fun hlt => hne hlt h0
        rw [hm.nobody hn hle (by rw [hk]; rfl) u] at hwaits
        cases hwaits
    · intro _ hnw
      have hnw : s.rwNwait .writers = 0 := hnw
      rcases wakes_cases s with ⟨-, hlt⟩ | ⟨hk, -⟩ | ⟨hk, -, hle⟩
      · omega
      · exact .inl ⟨t, by rw [hm.pc, hk]; rfl⟩
      · right
        intro u
        apply Bool.eq_false_iff.2
        intro hu
        have hwaits := waitsOn_of_sleeps hu
        rw [hm.nobody hn (hle hnw.le) (by rw [hk]; rfl) u] at hwaits
        cases hwaits

theorem entered_cases (h : p.enteredOn d = true) : p.takesOn d = true ∨ p.sleepsOn d = true := by
  cases p with
  | take c e => exact .inl h
  | suspended c e => exact .inr h
  | _ => cases h

omit [Fintype T] in
/-- A signal wakes a writer, or stores a token that the writers on their way find. -/
theorem fair_signal (h : Fair s) (hq : Queues s) (hok : KeepsWakeup s (.cont t)) (hp : s.pc t = .signal) :
    Fair ((s.semRelease .writers).setPc t (.done .unlock .ok)) := by
  have hm : Moves s ((s.semRelease .writers).setPc t (.done .unlock .ok)) t (.done .unlock .ok) :=
    moves_semRelease rfl
  refine ⟨h.found.move hm rfl nofun, ?_, h.brought.move hm (fun h0 hn => ⟨h0, hn⟩) nofun (hp ▸ nofun)⟩
  rintro - ⟨u, hu⟩
  cases hw : (s.rwCond .writers).waiting with
  | cons v w =>
    -- the writer at the head of the queue
    right
    have hv : (s.pc v).sleepsOn .writers = true := ((hq .writers).mem v).1 (hw ▸ List.mem_cons_self)
    have hvt : v ≠ t := by
      rintro rfl
      rw [hp] at hv
      cases hv
    refine ⟨v, ?_⟩
    have hpc : ((s.semRelease .writers).setPc t (.done .unlock .ok)).pc v = (s.pc v).resume .ok := by
      show Function.update (s.semRelease .writers).pc t _ v = _
      rw [Function.update_of_ne hvt, semRelease_cons hw, Function.update_self]
    rw [hpc]
    cases hpv : s.pc v with
    | suspended c e =>
      rw [hpv] at hv
      rw [show e = .writers from of_decide_eq_true hv]
      rfl
    | _ =>
      rw [hpv] at hv
      cases hv
  | nil =>
    left
    have hcond : ((s.semRelease .writers).setPc t (.done .unlock .ok)).rwCond .writers =
        ⟨((s.rwCond .writers).value + 1) % 2 ^ 16, []⟩ := (semRelease_cond s .writers).trans (sem_release_nil hw)
    rw [hcond]
    by_contra hz
    -- the counter has wrapped, and nobody is on the way to it
    have hnone := hok.signal t (decide_eq_true rfl) hp (Nat.eq_zero_of_not_pos hz)
    have hut : u ≠ t := by
      rintro rfl
      rw [hm.pc] at hu
      cases hu
    have hold := hm.entered hut hu
    rcases entered_cases hold with htake | hsl
    · rw [hnone u] at htake
      cases htake
    · have hmem := ((hq .writers).mem u).2 hsl
      rw [hw] at hmem
      cases hmem

omit [Fintype T] in
theorem fair_sem (h : Fair s) (hq : Queues s) (hl : Looped s) (hok : KeepsWakeup s (.cont t))
    (hc : SemCase s t s') : Fair s' := by
  have hon : (Act.cont t).goesOn t = true := decide_eq_true rfl
  cases hc with
  | taken c side hp _ =>
    have hm : Moves s ((s.setCond side { s.rwCond side with value := (s.rwCond side).value - 1 }).setPc t
        (.relock c side .ok)) t (.relock c side .ok) := moves_setPc rfl
    refine ⟨h.found.move hm rfl nofun, h.claimed.move hm rfl (fun _ => nofun) ?_,
      h.brought.move hm (fun h0 hn => ⟨h0, hn⟩) nofun (hp ▸ nofun)⟩
    cases side with
    | writers => exact fun _ => .inr ⟨t, by rw [hm.pc]; rfl⟩
    | readers =>
      rintro (hv | hcl)
      · left
        have hcond : ((s.setCond .readers { s.rwCond .readers with value := (s.rwCond .readers).value - 1 }).setPc t
            (.relock c .readers .ok)).rwCond .writers = s.rwCond .writers :=
          setCond_of_ne s { s.rwCond .readers with value := (s.rwCond .readers).value - 1 } writers_ne
        rw [hcond]
        exact hv
      · rw [hp] at hcl
        cases hcl
  | gaveUp c side hp _ _ =>
    exact h.move (moves_setPc rfl) rfl rfl rfl nofun (fun _ => nofun) (hp ▸ nofun) nofun (hp ▸ nofun)
  | suspended c side hp hv h0 =>
    have hm : Moves s ((s.setCond side { s.rwCond side with waiting := (s.rwCond side).waiting ++ [t] }).setPc t
        (.suspended c side)) t (.suspended c side) := moves_setPc rfl
    refine ⟨h.found.move hm rfl nofun, h.claimed.move hm rfl (fun _ hent => hp ▸ hent) ?_, ?_⟩
    · rintro (hpos | hcl)
      · left
        by_cases hside : side = .writers
        · subst hside
          rw [hv] at hpos
          cases hpos
        · have hcond : ((s.setCond side { s.rwCond side with waiting := (s.rwCond side).waiting ++ [t] }).setPc t
              (.suspended c side)).rwCond .writers = s.rwCond .writers := Function.update_of_ne (Ne.symm hside) ..
          rw [hcond]
          exact hpos
      · rw [hp] at hcl
        cases hcl
    · by_cases hside : side = .readers
      · subst hside
        intro hge hn
        left
        have hwill : (s.pc t).willing .readers = true := by
          rw [hp]
          exact decide_eq_true ⟨rfl, h0⟩
        rcases hok.reader t hon hwill hv with hlt | hne | ⟨u, hu⟩
        · exact absurd hge (not_le.2 hlt)
        · exact absurd hn hne
        · refine ⟨u, ?_⟩
          have hut : u ≠ t := by
            rintro rfl
            rw [hp] at hu
            cases hu
          rw [hm.same Pc.brings (fun _ _ => rfl) hut]
          exact hu
      · refine h.brought.move hm (fun h0 hn => ⟨h0, hn⟩) ?_ (hp ▸ nofun)
        intro hsl
        exact absurd (of_decide_eq_true hsl) hside
  | signal hp => exact fair_signal h hq hok hp
  | locked hp =>
    exact h.move (moves_setPc rfl) rfl rfl rfl nofun (fun _ => nofun) (hp ▸ nofun) nofun fun _ => rfl
  | tried hp _ =>
    exact h.move (moves_setPc rfl) rfl rfl (congrArg Sem.value
      (setCond_of_ne s { s.rwCond .readers with value := (s.rwCond .readers).value - 1 } writers_ne)) nofun (fun _ => nofun)
      (hp ▸ nofun) nofun fun _ => rfl
  | failed hp _ =>
    exact h.move (moves_setPc rfl) rfl rfl rfl nofun (fun _ => nofun) (hp ▸ nofun) nofun fun _ => rfl
  | left hp =>
    have hm : Moves s ({ s.semRelease .readers with critical := none }.setPc t (.done .unlock .ok)) t
        (.done .unlock .ok) := moves_semRelease rfl
    refine ⟨h.found.move hm rfl nofun, h.claimed.move hm rfl (fun _ => nofun) ?_, ?_⟩
    · rintro (hv | hcl)
      · left
        have hcond : ({ s.semRelease .readers with critical := none }.setPc t (.done .unlock .ok)).rwCond .writers =
            s.rwCond .writers := semRelease_of_ne s writers_ne
        rw [hcond]
        exact hv
      · rw [hp] at hcl
        cases hcl
    · intro _ _
      right
      intro u
      apply Bool.eq_false_iff.2
      intro hu
      have hut : u ≠ t := by
        rintro rfl
        rw [hm.pc] at hu
        cases hu
      have hmem := ((hq .readers).mem u).2 (hm.sleeps hut hu)
      rw [hl.last t hp] at hmem
      cases hmem
  | again hp =>
    exact h.move (moves_semRelease rfl) rfl rfl (congrArg Sem.value (semRelease_of_ne s writers_ne)) nofun
      (fun _ => nofun) (hp ▸ nofun) nofun fun _ => rfl

theorem fair_cont (h : Fair s) (ho : Owned s) (hsd : Sided s) (hn : Counted s) (hq : Queues s) (hl : Looped s)
    (hok : KeepsWakeup s (.cont t)) (hc : ContCase s t s') : Fair s' := by
  cases hc with
  | sem hc => exact fair_sem h hq hl hok hc
  | test c hp ht => exact fair_test h ho hn hp ht
  | locked c m p hp _ hpc =>
    rcases hpc with rfl | rfl
    · exact h.move (moves_setPc rfl) rfl rfl rfl nofun (fun _ => nofun) (hp ▸ nofun) nofun (hp ▸ nofun)
    · exact h.move (moves_setPc rfl) rfl rfl rfl nofun (fun _ => nofun) (hp ▸ nofun) nofun (hp ▸ nofun)
  | waits c side hp _ =>
    refine h.move (moves_setPc rfl) rfl rfl rfl nofun ?_ (hp ▸ nofun) nofun (hp ▸ nofun)
    intro h0 hent
    rw [show side = .writers from of_decide_eq_true hent] at hp
    exact absurd h0 (h.found t c hp)
  | notOwner c side hp hne => exact absurd (ho t (hp ▸ rfl)) hne
  | relocked c side r m hp _ =>
    refine h.move (moves_setPc rfl) rfl rfl rfl nofun (fun _ => nofun) ?_ nofun (hp ▸ nofun)
    intro hcl
    rw [hp] at hcl
    cases side <;> cases r <;> first | rfl | cases hcl
  | again c side hp =>
    have hm : Moves s ((s.addNwait side (-1)).setPc t (.test c)) t (.test c) := moves_setPc rfl
    have hside := hsd t c side (hp ▸ rfl)
    cases side with
    | readers =>
      exact h.move hm rfl (addNwait_of_ne s (-1) writers_ne) rfl nofun (fun _ => nofun) (hp ▸ nofun) nofun
        (hp ▸ nofun)
    | writers =>
      have hnew : (Pc.test c).claims = true ∧ (Pc.test c).brings = true := by
        cases c <;> first | exact ⟨rfl, rfl⟩ | cases hside
      refine ⟨h.found.move hm rfl nofun, h.claimed.move hm rfl (fun _ => nofun) ?_, ?_⟩
      · exact fun _ => .inr ⟨t, by rw [hm.pc, hnew.1]⟩
      · exact fun _ _ => .inl ⟨t, by rw [hm.pc, hnew.2]⟩
  | failed c side r hp hr =>
    have hm : Moves s ((s.addNwait side (-1)).setPc t (.done c r)) t (.done c r) := moves_setPc rfl
    have hquiet : (s.pc t).claims = false := by
      rw [hp]
      cases side <;> cases r <;> first | rfl | exact absurd rfl hr
    cases side with
    | readers =>
      exact h.move hm rfl (addNwait_of_ne s (-1) writers_ne) rfl nofun (fun _ => nofun) (hquiet ▸ nofun) nofun
        (hp ▸ nofun)
    | writers =>
      refine ⟨h.found.move hm rfl nofun, h.claimed.move hm rfl (fun _ => nofun) ?_, ?_⟩
      · rintro (hv | hcl)
        · exact .inl hv
        · rw [hquiet] at hcl
          cases hcl
      · intro hge hnw
        right
        have hnw : s.rwNwait .writers + -1 = 0 := (addNwait_self s .writers (-1)).symm.trans hnw
        have hgives : (s.pc t).givesUp = true := by
          rw [hp]
          exact decide_eq_true hr
        have hno := hok.givesUp t (decide_eq_true rfl) hgives (by omega) hge
        intro u
        apply Bool.eq_false_iff.2
        intro hu
        have hut : u ≠ t := by
          rintro rfl
          rw [hm.pc] at hu
          cases hu
        have hold := hm.sleeps hut hu
        rw [hno u] at hold
        cases hold
  | done c r hp =>
    exact h.move (moves_setPc rfl) rfl rfl rfl nofun (fun _ => nofun) (hp ▸ (by cases r <;> nofun)) nofun
      (hp ▸ nofun)

/-- **A step keeps the wake-ups on their way**, if it loses none. -/
theorem fair_step (h : Fair s) (ho : Owned s) (hsd : Sided s) (hn : Counted s) (hq : Queues s) (hl : Looped s)
    (hok : KeepsWakeup s a) (hs : s.step a = some s') : Fair s' := by
  cases step_cases hs with
  | call t c _ hp _ hs' =>
    subst hs'
    exact h.move (moves_setPc rfl) rfl rfl rfl nofun (fun _ => nofun) (hp ▸ nofun) nofun (hp ▸ nofun)
  | cont t ha _ hc =>
    subst ha
    exact fair_cont h ho hsd hn hq hl hok hc
  | timeout t c side _ hp hs' =>
    subst hs'
    have hv : ((s.setCond side { s.rwCond side with waiting := (s.rwCond side).waiting.erase t }).rwCond .writers).value =
        (s.rwCond .writers).value := by
      cases side with
      | writers => rw [setCond_self]
      | readers => rw [setCond_of_ne s _ writers_ne]
    exact h.move (moves_setPc rfl) rfl rfl hv nofun (fun _ => nofun) (hp ▸ nofun) nofun (hp ▸ nofun)

/-! ## The runs -/

omit [Fintype T] in
/-- The invariants that need nothing of the steps. -/
theorem runs_queues {ok : State T × (T → Hold) → Act T → Prop} {r : State T × (T → Hold)} (h : Runs ok r) :
    Queues r.1 ∧ Looped r.1 := by
  refine Run.Reach.inv (I := fun r => Queues r.1 ∧ Looped r.1) ?_ ?_ h
  · rintro ⟨s, g⟩ ⟨⟨-, hc, -, -, hcrit, hpc⟩, -⟩
    refine ⟨?_, ?_, ?_⟩
    · intro side
      unfold State.sleepers
      rw [hc, hpc]
      exact ⟨List.nodup_nil, fun _ => iff_of_false List.not_mem_nil Bool.false_ne_true, fun _ => rfl⟩
    · intro c
      rw [hcrit, hpc]
      exact iff_of_false nofun Bool.false_ne_true
    · intro c hc'
      rw [hpc] at hc'
      cases hc'
  · rintro ⟨s, g⟩ a ⟨s', g'⟩ ⟨hq, hl⟩ _ ⟨hs, -⟩
    exact ⟨queues_step hq hs, looped_step hl hq hs⟩

theorem runs_fair {r : State T × (T → Hold)} (h : Runs (fun r a => KeepsWakeup r.1 a) r) : Fair r.1 := by
  refine Run.Reach.inv_of (I := fun r => Fair r.1)
    (J := fun r => (Owned r.1 ∧ Sided r.1) ∧ Counted r.1 ∧ Queues r.1 ∧ Looped r.1)
    (fun r hr => ⟨runs_owned hr, runs_counted hr, runs_queues hr⟩) ?_ ?_ h
  · rintro ⟨s, g⟩ ⟨⟨-, -, -, -, -, hpc⟩, -⟩
    have hidle : ∀ t, s.pc t = .idle := fun t => congrFun hpc t
    refine ⟨?_, ?_, ?_⟩
    · intro t c ht
      rw [hidle t] at ht
      cases ht
    · rintro - ⟨u, hu⟩
      rw [hidle u] at hu
      cases hu
    · intro _ _
      right
      intro u
      rw [hidle u]
      rfl
  · rintro ⟨s, g⟩ a ⟨s', g'⟩ hf ⟨⟨ho, hsd⟩, hn, hq, hl⟩ hok ⟨hs, -⟩
    exact fair_step hf ho hsd hn hq hl hok hs

omit [DecidableEq T] [Fintype T] in
theorem State.Rests.idle (h : s.Rests) (ho : Owned s) (t : T) : (s.pc t).inside = false := by
  apply Bool.eq_false_iff.2
  intro hin
  have hown := ho t hin
  rw [h.free] at hown
  cases hown

theorem inside_of_claims (h : p.claims = true) : p.inside = true ∨ p.resumed = true := by
  cases p <;> first | exact .inl rfl | exact .inr rfl | cases h

theorem inside_of_brings (h : p.brings = true) : p.inside = true := by
  cases p <;> first | rfl | cases h

theorem entered_of_waits (h : p.waitsOn d = true) :
    p.enteredOn d = true ∨ p.inside = true ∨ p.resumed = true := by
  cases p <;> first | exact .inl h | exact .inr (.inl rfl) | exact .inr (.inr rfl)

theorem entered_of_sleeps (h : p.sleepsOn d = true) : p.enteredOn d = true := by
  cases p <;> first | exact h | cases h

omit [DecidableEq T] in
/-- Where nothing is under way, the invariants leave no sleeper beside a free lock. -/
theorem Fair.awake (h : Fair s) (ho : Owned s) (hn : Counted s) (hr : s.Rests) : s.Awake := by
  have hnone : ∀ u, ¬((s.pc u).inside = true ∨ (s.pc u).resumed = true) := by
    rintro u (hu | hu)
    · rw [hr.idle ho u] at hu
      cases hu
    · rw [hr.ran u] at hu
      cases hu
  have hwriters : s.rwRefcount = 0 → ∀ u, (s.pc u).enteredOn .writers ≠ true := by
    intro h0 u hu
    rcases h.claimed h0 ⟨u, hu⟩ with hv | ⟨v, hv⟩
    · rw [hr.empty] at hv
      cases hv
    · exact hnone v (inside_of_claims hv)
  have hreaders : 0 ≤ s.rwRefcount → s.rwNwait .writers = 0 → ∀ u, (s.pc u).sleepsOn .readers = false := by
    intro hge hnw
    rcases h.brought hge hnw with ⟨u, hu⟩ | hno
    · exact absurd (.inl (inside_of_brings hu)) (hnone u)
    · exact hno
  refine ⟨?_, fun hpos => hreaders hpos.le⟩
  intro h0
  -- a writer that is counted would be on its way
  have hnw : s.rwNwait .writers = 0 := by
    have hcard : s.waiters .writers = 0 := by
      refine Finset.card_eq_zero.2 (Finset.filter_eq_empty_iff.2 ?_)
      intro u _ hu
      rcases entered_of_waits hu with hent | hother
      · exact hwriters h0 u hent
      · exact hnone u hother
    rw [hn .writers, hcard]
    rfl
  intro t side
  cases side with
  | readers => exact hreaders h0.ge hnw t
  | writers => exact Bool.eq_false_iff.2 fun hsl => hwriters h0 t (entered_of_sleeps hsl)

end Steps

/-- **Nobody sleeps beside a free read-write lock**, in every run whose steps lose no wake-up. -/
theorem rwlock_awake {T : Type} [DecidableEq T] [Fintype T] (r : State T × (T → Hold))
    (h : Runs (fun r a => KeepsWakeup r.1 a) r) (hr : r.1.Rests) : r.1.Awake :=
  (runs_fair h).awake (runs_owned h).1 (runs_counted h) hr

/-- An unlock of a writer wakes the readers, and leaves one token. -/
example : (Run.exec (fun s a => s.step a) (pthreadRwlockInit (Fin 2)) [.call 0 .wrlock, .cont 0, .cont 0, .cont 0,
    .call 1 .rdlock, .cont 1, .cont 1, .cont 1, .cont 1, .call 0 .unlock, .cont 0, .cont 0, .cont 0, .cont 0, .cont 0,
    .cont 0, .cont 0, .cont 0, .cont 0]).map (fun s => ((s.pc 1).resumed, (s.rwCond .readers).value)) =
      some (true, 1) := by decide

/-- A writer that a reader has woken holds the lock. -/
theorem rwlock_awake_two : ∃ r : State (Fin 2) × (Fin 2 → Hold), r.1.rwRefcount = -1 ∧ r.1.Rests ∧ r.1.Awake := by
  obtain ⟨r, hr, h⟩ := Run.Reach.exec_history (fun s a => s.step a) (fun _ _ => ⟨0, false⟩) log
    (fun r a => KeepsWakeup r.1 a) (rwlockInit_init (Fin 2)) [.call 0 .rdlock, .cont 0, .cont 0, .cont 0,
      .call 1 .wrlock, .cont 1, .cont 1, .cont 1, .cont 1, .call 0 .unlock, .cont 0, .cont 0, .cont 0, .cont 0,
      .cont 1, .cont 1, .cont 1, .cont 1]
    (fun r => decide (r.1.rwRefcount = -1) && (decide (r.1.rwMutex.owner = none) &&
      (decide (∀ t, (r.1.pc t).resumed = false) && (decide ((r.1.rwCond .readers).value = 0) &&
        decide ((r.1.rwCond .writers).value = 0))))) (by decide)
  simp only [Bool.and_eq_true, decide_eq_true_eq] at h
  have hrests : r.1.Rests := ⟨h.2.1, h.2.2.1, fun side => by cases side <;> simp [h.2.2.2]⟩
  exact ⟨r, h.1, hrests, rwlock_awake r hr hrests⟩

/-- **A writer that gives up leaves a reader asleep**: a reader holds the lock, a timed writer waits, and a second
reader waits for it. The writer's time runs out, and the second reader sleeps beside a lock that it could share. -/
theorem rwlock_sleeps : ∃ r : State (Fin 3) × (Fin 3 → Hold), Runs Run.Any r ∧ r.1.Rests ∧ ¬r.1.Awake := by
  obtain ⟨r, hr, h⟩ := Run.Reach.exec_logged (fun s a => s.step a) (fun _ _ => ⟨0, false⟩) log Run.Any
    (rwlockInit_init (Fin 3)) [.call 0 .rdlock, .cont 0, .cont 0, .cont 0, .call 1 (.timedwrlock 1), .cont 1, .cont 1,
      .cont 1, .cont 1, .call 2 .rdlock, .cont 2, .cont 2, .cont 2, .cont 2, .timeout 1, .cont 1, .cont 1, .cont 1]
    (fun r => decide (0 < r.1.rwRefcount) && (decide (r.1.rwNwait .writers = 0) && (decide (r.1.rwMutex.owner = none) &&
      (decide (∀ t, (r.1.pc t).resumed = false) && (decide ((r.1.rwCond .readers).value = 0) &&
        (decide ((r.1.rwCond .writers).value = 0) && decide ((r.1.pc 2).sleepsOn .readers = true))))))) (by decide)
  simp only [Bool.and_eq_true, decide_eq_true_eq] at h
  obtain ⟨hpos, hnw, hfree, hran, hrd, hwr, hsl⟩ := h
  refine ⟨r, hr, ⟨hfree, hran, fun side => by cases side <;> assumption⟩, ?_⟩
  intro ha
  have hno := ha.shared hpos hnw 2
  rw [hsl] at hno
  cases hno

end RtThread.Rwlock
