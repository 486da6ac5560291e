import RtThread.Spec.PthreadCond
import Mathlib.Data.List.Nodup
import Mathlib.Data.Fintype.Basic

/-!
# Condition variables wake whom they must

* `cont_cases`: the steps of a call.
* `queued_step`: the suspended threads are those of the semaphore, which has no token then.
* `stuck_step`: a wait that gets stuck found no token.
* `wakes_step`: a step keeps what signals and broadcasts did, if no thread that was woken finds the
  semaphore empty.
* `Barrier`: behind the last count of a barrier all waits were found by the broadcast.
* `cond_wakes`: the same for runs.
* `cond_loses`: of two threads on the way to the semaphore a broadcast reaches one.
-/

namespace RtThread.Pthread

open State

variable {T : Type} [DecidableEq T] {s s' : State T} {g : Log T} {a : Act T} {t u : T}

/-! ## The steps -/

/-- The steps of a call of `t` at the semaphore. -/
inductive SemCase (s : State T) (t : T) : State T → Prop
  | taken (k : Caller) (timeout : ℤ) : s.pc t = .take k timeout → 0 < s.sem.value →
      SemCase s t ({ s with sem.value := s.sem.value - 1 }.setPc t (.relock k .ok))
  | gaveUp (k : Caller) : s.pc t = .take k 0 → s.sem.value = 0 →
      SemCase s t (s.setPc t (.relock k .ETIMEDOUT))
  | suspended (k : Caller) (timeout : ℤ) : s.pc t = .take k timeout → s.sem.value = 0 → timeout ≠ 0 →
      SemCase s t ({ s with sem.waiting := s.sem.waiting ++ [t] }.setPc t (.suspended k timeout))
  | locked (k : Caller) : s.pc t = .broadcast k →
      SemCase s t ({ s with critical := some t }.setPc t (.trytake k))
  | tried (k : Caller) : s.pc t = .trytake k → 0 < s.sem.value →
      SemCase s t ({ s with sem.value := s.sem.value - 1 }.setPc t (.release k true))
  | failed (k : Caller) : s.pc t = .trytake k → s.sem.value = 0 →
      SemCase s t (s.setPc t (.release k false))
  | left (k : Caller) : s.pc t = .release k true →
      SemCase s t ({ s.semRelease with critical := none }.setPc t k.next)
  | again (k : Caller) : s.pc t = .release k false → SemCase s t (s.semRelease.setPc t (.trytake k))

/-- The steps of a call of `t`. -/
inductive ContCase (s : State T) (t : T) : State T → Prop
  | locked (m : Mutex T) (p : Pc) : s.pc t = .barrierLock → (∃ e, s.mutex.lock t = some (e, m)) →
      p = .barrierCount ∨ p = .idle → ContCase s t ({ s with mutex := m }.setPc t p)
  | refused : s.pc t = .barrierCount → s.count = 0 → ContCase s t (s.setPc t .barrierUnlock)
  | last : s.pc t = .barrierCount → s.count = 1 →
      ContCase s t ({ s with count := 0 }.setPc t (.broadcast .barrier))
  | counted (n : ℕ) : s.pc t = .barrierCount → s.count = n + 2 →
      ContCase s t ({ s with count := n + 1 }.setPc t (.wait .barrier (-1)))
  | unlocked : s.pc t = .barrierUnlock →
      ContCase s t ({ s with mutex := (s.mutex.unlock t).2 }.setPc t .idle)
  | waits (k : Caller) (timeout : ℤ) : s.pc t = .wait k timeout → s.mutex.owner = some t →
      ContCase s t ({ s with mutex := (s.mutex.unlock t).2 }.setPc t (.take k timeout))
  | notOwner (k : Caller) (timeout : ℤ) : s.pc t = .wait k timeout → s.mutex.owner ≠ some t →
      ContCase s t (s.setPc t k.next)
  | relocked (k : Caller) (r : Errno) (m : Mutex T) : s.pc t = .relock k r →
      (∃ e, s.mutex.lock t = some (e, m)) → ContCase s t ({ s with mutex := m }.setPc t k.next)
  | sem {s' : State T} : SemCase s t s' → ContCase s t s'

theorem unlock_ok {m : Mutex T} (h : m.owner = some t) : (m.unlock t).1 = .ok := by
  rw [Mutex.unlock, if_pos h]

theorem cont_cases (h : s.cont t = some s') : ContCase s t s' := by
  unfold State.cont at h
  cases hp : s.pc t with
  | idle => simp [hp] at h
  | suspended k timeout => simp [hp] at h
  | barrierLock =>
    simp only [hp] at h
    split at h
    · cases h
    · rename_i m hl
      cases h
      exact .locked m _ hp ⟨_, hl⟩ (.inl rfl)
    · rename_i e m _ hl
      cases h
      exact .locked m _ hp ⟨e, hl⟩ (.inr rfl)
  | barrierCount =>
    simp only [hp] at h
    split at h
    · rename_i hc
      cases h
      exact .refused hp hc
    · rename_i hc
      obtain hc | ⟨n, hc⟩ : s.count = 1 ∨ ∃ n, s.count = n + 2 := by
        rcases hn : s.count with _ | _ | n
        · exact absurd hn hc
        · exact .inl rfl
        · exact .inr ⟨n, rfl⟩
      · rw [hc] at h
        cases h
        exact .last hp hc
      · rw [hc] at h
        cases h
        exact .counted n hp hc
  | barrierUnlock =>
    simp only [hp] at h
    cases h
    exact .unlocked hp
  | wait k timeout =>
    simp only [hp] at h
    split at h
    · rename_i ho
      have hok := unlock_ok ho
      split at h
      · rename_i m hm
        cases h
        have hm' : m = (s.mutex.unlock t).2 := by rw [hm]
        rw [hm']
        exact .waits k timeout hp ho
      · rename_i e m hne hm
        rw [hm] at hok
        cases (show e = .ok from hok)
        exact (hne rfl).elim
    · rename_i ho
      cases h
      exact .notOwner k timeout hp ho
  | take k timeout =>
    simp only [hp] at h
    split at h
    · rename_i hv
      cases h
      exact .sem (.taken k timeout hp hv)
    · rename_i hv
      have hv := Nat.eq_zero_of_not_pos hv
      split at h
      · rename_i h0
        subst h0
        cases h
        exact .sem (.gaveUp k hp hv)
      · rename_i h0
        cases h
        exact .sem (.suspended k timeout hp hv h0)
  | relock k r =>
    simp only [hp] at h
    split at h
    · cases h
    · rename_i e m hl
      cases h
      exact .relocked k r m hp ⟨e, hl⟩
  | broadcast k =>
    simp only [hp] at h
    cases h
    exact .sem (.locked k hp)
  | trytake k =>
    simp only [hp] at h
    split at h
    · rename_i hv
      cases h
      exact .sem (.tried k hp hv)
    · rename_i hv
      cases h
      exact .sem (.failed k hp (Nat.eq_zero_of_not_pos hv))
  | release k taken =>
    cases taken with
    | true =>
      simp only [hp] at h
      cases h
      exact .sem (.left k hp)
    | false =>
      simp only [hp] at h
      cases h
      exact .sem (.again k hp)

/-- A step of `t` outside the semaphore. -/
structure Quiet (s : State T) (t : T) (s' : State T) (p : Pc) : Prop where
  entered : (s.pc t).entered = false
  broadcasting : (s.pc t).broadcasting = false
  suspended : p.isSuspended = false
  inLoop : p.inLoop = false
  sem : s'.sem = s.sem
  critical : s'.critical = s.critical
  pc : s'.pc = Function.update s.pc t p

theorem quiet_setPc {q : Pc} (hp : s.pc t = q) (hq : q.entered = false ∧ q.broadcasting = false) {p : Pc}
    (h : p.isSuspended = false ∧ p.inLoop = false) (mutex : Mutex T) (count : ℕ) :
    Quiet s t ({ s with mutex := mutex, count := count }.setPc t p) p :=
  ⟨hp ▸ hq.1, hp ▸ hq.2, h.1, h.2, rfl, rfl, rfl⟩

theorem next_quiet (k : Caller) : k.next.isSuspended = false ∧ k.next.inLoop = false := by
  cases k <;> exact ⟨rfl, rfl⟩

theorem contCase_quiet (h : ContCase s t s') : (∃ p, Quiet s t s' p) ∨ SemCase s t s' := by
  cases h with
  | locked m p hp _ hpc =>
    have hq : p.isSuspended = false ∧ p.inLoop = false := by
      rcases hpc with rfl | rfl <;> exact ⟨rfl, rfl⟩
    exact .inl ⟨p, quiet_setPc hp ⟨rfl, rfl⟩ hq m s.count⟩
  | refused hp _ => exact .inl ⟨_, quiet_setPc hp ⟨rfl, rfl⟩ ⟨rfl, rfl⟩ s.mutex s.count⟩
  | last hp _ => exact .inl ⟨_, quiet_setPc hp ⟨rfl, rfl⟩ ⟨rfl, rfl⟩ s.mutex 0⟩
  | counted n hp _ => exact .inl ⟨_, quiet_setPc hp ⟨rfl, rfl⟩ ⟨rfl, rfl⟩ s.mutex (n + 1)⟩
  | unlocked hp => exact .inl ⟨_, quiet_setPc hp ⟨rfl, rfl⟩ ⟨rfl, rfl⟩ _ s.count⟩
  | waits k timeout hp _ => exact .inl ⟨_, quiet_setPc hp ⟨rfl, rfl⟩ ⟨rfl, rfl⟩ _ s.count⟩
  | notOwner k timeout hp _ => exact .inl ⟨_, quiet_setPc hp ⟨rfl, rfl⟩ (next_quiet k) s.mutex s.count⟩
  | relocked k r m hp _ => exact .inl ⟨_, quiet_setPc hp ⟨rfl, rfl⟩ (next_quiet k) m s.count⟩
  | sem h => exact .inr h

/-- What a step does to the semaphore and to the waits. -/
inductive StepCase (s : State T) (a : Act T) (s' : State T) : Prop
  | quiet (t : T) (p : Pc) : Quiet s t s' p → (∀ u, a ≠ .signal u) → (∀ u, a = .cont u → u = t) → StepCase s a s'
  | signal (t : T) : a = .signal t → s.critical = none → s' = s.semRelease → StepCase s a s'
  | timeout (t : T) (k : Caller) (timeout : ℤ) : a = .timeout t → s.pc t = .suspended k timeout →
      s' = { s with sem.waiting := s.sem.waiting.erase t }.setPc t (.relock k .ETIMEDOUT) → StepCase s a s'
  | cont (t : T) : a = .cont t → s.critical = none ∨ s.critical = some t → SemCase s t s' → StepCase s a s'

/-- A call of `t` from outside the others. -/
theorem quiet_call (hp : s.pc t = .idle) {p : Pc} (h : p.isSuspended = false ∧ p.inLoop = false) (mutex : Mutex T) :
    Quiet s t ({ s with mutex := mutex }.setPc t p) p :=
  quiet_setPc hp ⟨rfl, rfl⟩ h mutex s.count

theorem setPc_self (mutex : Mutex T) (hp : s.pc t = .idle) :
    { s with mutex := mutex }.setPc t .idle = { s with mutex := mutex } := by
  rw [State.setPc, ← hp, Function.update_eq_self]

theorem step_cases (h : s.step a = some s') : StepCase s a s' := by
  unfold State.step at h
  split at h
  · rename_i hen
    cases a with
    | lock t =>
      obtain ⟨r, -, rfl⟩ := Option.map_eq_some_iff.1 h
      rw [← setPc_self r.2 hen.2]
      exact .quiet t .idle (quiet_call hen.2 ⟨rfl, rfl⟩ r.2) nofun nofun
    | unlock t =>
      cases h
      rw [← setPc_self _ hen.2]
      exact .quiet t .idle (quiet_call hen.2 ⟨rfl, rfl⟩ _) nofun nofun
    | wait t timeout =>
      cases h
      exact .quiet t _ (quiet_call hen.2 ⟨rfl, rfl⟩ s.mutex) nofun nofun
    | signal t =>
      cases h
      exact .signal t rfl hen.1 rfl
    | broadcast t =>
      cases h
      exact .quiet t _ (quiet_call hen.2 ⟨rfl, rfl⟩ s.mutex) nofun nofun
    | barrier t =>
      cases h
      exact .quiet t _ (quiet_call hen.2 ⟨rfl, rfl⟩ s.mutex) nofun nofun
    | cont t =>
      rcases contCase_quiet (cont_cases h) with ⟨p, hq⟩ | hs
      · exact .quiet t p hq nofun fun u hu => (Act.cont.inj hu).symm
      · exact .cont t rfl hen hs
    | timeout t =>
      simp only [State.call, State.timeout] at h
      split at h
      · rename_i k timeout hp
        split at h
        · cases h
          exact .timeout t k timeout rfl hp rfl
        · cases h
      · cases h
  · cases h

/-! ## What gets stuck -/

theorem suspended_update {f : T → Pc} {p : Pc} (hp : p.isSuspended = false)
    (h : (Function.update f t p u).isSuspended = true) : (f u).isSuspended = true := by
  by_cases hu : u = t
  · rw [hu, Function.update_self, hp] at h
    cases h
  · rwa [Function.update_of_ne hu] at h

theorem resume_ok (p : Pc) : (p.resume .ok).isSuspended = false := by
  cases p <;> rfl

@[simp]
theorem setPc_pc (s : State T) (t : T) (p : Pc) : (s.setPc t p).pc = Function.update s.pc t p := rfl

omit [DecidableEq T] in
theorem sem_release_nil {m : Sem T} (h : m.waiting = []) : m.release = ⟨(m.value + 1) % 2 ^ 16, []⟩ := by
  unfold Sem.release
  rw [h]

omit [DecidableEq T] in
theorem sem_release_cons {m : Sem T} {w : List T} (h : m.waiting = u :: w) : m.release = ⟨m.value, w⟩ := by
  unfold Sem.release
  rw [h]

theorem semRelease_nil (h : s.sem.waiting = []) :
    s.semRelease = { s with sem := ⟨(s.sem.value + 1) % 2 ^ 16, []⟩ } := by
  unfold State.semRelease
  rw [sem_release_nil h, h]

theorem semRelease_cons {w : List T} (h : s.sem.waiting = u :: w) :
    s.semRelease =
      { s with sem := ⟨s.sem.value, w⟩, pc := Function.update s.pc u ((s.pc u).resume .ok) } := by
  unfold State.semRelease
  rw [sem_release_cons h, h]

theorem suspended_semRelease (h : (s.semRelease.pc u).isSuspended = true) : (s.pc u).isSuspended = true := by
  cases hw : s.sem.waiting with
  | nil =>
    rw [semRelease_nil hw] at h
    exact h
  | cons v w =>
    rw [semRelease_cons hw] at h
    exact suspended_update (resume_ok _) h

/-- A thread that a step leaves suspended was so before, or found no token. -/
theorem suspended_step (h : s.step a = some s') (hu : (s'.pc u).isSuspended = true) :
    (s.pc u).isSuspended = true ∨
      a = .cont u ∧ ∃ k timeout, s.pc u = .take k timeout ∧ s.sem.value = 0 ∧ timeout ≠ 0 := by
  cases step_cases h with
  | quiet t p hq _ _ =>
    rw [hq.pc] at hu
    exact .inl (suspended_update hq.suspended hu)
  | signal t _ _ hs =>
    rw [hs] at hu
    exact .inl (suspended_semRelease hu)
  | timeout t k timeout _ _ hs =>
    rw [hs] at hu
    exact .inl (suspended_update rfl hu)
  | cont t ha _ hs =>
    cases hs with
    | suspended k timeout hp hv h0 =>
      by_cases hut : u = t
      · subst hut
        exact .inr ⟨ha, k, timeout, hp, hv, h0⟩
      · left
        rwa [setPc_pc, Function.update_of_ne hut] at hu
    | taken k timeout hp hv => exact .inl (suspended_update rfl hu)
    | gaveUp k hp hv => exact .inl (suspended_update rfl hu)
    | locked k hp => exact .inl (suspended_update rfl hu)
    | tried k hp hv => exact .inl (suspended_update rfl hu)
    | failed k hp hv => exact .inl (suspended_update rfl hu)
    | left k hp => exact .inl (suspended_semRelease (suspended_update (next_quiet k).1 hu))
    | again k hp => exact .inl (suspended_semRelease (suspended_update rfl hu))

theorem entered_of_suspended {p : Pc} (h : p.isSuspended = true) : p.entered = true := by
  cases p <;> first | rfl | cases h

/-- **A wait that gets stuck found no token.** -/
theorem stuck_step (h : s.step a = some s') {S : T → Option ℕ} (hs : Stuck s' (log s a s' g) S u) :
    Stuck s g S u ∨ S u = some (g.ended u) ∧
      a = .cont u ∧ ∃ k timeout, s.pc u = .take k timeout ∧ s.sem.value = 0 ∧ timeout ≠ 0 := by
  obtain ⟨hu, hS⟩ := hs
  have hended : (log s a s' g).ended u = g.ended u := by
    show (if _ then _ else _) = _
    rw [entered_of_suspended hu]
    simp
  rw [hended] at hS
  rcases suspended_step h hu with hold | hnew
  · exact .inl ⟨hold, hS⟩
  · exact .inr ⟨hS, hnew⟩

/-! ## The queue of a semaphore -/

/-- The suspended threads are those in the list, each once, and there is a token only if there are none. -/
structure Queue (m : Sem T) (b : T → Bool) : Prop where
  nodup : m.waiting.Nodup
  mem : ∀ u, u ∈ m.waiting ↔ b u = true
  empty : 0 < m.value → m.waiting = []

section Queue

variable {m : Sem T} {b b' : T → Bool}

omit [DecidableEq T] in
theorem Queue.congr (h : Queue m b) (hb : ∀ u, b' u = b u) : Queue m b' :=
  ⟨h.nodup, fun u => by rw [hb, h.mem], h.empty⟩

omit [DecidableEq T] in
theorem Queue.setValue (h : Queue m b) {value : ℕ} (hv : 0 < value → m.waiting = []) : Queue { m with value } b :=
  ⟨h.nodup, h.mem, hv⟩

theorem Queue.push (h : Queue m b) (hv : m.value = 0) (ht : b t = false) (hb : ∀ u, u ≠ t → b' u = b u)
    (hbt : b' t = true) : Queue { m with waiting := m.waiting ++ [t] } b' := by
  have hmem : t ∉ m.waiting := by
    rw [h.mem, ht]
    exact Bool.false_ne_true
  refine ⟨List.nodup_append.2 ⟨h.nodup, List.nodup_singleton t, ?_⟩, ?_, ?_⟩
  · rintro u hu v hv rfl
    exact hmem (List.mem_singleton.1 hv ▸ hu)
  · intro u
    rw [List.mem_append, List.mem_singleton]
    by_cases hu : u = t
    · rw [hu]
      exact iff_of_true (.inr rfl) hbt
    · rw [hb u hu, h.mem]
      exact or_iff_left hu
  · intro hpos
    rw [hv] at hpos
    cases hpos

theorem Queue.erase (h : Queue m b) (hb : ∀ u, u ≠ t → b' u = b u) (hbt : b' t = false) :
    Queue { m with waiting := m.waiting.erase t } b' := by
  refine ⟨h.nodup.erase t, ?_, ?_⟩
  · intro u
    rw [h.nodup.mem_erase_iff]
    by_cases hu : u = t
    · rw [hu, hbt]
      exact iff_of_false (fun h => h.1 rfl) Bool.false_ne_true
    · rw [hb u hu, h.mem]
      exact and_iff_right hu
  · intro hpos
    rw [show m.waiting = [] from h.empty hpos]
    rfl

omit [DecidableEq T] in
/-- A release that finds nobody stores a token. -/
theorem Queue.release_nil (h : Queue m b) (hw : m.waiting = []) : Queue m.release b := by
  rw [sem_release_nil hw]
  refine ⟨List.nodup_nil, ?_, fun _ => rfl⟩
  intro u
  rw [← h.mem, hw]

/-- A release wakes the first thread. -/
theorem Queue.release_cons (h : Queue m b) {w : List T} (hw : m.waiting = t :: w) (hb : ∀ u, u ≠ t → b' u = b u)
    (hbt : b' t = false) : Queue m.release b' := by
  have herase := h.erase hb hbt
  rw [hw, List.erase_cons_head] at herase
  rw [sem_release_cons hw]
  exact herase

end Queue

variable {p : Pc}

/-- The threads that wait on the condition. -/
abbrev State.sleepers (s : State T) (u : T) : Bool := (s.pc u).isSuspended

theorem sleepers_update {f : T → Pc} (ht : (f t).isSuspended = false) (hp : p.isSuspended = false) (u : T) :
    (Function.update f t p u).isSuspended = (f u).isSuspended := by
  by_cases hu : u = t
  · rw [hu, Function.update_self, ht, hp]
  · rw [Function.update_of_ne hu]

theorem sleepers_semRelease (h : Queue s.sem s.sleepers) : Queue s.semRelease.sem s.semRelease.sleepers := by
  cases hw : s.sem.waiting with
  | nil =>
    refine (h.release_nil hw).congr ?_
    intro u
    rw [State.sleepers, semRelease_nil hw]
  | cons v w =>
    refine h.release_cons hw ?_ ?_
    · intro u hu
      rw [State.sleepers, semRelease_cons hw]
      exact congrArg Pc.isSuspended (Function.update_of_ne hu ..)
    · rw [State.sleepers, semRelease_cons hw]
      exact (congrArg Pc.isSuspended (Function.update_self ..)).trans (resume_ok _)

/-- The thread in the loop of a broadcast has the scheduler locked, and once it has taken a token nobody
waits. -/
structure Queued (s : State T) : Prop where
  queue : Queue s.sem s.sleepers
  critical : ∀ c, s.critical = some c ↔ (s.pc c).inLoop = true
  last : ∀ c k, s.pc c = .release k true → s.sem.waiting = []

theorem not_suspended_of_entered {p : Pc} (h : p.entered = false) : p.isSuspended = false := by
  cases p <;> first | rfl | cases h

theorem inLoop_of_broadcasting {p : Pc} (h : p.broadcasting = false) : p.inLoop = false := by
  cases p <;> first | rfl | cases h

/-- A thread moves outside the loops. -/
theorem Queued.move (h : Queued s) (hc : s'.critical = s.critical) (hpc : s'.pc = Function.update s.pc t p)
    (ht : (s.pc t).inLoop = false) (hp : p.inLoop = false) (hq : Queue s'.sem s'.sleepers)
    (hw : s.sem.waiting = [] → s'.sem.waiting = []) : Queued s' := by
  refine ⟨hq, ?_, ?_⟩
  · intro c
    rw [hc, hpc, h.critical]
    by_cases hct : c = t
    · rw [hct, Function.update_self, ht, hp]
    · rw [Function.update_of_ne hct]
  · intro c k hck
    rw [hpc] at hck
    by_cases hct : c = t
    · rw [hct, Function.update_self] at hck
      rw [hck] at hp
      cases hp
    · rw [Function.update_of_ne hct] at hck
      exact hw (h.last c k hck)

/-- A release changes only what a suspended thread does. -/
theorem semRelease_pc (hq : Queue s.sem s.sleepers) (hu : (s.pc u).isSuspended = false) : s.semRelease.pc u = s.pc u := by
  cases hw : s.sem.waiting with
  | nil => rw [semRelease_nil hw]
  | cons v w =>
    rw [semRelease_cons hw]
    have hv : (s.pc v).isSuspended = true := (hq.mem v).1 (hw ▸ List.mem_cons_self)
    apply Function.update_of_ne
    rintro rfl
    rw [hu] at hv
    cases hv

theorem resume_inLoop {r : Errno} (p : Pc) : (p.resume r).inLoop = p.inLoop := by
  cases p <;> rfl

theorem semRelease_inLoop (u : T) : (s.semRelease.pc u).inLoop = (s.pc u).inLoop := by
  cases hw : s.sem.waiting with
  | nil => rw [semRelease_nil hw]
  | cons v w =>
    rw [semRelease_cons hw]
    by_cases hu : u = v
    · rw [hu]
      exact (congrArg Pc.inLoop (Function.update_self ..)).trans (resume_inLoop _)
    · exact congrArg Pc.inLoop (Function.update_of_ne hu ..)

theorem semRelease_waiting (h : s.sem.waiting = []) : s.semRelease.sem.waiting = [] := by
  rw [semRelease_nil h]

theorem not_suspended_of_inLoop {p : Pc} (h : p.inLoop = true) : p.isSuspended = false := by
  cases p <;> first | rfl | cases h

theorem Queued.release (h : Queued s) : Queued s.semRelease := by
  refine ⟨sleepers_semRelease h.queue, ?_, ?_⟩
  · intro c
    rw [semRelease_inLoop]
    exact h.critical c
  · intro c k hc
    have hloop : (s.pc c).inLoop = true := by
      rw [← semRelease_inLoop, hc]
      rfl
    rw [semRelease_pc h.queue (not_suspended_of_inLoop hloop)] at hc
    exact semRelease_waiting (h.last c k hc)

/-- The thread in a loop goes on in it. -/
theorem Queued.loop (hc : s'.critical = some t) (hpc : s'.pc = Function.update s.pc t p)
    (ht : ∀ c, c ≠ t → (s.pc c).inLoop = false) (hp : p.inLoop = true) (hq : Queue s'.sem s'.sleepers)
    (hlast : ∀ k, p = .release k true → s'.sem.waiting = []) : Queued s' := by
  refine ⟨hq, ?_, ?_⟩
  · intro c
    rw [hc, hpc, Option.some_inj]
    by_cases hct : c = t
    · rw [hct, Function.update_self]
      exact iff_of_true rfl hp
    · rw [Function.update_of_ne hct, ht c hct]
      exact iff_of_false (Ne.symm hct) Bool.false_ne_true
  · intro c k hck
    rw [hpc] at hck
    by_cases hct : c = t
    · rw [hct, Function.update_self] at hck
      exact hlast k hck
    · rw [Function.update_of_ne hct] at hck
      have hloop := ht c hct
      rw [hck] at hloop
      cases hloop

omit [DecidableEq T] in
/-- Only one thread is in a loop. -/
theorem Queued.alone (h : Queued s) (ht : (s.pc t).inLoop = true) (u : T) (hu : u ≠ t) :
    (s.pc u).inLoop = false := by
  apply Bool.eq_false_iff.2
  intro hloop
  have hcu := (h.critical u).2 hloop
  rw [(h.critical t).2 ht] at hcu
  exact hu (Option.some.inj hcu).symm

omit [DecidableEq T] in
/-- A thread outside the loops that goes on finds the scheduler unlocked. -/
theorem Queued.unlocked (h : Queued s) (hen : s.critical = none ∨ s.critical = some t)
    (ht : (s.pc t).inLoop = false) (u : T) : (s.pc u).inLoop = false := by
  apply Bool.eq_false_iff.2
  intro hloop
  rcases hen with hen | hen
  · rw [(h.critical u).2 hloop] at hen
    cases hen
  · rw [(h.critical t).1 hen] at ht
    cases ht

theorem queued_sem (h : Queued s) (hen : s.critical = none ∨ s.critical = some t) (hc : SemCase s t s') :
    Queued s' := by
  cases hc with
  | taken k timeout hp hv =>
    refine h.move rfl rfl (hp ▸ rfl) rfl ?_ id
    exact (h.queue.setValue fun _ => h.queue.empty hv).congr (sleepers_update (hp ▸ rfl) rfl)
  | gaveUp k hp hv => exact h.move rfl rfl (hp ▸ rfl) rfl (h.queue.congr (sleepers_update (hp ▸ rfl) rfl)) id
  | suspended k timeout hp hv h0 =>
    have hself : (Function.update s.pc t (.suspended k timeout) t).isSuspended = true := by
      rw [Function.update_self]
      rfl
    refine ⟨h.queue.push hv (congrArg Pc.isSuspended hp)
      (fun u hu => congrArg Pc.isSuspended (Function.update_of_ne hu ..)) hself, ?_, ?_⟩
    · intro c
      rw [setPc_pc]
      by_cases hct : c = t
      · rw [hct, Function.update_self]
        refine iff_of_false ?_ Bool.false_ne_true
        intro hcrit
        have hloop := (h.critical t).1 hcrit
        rw [hp] at hloop
        cases hloop
      · rw [Function.update_of_ne hct]
        exact h.critical c
    · intro c k' hck
      rw [setPc_pc] at hck
      by_cases hct : c = t
      · rw [hct, Function.update_self] at hck
        cases hck
      · rw [Function.update_of_ne hct] at hck
        have hloop := h.unlocked hen (hp ▸ rfl) c
        rw [hck] at hloop
        cases hloop
  | locked k hp =>
    refine .loop rfl rfl (fun c _ => h.unlocked hen (hp ▸ rfl) c) rfl (h.queue.congr (sleepers_update (hp ▸ rfl) rfl)) nofun
  | tried k hp hv =>
    have hloop : (s.pc t).inLoop = true := hp ▸ rfl
    refine .loop ((h.critical t).2 hloop) rfl (h.alone hloop) rfl ?_ fun _ _ => h.queue.empty hv
    exact (h.queue.setValue fun _ => h.queue.empty hv).congr (sleepers_update (hp ▸ rfl) rfl)
  | failed k hp hv =>
    have hloop : (s.pc t).inLoop = true := hp ▸ rfl
    exact .loop ((h.critical t).2 hloop) rfl (h.alone hloop) rfl (h.queue.congr (sleepers_update (hp ▸ rfl) rfl)) nofun
  | left k hp =>
    have hloop : (s.pc t).inLoop = true := hp ▸ rfl
    have hr := h.release
    have hrt : (s.semRelease.pc t).inLoop = true := (semRelease_inLoop t).trans hloop
    have hq := hr.queue.congr (sleepers_update (not_suspended_of_inLoop hrt) (next_quiet k).1)
    have hnone : ∀ c, (Function.update s.semRelease.pc t k.next c).inLoop = false := by
      intro c
      by_cases hct : c = t
      · rw [hct, Function.update_self]
        exact (next_quiet k).2
      · rw [Function.update_of_ne hct]
        exact hr.alone hrt c hct
    refine ⟨hq, ?_, ?_⟩
    · intro c
      rw [setPc_pc, hnone c]
      exact iff_of_false nofun Bool.false_ne_true
    · intro c k' hck
      have hloop := hnone c
      rw [show Function.update s.semRelease.pc t k.next c = .release k' true from hck] at hloop
      cases hloop
  | again k hp =>
    have hloop : (s.pc t).inLoop = true := hp ▸ rfl
    have hr := h.release
    have hrt : (s.semRelease.pc t).inLoop = true := (semRelease_inLoop t).trans hloop
    exact .loop ((hr.critical t).2 hrt) rfl (hr.alone hrt) rfl
      (hr.queue.congr (sleepers_update (not_suspended_of_inLoop hrt) rfl)) nofun

theorem queued_step (h : Queued s) (hs : s.step a = some s') : Queued s' := by
  cases step_cases hs with
  | quiet t p hq _ _ =>
    have hqueue : Queue s'.sem s'.sleepers := by
      unfold State.sleepers
      rw [hq.sem, hq.pc]
      exact h.queue.congr (sleepers_update (not_suspended_of_entered hq.entered) hq.suspended)
    refine h.move hq.critical hq.pc (inLoop_of_broadcasting hq.broadcasting) hq.inLoop hqueue ?_
    rw [hq.sem]
    exact id
  | signal t _ _ hs' =>
    rw [hs']
    exact h.release
  | timeout t k timeout _ hp hs' =>
    rw [hs']
    have hself : (Function.update s.pc t (.relock k .ETIMEDOUT) t).isSuspended = false := by
      rw [Function.update_self]
      rfl
    refine h.move rfl rfl (hp ▸ rfl) rfl
      (h.queue.erase (fun u hu => congrArg Pc.isSuspended (Function.update_of_ne hu ..)) hself) ?_
    intro hw
    show s.sem.waiting.erase t = []
    rw [hw]
    rfl
  | cont t _ hen hc => exact queued_sem h hen hc

/-! ## Signals and broadcasts -/

omit [DecidableEq T] in
theorem log_signals (h : ∀ u, a ≠ .signal u) : (log s a s' g).signals = g.signals := by
  unfold log
  cases a with
  | signal u => exact absurd rfl (h u)
  | _ => rfl

omit [DecidableEq T] in
theorem log_broadcasts (h : ∀ u k, a = .cont u → s.pc u ≠ .broadcast k) :
    (log s a s' g).broadcasts = g.broadcasts := by
  unfold log
  cases a with
  | cont u =>
    dsimp only
    cases hk : s.pc u with
    | broadcast k => exact absurd hk (h u k rfl)
    | _ => rfl
  | _ => rfl

/-- A step keeps the broadcasts that are over: no thread that one of them found goes to sleep. -/
theorem broadcast_kept (h : Wakes s g) (hok : KeepsToken (s, g) a) (hs : s.step a = some s')
    (hc : s.critical = none) {B : T → Option ℕ} (hB : B ∈ g.broadcasts) : ¬Stuck s' (log s a s' g) B u := by
  intro hst
  rcases stuck_step hs hst with hst | ⟨hBu, ha, k, timeout, hp, hv, h0⟩
  · exact h.broadcast hc B hB u hst
  · subst ha
    have hwill : (s.pc u).willing = true := by
      rw [hp]
      exact decide_eq_true h0
    exact (hok hwill hv).1 B hB hBu

/-- A step keeps the signals: the last thread that one of them found does not go to sleep. -/
theorem signal_kept (h : Wakes s g) (hok : KeepsToken (s, g) a) (hs : s.step a = some s')
    {S : T → Option ℕ} (hS : S ∈ g.signals) (hne : ∃ u, S u ≠ none) :
    ∃ u, S u ≠ none ∧ ¬Stuck s' (log s a s' g) S u := by
  obtain ⟨u, hu, hnst⟩ := h.signal S hS hne
  by_cases hst : Stuck s' (log s a s' g) S u
  · rcases stuck_step hs hst with hst | ⟨hSu, ha, k, timeout, hp, hv, h0⟩
    · exact absurd hst hnst
    · subst ha
      have hwill : (s.pc u).willing = true := by
        rw [hp]
        exact decide_eq_true h0
      obtain ⟨w, hwu, hSw, hnst⟩ := (hok hwill hv).2 S hS hSu
      refine ⟨w, hSw, ?_⟩
      intro hst
      rcases stuck_step hs hst with hst | ⟨-, ha, -⟩
      · exact hnst hst
      · exact hwu (Act.cont.inj ha).symm
  · exact ⟨u, hu, hst⟩

/-- A signal wakes one of the threads that it finds. -/
theorem signal_wakes (h : Queued s) (hne : ∃ u, waits s g u ≠ none) :
    ∃ u, waits s g u ≠ none ∧ (s.semRelease.pc u).isSuspended = false := by
  cases hw : s.sem.waiting with
  | nil =>
    obtain ⟨u, hu⟩ := hne
    refine ⟨u, hu, ?_⟩
    rw [semRelease_nil hw]
    apply Bool.eq_false_iff.2
    intro hsusp
    have hmem := (h.queue.mem u).2 hsusp
    rw [hw] at hmem
    cases hmem
  | cons u w =>
    have hu : (s.pc u).isSuspended = true := (h.queue.mem u).1 (hw ▸ List.mem_cons_self)
    refine ⟨u, ?_, ?_⟩
    · rw [waits, if_pos (entered_of_suspended hu)]
      exact Option.some_ne_none _
    · rw [semRelease_cons hw]
      exact (congrArg Pc.isSuspended (Function.update_self ..)).trans (resume_ok _)

omit [DecidableEq T] in
/-- When a broadcast leaves its loop, nobody is suspended. -/
theorem left_wakes (h : Queued s) {k : Caller} (hp : s.pc t = .release k true) (u : T) :
    (s.pc u).isSuspended = false := by
  apply Bool.eq_false_iff.2
  intro hsusp
  have hmem := (h.queue.mem u).2 hsusp
  rw [h.last t k hp] at hmem
  cases hmem

/-- Where the scheduler is not locked no broadcast has begun, or one has just ended. -/
theorem unlocked_step (hq : Queued s) (hs : s.step a = some s') (hc : s'.critical = none) :
    s.critical = none ∧ (log s a s' g).broadcasts = g.broadcasts ∨ ∀ u, (s'.pc u).isSuspended = false := by
  cases step_cases hs with
  | quiet t p hm _ ha =>
    left
    refine ⟨hm.critical ▸ hc, log_broadcasts ?_⟩
    intro u k hu hp
    have hb := hm.broadcasting
    rw [← ha u hu, hp] at hb
    cases hb
  | signal t ha hcrit _ => exact .inl ⟨hcrit, log_broadcasts (ha ▸ nofun)⟩
  | timeout t k timeout ha _ hs' =>
    subst hs'
    exact .inl ⟨hc, log_broadcasts (ha ▸ nofun)⟩
  | cont t ha _ hcase =>
    have hsame : ∀ p : Pc, s.pc t = p → (∀ k, p ≠ .broadcast k) →
        (log s a s' g).broadcasts = g.broadcasts := by
      intro p hp hne
      refine log_broadcasts ?_
      rintro u k hu
      rw [ha] at hu
      rw [← Act.cont.inj hu, hp]
      exact hne k
    have hloop : (s.pc t).inLoop = true → s.critical ≠ none := by
      intro hl hnone
      rw [(hq.critical t).2 hl] at hnone
      cases hnone
    cases hcase with
    | taken k timeout hp _ => exact .inl ⟨hc, hsame _ hp nofun⟩
    | gaveUp k hp _ => exact .inl ⟨hc, hsame _ hp nofun⟩
    | suspended k timeout hp _ _ => exact .inl ⟨hc, hsame _ hp nofun⟩
    | locked k _ => cases hc
    | tried k hp _ => exact absurd hc (hloop (hp ▸ rfl))
    | failed k hp _ => exact absurd hc (hloop (hp ▸ rfl))
    | again k hp => exact absurd hc (hloop (hp ▸ rfl))
    | left k hp =>
      right
      intro u
      apply Bool.eq_false_iff.2
      intro hu
      have hold := suspended_semRelease (suspended_update (next_quiet k).1 hu)
      rw [left_wakes hq hp u] at hold
      cases hold

/-- **A step keeps what signals and broadcasts did**, if no thread that was woken finds the semaphore
empty. -/
theorem wakes_step (h : Wakes s g) (hq : Queued s) (hok : KeepsToken (s, g) a) (hs : s.step a = some s') :
    Wakes s' (log s a s' g) := by
  constructor
  · intro hc B hB u
    rcases unlocked_step hq hs hc with ⟨hcrit, hsame⟩ | hnone
    · rw [hsame] at hB
      exact broadcast_kept h hok hs hcrit hB
    · intro hst
      have hsusp := hst.1
      rw [hnone u] at hsusp
      cases hsusp
  · intro S hS hne
    by_cases hsig : ∃ t, a = .signal t
    · obtain ⟨t, rfl⟩ := hsig
      rcases List.mem_cons.1 hS with rfl | hS
      · obtain ⟨u, hu, hns⟩ := signal_wakes hq hne
        refine ⟨u, hu, ?_⟩
        intro hst
        have hs' : s' = s.semRelease := by
          unfold State.step at hs
          split at hs
          · exact (Option.some.inj hs).symm
          · cases hs
        have hsusp := hst.1
        rw [hs', hns] at hsusp
        cases hsusp
      · exact signal_kept h hok hs hS hne
    · rw [log_signals fun u hu => hsig ⟨u, hu⟩] at hS
      exact signal_kept h hok hs hS hne

/-! ## Barriers -/

/-- The thread has the mutex of the barrier. -/
def Pc.holding : Pc → Bool
  | .barrierCount | .barrierUnlock | .wait _ _ | .broadcast _ | .trytake _ | .release _ _ => true
  | _ => false

/-- A barrier: the threads that have the mutex own it, a thread that will wait has been counted but not
the last, a broadcast follows the last, and then all waits are those that it found. -/
structure Barrier (s : State T) (g : Log T) : Prop where
  owner : ∀ t, (s.pc t).holding = true → s.mutex.owner = some t
  waits : ∀ t k timeout, s.pc t = .wait k timeout → s.count ≠ 0
  last : ∀ t, (s.pc t).broadcasting = true → s.count = 0
  found : s.count = 0 → (∀ t k, s.pc t ≠ .broadcast k) →
    ∀ u, (s.pc u).entered = true → ∃ B ∈ g.broadcasts, B u = some (g.ended u)

theorem lock_owner {m m' : Mutex T} {e : Errno} (h : m.lock t = some (e, m')) : m'.owner = some t := by
  unfold Mutex.lock at h
  split at h
  · rename_i ho
    split at h
    · cases h
      exact ho
    · cases h
      exact ho
  · split at h
    · cases h
      rfl
    · cases h

/-- An unlock of `t` leaves the mutex to any other owner. -/
theorem unlock_owner {m : Mutex T} (h : m.owner = some u) (hu : u ≠ t) : (m.unlock t).2.owner = some u := by
  have ht : m.owner ≠ some t := by
    rw [h]
    exact fun he => hu (Option.some.inj he)
  unfold Mutex.unlock
  rw [if_neg ht]
  split
  · exact h
  · split
    · exact h
    · exact h
theorem lock_other {m : Mutex T} {r : Errno × Mutex T} (h : m.lock t = some r) (hu : m.owner = some u) : u = t := by
  unfold Mutex.lock at h
  split at h
  · rename_i ho
    rw [hu] at ho
    exact Option.some.inj ho
  · rw [if_neg (by rw [hu]; exact Option.some_ne_none u)] at h
    cases h

/-- The threads but `t` stay where they are, or their waits end. -/
def Others (s s' : State T) (t : T) : Prop :=
  ∀ u, u ≠ t → s'.pc u = s.pc u ∨ (s.pc u).isSuspended = true ∧ ∃ k r, s'.pc u = .relock k r

theorem others_update {s₁ : State T} (h : Others s s₁ t) {p : Pc} (hpc : s'.pc = Function.update s₁.pc t p) :
    Others s s' t := by
  intro u hu
  rw [hpc, Function.update_of_ne hu]
  exact h u hu

omit [DecidableEq T] in
theorem others_refl (s : State T) (t : T) : Others s s t := fun _ _ => .inl rfl

theorem others_semRelease (hq : Queue s.sem s.sleepers) (t : T) : Others s s.semRelease t := by
  intro u _
  by_cases hu : (s.pc u).isSuspended = true
  · cases hw : s.sem.waiting with
    | nil =>
      rw [semRelease_nil hw]
      exact .inl rfl
    | cons v w =>
      rw [semRelease_cons hw]
      by_cases huv : u = v
      · right
        subst huv
        refine ⟨hu, ?_⟩
        show ∃ k r, Function.update s.pc u _ u = .relock k r
        rw [Function.update_self]
        cases hp : s.pc u with
        | suspended k timeout => exact ⟨k, .ok, rfl⟩
        | _ =>
          rw [hp] at hu
          cases hu
      · exact .inl (Function.update_of_ne huv ..)
  · exact .inl (semRelease_pc hq (eq_false_of_ne_true hu))

omit [DecidableEq T] in
theorem Others.of_holding (h : Others s s' t) (hu : u ≠ t) {P : Pc → Bool} (hP : ∀ k r, P (.relock k r) = false)
    (hp : P (s'.pc u) = true) : s'.pc u = s.pc u := by
  rcases h u hu with hpc | ⟨-, k, r, hpc⟩
  · exact hpc
  · rw [hpc, hP] at hp
    cases hp

omit [DecidableEq T] in
theorem log_ended (hu : (s'.pc u).entered = true) : (log s a s' g).ended u = g.ended u := by
  show (if _ then _ else _) = _
  rw [hu]
  simp

/-- A step of `t` that counts no thread and begins no broadcast. -/
theorem Barrier.move (h : Barrier s g) (ho : Others s s' t) (hpt : s'.pc t = p)
    (hmutex : ∀ u, u ≠ t → s.mutex.owner = some u → s'.mutex.owner = some u)
    (hown : p.holding = true → s'.mutex.owner = some t) (hcount : s'.count = s.count)
    (hw : ∀ k timeout, p ≠ .wait k timeout) (hb : p.broadcasting = true → s.count = 0)
    (hbt : ∀ k, s.pc t ≠ .broadcast k) (hent : p.entered = true → (s.pc t).entered = true ∨ s.count ≠ 0)
    (hlog : (log s a s' g).broadcasts = g.broadcasts) : Barrier s' (log s a s' g) := by
  refine ⟨?_, ?_, ?_, ?_⟩
  · intro u hu
    by_cases hut : u = t
    · subst hut
      exact hown (hpt ▸ hu)
    · rw [ho.of_holding hut (fun _ _ => rfl) hu] at hu
      exact hmutex u hut (h.owner u hu)
  · intro u k timeout hu
    rw [hcount]
    by_cases hut : u = t
    · subst hut
      exact absurd (hpt ▸ hu) (hw k timeout)
    · have hpc := ho.of_holding hut (P := Pc.holding) (fun _ _ => rfl) (hu ▸ rfl)
      exact h.waits u k timeout (hpc ▸ hu)
  · intro u hu
    rw [hcount]
    by_cases hut : u = t
    · subst hut
      exact hb (hpt ▸ hu)
    · rw [ho.of_holding hut (fun _ _ => rfl) hu] at hu
      exact h.last u hu
  · intro h0 hnb u hu
    rw [hcount] at h0
    have hnb' : ∀ w k, s.pc w ≠ .broadcast k := by
      intro w k hw
      by_cases hwt : w = t
      · exact hbt k (hwt ▸ hw)
      · rcases ho w hwt with hpc | ⟨hs, -⟩
        · exact hnb w k (hpc ▸ hw)
        · rw [hw] at hs
          cases hs
    have hold : (s.pc u).entered = true := by
      by_cases hut : u = t
      · subst hut
        exact (hent (hpt ▸ hu)).resolve_right fun hne => hne h0
      · rw [ho.of_holding hut (fun _ _ => rfl) hu] at hu
        exact hu
    obtain ⟨B, hB, hBu⟩ := h.found h0 hnb' u hold
    rw [hlog]
    refine ⟨B, hB, ?_⟩
    rw [log_ended hu]
    exact hBu

theorem next_parked (k : Caller) : k.next.broadcasting = false ∧ k.next.entered = false ∧
    ∀ k' timeout, k.next ≠ .wait k' timeout := by
  cases k <;> exact ⟨rfl, rfl, nofun⟩

/-- The last thread is counted: the broadcast follows. -/
theorem Barrier.count_last (h : Barrier s g) (hp : s.pc t = .barrierCount) (g' : Log T) :
    Barrier ({ s with count := 0 }.setPc t (.broadcast .barrier)) g' := by
  have ht : s.mutex.owner = some t := h.owner t (hp ▸ rfl)
  refine ⟨?_, ?_, fun _ _ => rfl, ?_⟩
  · intro u hu
    rw [setPc_pc] at hu
    by_cases hut : u = t
    · rw [hut]
      exact ht
    · rw [Function.update_of_ne hut] at hu
      exact h.owner u hu
  · intro u k timeout hu
    rw [setPc_pc] at hu
    by_cases hut : u = t
    · rw [hut, Function.update_self] at hu
      cases hu
    · -- the thread that waits would have the mutex too
      rw [Function.update_of_ne hut] at hu
      have hou := h.owner u (hu ▸ rfl)
      rw [ht] at hou
      exact absurd (Option.some.inj hou).symm hut
  · intro _ hnb
    exact absurd (Function.update_self ..) (hnb t .barrier)

/-- A thread is counted before the last, and will wait. -/
theorem Barrier.count_wait (h : Barrier s g) (hp : s.pc t = .barrierCount) {n : ℕ} (hn : s.count = n + 2)
    (g' : Log T) : Barrier ({ s with count := n + 1 }.setPc t (.wait .barrier (-1))) g' := by
  refine ⟨?_, fun _ _ _ _ => Nat.succ_ne_zero n, ?_, fun h0 => absurd h0 (Nat.succ_ne_zero n)⟩
  · intro u hu
    rw [setPc_pc] at hu
    by_cases hut : u = t
    · rw [hut]
      exact h.owner t (hp ▸ rfl)
    · rw [Function.update_of_ne hut] at hu
      exact h.owner u hu
  · intro u hu
    rw [setPc_pc] at hu
    by_cases hut : u = t
    · rw [hut, Function.update_self] at hu
      cases hu
    · rw [Function.update_of_ne hut] at hu
      have h0 := h.last u hu
      rw [hn] at h0
      cases h0

/-- The broadcast begins: it finds all waits. -/
theorem Barrier.begin (h : Barrier s g) {k : Caller} (hp : s.pc t = .broadcast k)
    (hs' : s' = { s with critical := some t }.setPc t (.trytake k)) : Barrier s' (log s (.cont t) s' g) := by
  subst hs'
  have hpc : ∀ u, u ≠ t → ({ s with critical := some t }.setPc t (.trytake k)).pc u = s.pc u :=
    fun u hu => Function.update_of_ne hu ..
  have hlog : Pthread.waits s g ∈ (log s (.cont t) ({ s with critical := some t }.setPc t (.trytake k)) g).broadcasts := by
    unfold log
    simp only [hp]
    exact List.mem_cons_self
  refine ⟨?_, ?_, ?_, ?_⟩
  · intro u hu
    by_cases hut : u = t
    · rw [hut]
      exact h.owner t (hp ▸ rfl)
    · rw [hpc u hut] at hu
      exact h.owner u hu
  · intro u k' timeout hu
    by_cases hut : u = t
    · rw [hut, setPc_pc, Function.update_self] at hu
      cases hu
    · rw [hpc u hut] at hu
      exact h.waits u k' timeout hu
  · intro _ _
    exact h.last t (hp ▸ rfl)
  · intro _ _ u hu
    refine ⟨_, hlog, ?_⟩
    rw [log_ended hu]
    by_cases hut : u = t
    · rw [hut, setPc_pc, Function.update_self] at hu
      cases hu
    · rw [hpc u hut] at hu
      exact if_pos hu

theorem barrier_cont (h : Barrier s g) (hq : Queued s) (hc : ContCase s t s') :
    Barrier s' (log s (.cont t) s' g) := by
  have hlog : (∀ k, s.pc t ≠ .broadcast k) → (log s (.cont t) s' g).broadcasts = g.broadcasts := by
    intro hne
    apply log_broadcasts
    intro u k hu
    exact Act.cont.inj hu ▸ hne k
  have hself : ∀ {p : Pc} {f : T → Pc}, Function.update f t p t = p := Function.update_self ..
  cases hc with
  | locked m p hp hl hpc =>
    obtain ⟨e, hl⟩ := hl
    have hother : ∀ u, u ≠ t → s.mutex.owner = some u → m.owner = some u :=
      fun u hu ho => absurd (lock_other hl ho) hu
    rcases hpc with rfl | rfl
    · exact h.move (others_update (others_refl s t) rfl) hself hother (fun _ => lock_owner hl) rfl nofun nofun
        (hp ▸ nofun) nofun (hlog (hp ▸ nofun))
    · exact h.move (others_update (others_refl s t) rfl) hself hother nofun rfl nofun nofun (hp ▸ nofun) nofun
        (hlog (hp ▸ nofun))
  | refused hp _ =>
    exact h.move (others_update (others_refl s t) rfl) hself (fun _ _ => id) (fun _ => h.owner t (hp ▸ rfl)) rfl
      nofun nofun (hp ▸ nofun) nofun (hlog (hp ▸ nofun))
  | last hp _ => exact h.count_last hp _
  | counted n hp hn => exact h.count_wait hp hn _
  | unlocked hp =>
    exact h.move (others_update (others_refl s t) rfl) hself (fun u hu ho => unlock_owner ho hu) nofun rfl
      nofun nofun (hp ▸ nofun) nofun (hlog (hp ▸ nofun))
  | waits k timeout hp _ =>
    exact h.move (others_update (others_refl s t) rfl) hself (fun u hu ho => unlock_owner ho hu) nofun rfl
      nofun nofun (hp ▸ nofun) (fun _ => .inr (h.waits t k timeout hp)) (hlog (hp ▸ nofun))
  | notOwner k timeout hp ho => exact absurd (h.owner t (hp ▸ rfl)) ho
  | relocked k r m hp hl =>
    obtain ⟨e, hl⟩ := hl
    obtain ⟨hb, hent, hw⟩ := next_parked k
    exact h.move (others_update (others_refl s t) rfl) hself (fun u hu ho => absurd (lock_other hl ho) hu)
      (fun _ => lock_owner hl) rfl hw (hb ▸ nofun) (hp ▸ nofun) (hent ▸ nofun) (hlog (hp ▸ nofun))
  | sem hc =>
    cases hc with
    | taken k timeout hp _ =>
      exact h.move (others_update (others_refl s t) rfl) hself (fun _ _ => id) nofun rfl nofun nofun (hp ▸ nofun)
        nofun (hlog (hp ▸ nofun))
    | gaveUp k hp _ =>
      exact h.move (others_update (others_refl s t) rfl) hself (fun _ _ => id) nofun rfl nofun nofun (hp ▸ nofun)
        nofun (hlog (hp ▸ nofun))
    | suspended k timeout hp _ _ =>
      exact h.move (others_update (others_refl s t) rfl) hself (fun _ _ => id) nofun rfl nofun nofun (hp ▸ nofun)
        (fun _ => .inl (hp ▸ rfl)) (hlog (hp ▸ nofun))
    | locked k hp => exact h.begin hp rfl
    | tried k hp _ =>
      exact h.move (others_update (others_refl s t) rfl) hself (fun _ _ => id) (fun _ => h.owner t (hp ▸ rfl)) rfl
        nofun (fun _ => h.last t (hp ▸ rfl)) (hp ▸ nofun) nofun (hlog (hp ▸ nofun))
    | failed k hp _ =>
      exact h.move (others_update (others_refl s t) rfl) hself (fun _ _ => id) (fun _ => h.owner t (hp ▸ rfl)) rfl
        nofun (fun _ => h.last t (hp ▸ rfl)) (hp ▸ nofun) nofun (hlog (hp ▸ nofun))
    | left k hp =>
      obtain ⟨hb, hent, hw⟩ := next_parked k
      exact h.move (others_update (others_semRelease hq.queue t) rfl) hself (fun _ _ => id)
        (fun _ => h.owner t (hp ▸ rfl)) rfl hw (hb ▸ nofun) (hp ▸ nofun) (hent ▸ nofun) (hlog (hp ▸ nofun))
    | again k hp =>
      exact h.move (others_update (others_semRelease hq.queue t) rfl) hself (fun _ _ => id)
        (fun _ => h.owner t (hp ▸ rfl)) rfl nofun (fun _ => h.last t (hp ▸ rfl)) (hp ▸ nofun) nofun
        (hlog (hp ▸ nofun))

theorem barrier_step (h : Barrier s g) (hq : Queued s) (ha : a.OfBarrier) (hs : s.step a = some s') :
    Barrier s' (log s a s' g) := by
  unfold State.step at hs
  split at hs
  · rename_i hen
    cases a with
    | barrier t =>
      cases hs
      exact h.move (others_update (others_refl s t) rfl) (Function.update_self ..) (fun _ _ => id) nofun rfl nofun
        nofun (hen.2 ▸ nofun) nofun (log_broadcasts nofun)
    | cont t => exact barrier_cont h hq (cont_cases hs)
    | timeout t =>
      simp only [State.call, State.timeout] at hs
      split at hs
      · rename_i k timeout hp
        split at hs
        · cases hs
          exact h.move (others_update (others_refl s t) rfl) (Function.update_self ..) (fun _ _ => id) nofun rfl
            nofun nofun (hp ▸ nofun) nofun (log_broadcasts nofun)
        · cases hs
      · cases hs
    | _ => exact ha.elim
  · cases hs

/-! ## The runs -/

omit [DecidableEq T] in
theorem queued_init (h : s.Init) : Queued s := by
  obtain ⟨-, -, hsem, hcrit, hpc⟩ := h
  refine ⟨?_, ?_, ?_⟩
  · unfold State.sleepers
    rw [hsem, hpc]
    exact ⟨List.nodup_nil, fun _ => iff_of_false List.not_mem_nil Bool.false_ne_true, fun _ => rfl⟩
  · intro c
    rw [hcrit, hpc]
    exact iff_of_false nofun Bool.false_ne_true
  · intro c k hc
    rw [hpc] at hc
    cases hc

/-- The invariant of a run in which no thread that was woken finds the semaphore empty. -/
theorem runs_wakes {r : State T × Log T} (h : Runs KeepsToken r) : Queued r.1 ∧ Wakes r.1 r.2 := by
  refine Run.Reach.inv (I := fun r => Queued r.1 ∧ Wakes r.1 r.2) ?_ ?_ h
  · rintro ⟨s, g⟩ ⟨hs, rfl⟩
    exact ⟨queued_init hs, nofun, nofun⟩
  · rintro ⟨s, g⟩ a ⟨s', g'⟩ ⟨hq, hw⟩ hok ⟨hs, hg⟩
    rw [show g' = log s a s' g from hg]
    exact ⟨queued_step hq hs, wakes_step hw hq hok hs⟩

theorem runs_barrier {r : State T × Log T} (h : Runs (fun r a => KeepsToken r a ∧ a.OfBarrier) r) :
    Barrier r.1 r.2 := by
  refine (Run.Reach.inv (I := fun r => Queued r.1 ∧ Barrier r.1 r.2) ?_ ?_ h).2
  · rintro ⟨s, g⟩ ⟨hs, rfl⟩
    refine ⟨queued_init hs, ?_⟩
    obtain ⟨-, -, -, -, hpc⟩ := hs
    refine ⟨?_, ?_, ?_, ?_⟩
    · intro t ht
      rw [hpc] at ht
      cases ht
    · intro t k timeout ht
      rw [hpc] at ht
      cases ht
    · intro t ht
      rw [hpc] at ht
      cases ht
    · intro _ _ u hu
      rw [hpc] at hu
      cases hu
  · rintro ⟨s, g⟩ a ⟨s', g'⟩ ⟨hq, hb⟩ hok ⟨hs, hg⟩
    rw [show g' = log s a s' g from hg]
    exact ⟨queued_step hq hs, barrier_step hb hq hok.2 hs⟩

omit [DecidableEq T] in
/-- All waits of a barrier were found by its broadcast, so that it leaves no thread blocked. -/
theorem Barrier.released (h : Barrier s g) (hq : Queued s) (hw : Wakes s g) : s.Released := by
  intro h0 hnb u
  apply Bool.eq_false_iff.2
  intro hu
  have hcrit : s.critical = none := by
    cases hc : s.critical with
    | none => rfl
    | some c =>
      have hloop := (hq.critical c).1 hc
      rw [inLoop_of_broadcasting (hnb c)] at hloop
      cases hloop
  have hno : ∀ t k, s.pc t ≠ .broadcast k := by
    intro t k ht
    have hb := hnb t
    rw [ht] at hb
    cases hb
  obtain ⟨B, hB, hBu⟩ := h.found h0 hno u (entered_of_suspended hu)
  exact hw.broadcast hcrit B hB u ⟨hu, hBu⟩

omit [DecidableEq T] in
theorem barrierInit_init (T : Type) (n : ℕ) : (pthreadBarrierInit T n).Init := ⟨rfl, rfl, rfl, rfl, rfl⟩

/-- A thread that gets to the semaphore before the broadcast is woken. -/
example : (Run.exec (fun s a => s.step a) (pthreadBarrierInit (Fin 2) 2) [.barrier 0, .cont 0, .cont 0, .cont 0, .cont 0,
    .barrier 1, .cont 1, .cont 1, .cont 1, .cont 1, .cont 1]).map (fun s => s.pc 0) = some (.relock .barrier .ok) := by
  decide

end RtThread.Pthread
