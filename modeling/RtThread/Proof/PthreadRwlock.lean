import RtThread.Proof.PthreadCond
import RtThread.Spec.PthreadRwlock
import Mathlib.Algebra.BigOperators.Group.Finset.Piecewise
import Mathlib.Algebra.Order.BigOperators.Group.Finset

/-!
# Read-write locks exclude

* `test_cases`, `cont_cases`, `step_cases`: the steps.
* `owned_step`: a thread that is inside has `rw_mutex`.
* `counted_step`: `rw_nwaitreaders` and `rw_nwaitwriters` are the numbers of threads in the waiting loops.
* `Books`: what `rw_refcount` says of the holds; `Books.read`, `Books.write`, `Books.unlock` keep it.
* `granted_step`: it says so once the calls that are decided have returned.
* `rwlock_excludes`: so it does in every state of a run in which `rw_mutex` is free.
-/

namespace RtThread.Rwlock

open Pthread State

variable {T : Type} [DecidableEq T] {s s' : State T} {a : Act T} {t u : T} {c : Call} {side : Side} {p : Pc}

/-! ## The steps -/

def Call.reading : Call → Bool
  | .rdlock | .tryrdlock | .timedrdlock _ => true
  | _ => false

def Call.writing : Call → Bool
  | .wrlock | .trywrlock | .timedwrlock _ => true
  | _ => false

/-- Calls that return `EBUSY` instead of a wait. -/
def Call.tries : Call → Bool
  | .tryrdlock | .trywrlock => true
  | _ => false

/-- The thread has `rw_mutex`. -/
def Pc.inside : Pc → Bool
  | .test _ | .wait _ _ | .back _ _ _ | .signal | .broadcast | .trytake | .release _ | .done _ _ => true
  | _ => false

def Pc.inLoop : Pc → Bool
  | .trytake | .release _ => true
  | _ => false

/-- What a thread does behind the lock of `rw_mutex`. -/
inductive TestCase (s : State T) (t : T) (c : Call) : State T → Prop
  | rdWait : c.reading = true → c.tries = false → s.Busy →
      TestCase s t c ((s.addNwait .readers 1).setPc t (.wait c .readers))
  | rdBusy : c.tries = true → c.reading = true → s.Busy → TestCase s t c (s.setPc t (.done c .EBUSY))
  | read : c.reading = true → ¬s.Busy →
      TestCase s t c ({ s with rwRefcount := s.rwRefcount + 1 }.setPc t (.done c .ok))
  | wrWait : c.writing = true → c.tries = false → s.rwRefcount ≠ 0 →
      TestCase s t c ((s.addNwait .writers 1).setPc t (.wait c .writers))
  | wrBusy : c.tries = true → c.writing = true → s.rwRefcount ≠ 0 → TestCase s t c (s.setPc t (.done c .EBUSY))
  | write : c.writing = true → s.rwRefcount = 0 →
      TestCase s t c ({ s with rwRefcount := -1 }.setPc t (.done c .ok))
  | unlock : c = .unlock → TestCase s t c ({ s with rwRefcount := s.unlockedCount }.setPc t s.wakes)

theorem rdlock_cases (h : c.reading = true) (ht : c.tries = false) : TestCase s t c (s.rdlock t c) := by
  unfold State.rdlock
  split
  · exact .rdWait h ht ‹_›
  · exact .read h ‹_›

theorem wrlock_cases (h : c.writing = true) (ht : c.tries = false) : TestCase s t c (s.wrlock t c) := by
  unfold State.wrlock
  split
  · exact .wrWait h ht ‹_›
  · exact .write h (not_not.1 ‹_›)

theorem test_cases (s : State T) (t : T) (c : Call) : TestCase s t c (s.test t c) := by
  cases c with
  | rdlock => exact rdlock_cases rfl rfl
  | timedrdlock timeout => exact rdlock_cases rfl rfl
  | tryrdlock =>
    simp only [State.test, State.tryrdlock]
    split
    · exact .rdBusy rfl rfl ‹_›
    · exact .read rfl ‹_›
  | wrlock => exact wrlock_cases rfl rfl
  | timedwrlock timeout => exact wrlock_cases rfl rfl
  | trywrlock =>
    simp only [State.test, State.trywrlock]
    split
    · exact .wrBusy rfl rfl ‹_›
    · exact .write rfl (not_not.1 ‹_›)
  | unlock => exact .unlock rfl

/-- The steps of a call of `t` at the semaphores. -/
inductive SemCase (s : State T) (t : T) : State T → Prop
  | taken (c : Call) (side : Side) : s.pc t = .take c side → 0 < (s.rwCond side).value →
      SemCase s t ((s.setCond side { s.rwCond side with value := (s.rwCond side).value - 1 }).setPc t
        (.relock c side .ok))
  | gaveUp (c : Call) (side : Side) : s.pc t = .take c side → (s.rwCond side).value = 0 → c.timeout = 0 →
      SemCase s t (s.setPc t (.relock c side .ETIMEDOUT))
  | suspended (c : Call) (side : Side) : s.pc t = .take c side → (s.rwCond side).value = 0 → c.timeout ≠ 0 →
      SemCase s t ((s.setCond side { s.rwCond side with waiting := (s.rwCond side).waiting ++ [t] }).setPc t
        (.suspended c side))
  | signal : s.pc t = .signal → SemCase s t ((s.semRelease .writers).setPc t (.done .unlock .ok))
  | locked : s.pc t = .broadcast → SemCase s t ({ s with critical := some t }.setPc t .trytake)
  | tried : s.pc t = .trytake → 0 < (s.rwCond .readers).value →
      SemCase s t ((s.setCond .readers { s.rwCond .readers with value := (s.rwCond .readers).value - 1 }).setPc t
        (.release true))
  | failed : s.pc t = .trytake → (s.rwCond .readers).value = 0 → SemCase s t (s.setPc t (.release false))
  | left : s.pc t = .release true →
      SemCase s t ({ s.semRelease .readers with critical := none }.setPc t (.done .unlock .ok))
  | again : s.pc t = .release false → SemCase s t ((s.semRelease .readers).setPc t .trytake)

/-- The steps of a call of `t`. -/
inductive ContCase (s : State T) (t : T) : State T → Prop
  | locked (c : Call) (m : Mutex T) (p : Pc) : s.pc t = .lock c → (∃ e, s.rwMutex.lock t = some (e, m)) →
      p = .test c ∨ p = .idle → ContCase s t ({ s with rwMutex := m }.setPc t p)
  | test (c : Call) {s' : State T} : s.pc t = .test c → TestCase s t c s' → ContCase s t s'
  | waits (c : Call) (side : Side) : s.pc t = .wait c side → s.rwMutex.owner = some t →
      ContCase s t ({ s with rwMutex := (s.rwMutex.unlock t).2 }.setPc t (.take c side))
  | notOwner (c : Call) (side : Side) : s.pc t = .wait c side → s.rwMutex.owner ≠ some t →
      ContCase s t (s.setPc t (.back c side .EINVAL))
  | relocked (c : Call) (side : Side) (r : Errno) (m : Mutex T) : s.pc t = .relock c side r →
      (∃ e, s.rwMutex.lock t = some (e, m)) →
      ContCase s t ({ s with rwMutex := m }.setPc t (.back c side (c.waited r)))
  | again (c : Call) (side : Side) : s.pc t = .back c side .ok →
      ContCase s t ((s.addNwait side (-1)).setPc t (.test c))
  | failed (c : Call) (side : Side) (r : Errno) : s.pc t = .back c side r → r ≠ .ok →
      ContCase s t ((s.addNwait side (-1)).setPc t (.done c r))
  | done (c : Call) (r : Errno) : s.pc t = .done c r →
      ContCase s t ({ s with rwMutex := (s.rwMutex.unlock t).2 }.setPc t .idle)
  | sem {s' : State T} : SemCase s t s' → ContCase s t s'

theorem take_cases (hp : s.pc t = .take c side) : SemCase s t (s.take t c side) := by
  unfold State.take
  split
  · exact .taken c side hp ‹_›
  · rename_i hv
    split
    · exact .gaveUp c side hp (Nat.eq_zero_of_not_pos hv) ‹_›
    · exact .suspended c side hp (Nat.eq_zero_of_not_pos hv) ‹_›

theorem cont_cases (h : s.cont t = some s') : ContCase s t s' := by
  unfold State.cont at h
  cases hp : s.pc t with
  | idle => simp [hp] at h
  | suspended c side => simp [hp] at h
  | lock c =>
    simp only [hp] at h
    split at h
    · cases h
    · rename_i m hl
      cases h
      exact .locked c m _ hp ⟨_, hl⟩ (.inl rfl)
    · rename_i e m _ hl
      cases h
      exact .locked c m _ hp ⟨e, hl⟩ (.inr rfl)
  | test c =>
    simp only [hp] at h
    cases h
    exact .test c hp (test_cases s t c)
  | wait c side =>
    simp only [hp] at h
    split at h
    · rename_i ho
      have hok := unlock_ok ho
      split at h
      · rename_i m hm
        cases h
        have hm' : m = (s.rwMutex.unlock t).2 := by rw [hm]
        rw [hm']
        exact .waits c side hp ho
      · rename_i e m hne hm
        rw [hm] at hok
        cases (show e = .ok from hok)
        exact (hne rfl).elim
    · rename_i ho
      cases h
      exact .notOwner c side hp ho
  | take c side =>
    simp only [hp] at h
    cases h
    exact .sem (take_cases hp)
  | relock c side r =>
    simp only [hp] at h
    split at h
    · cases h
    · rename_i e m hl
      cases h
      exact .relocked c side r m hp ⟨e, hl⟩
  | back c side r =>
    simp only [hp] at h
    cases h
    by_cases hr : r = .ok
    · subst hr
      exact .again c side hp
    · rw [if_neg hr]
      exact .failed c side r hp hr
  | signal =>
    simp only [hp] at h
    cases h
    exact .sem (.signal hp)
  | broadcast =>
    simp only [hp] at h
    cases h
    exact .sem (.locked hp)
  | trytake =>
    simp only [hp] at h
    split at h
    · rename_i hv
      cases h
      exact .sem (.tried hp hv)
    · rename_i hv
      cases h
      exact .sem (.failed hp (Nat.eq_zero_of_not_pos hv))
  | release taken =>
    cases taken with
    | true =>
      simp only [hp] at h
      cases h
      exact .sem (.left hp)
    | false =>
      simp only [hp] at h
      cases h
      exact .sem (.again hp)
  | done c r =>
    simp only [hp] at h
    cases h
    exact .done c r hp

/-! ## Who has `rw_mutex` -/

/-- In a step of `t`, which goes to `p`, the other threads stay where they are or are woken. -/
structure Moves (s s' : State T) (t : T) (p : Pc) : Prop where
  pc : s'.pc t = p
  others : ∀ u, u ≠ t → s'.pc u = s.pc u ∨ ∃ c side, s.pc u = .suspended c side ∧ s'.pc u = .relock c side .ok

theorem moves_setPc {s₁ : State T} (h : s₁.pc = s.pc) : Moves s (s₁.setPc t p) t p := by
  refine ⟨Function.update_self .., ?_⟩
  intro u hu
  exact .inl ((Function.update_of_ne hu ..).trans (congrFun h u))

theorem resume_cases (r : Errno) (p : Pc) :
    p.resume r = p ∨ ∃ c side, p = .suspended c side ∧ p.resume r = .relock c side r := by
  cases p with
  | suspended c side => exact .inr ⟨c, side, rfl, rfl⟩
  | _ => exact .inl rfl

theorem semRelease_nil (h : (s.rwCond side).waiting = []) : (s.semRelease side).pc = s.pc := by
  unfold State.semRelease
  rw [h]

theorem semRelease_cons {w : List T} (h : (s.rwCond side).waiting = u :: w) :
    (s.semRelease side).pc = Function.update s.pc u ((s.pc u).resume .ok) := by
  unfold State.semRelease
  rw [h]

theorem semRelease_pc (s : State T) (side : Side) (u : T) : (s.semRelease side).pc u = s.pc u ∨
    ∃ c d, s.pc u = .suspended c d ∧ (s.semRelease side).pc u = .relock c d .ok := by
  cases hw : (s.rwCond side).waiting with
  | nil =>
    rw [semRelease_nil hw]
    exact .inl rfl
  | cons v w =>
    rw [semRelease_cons hw]
    by_cases hu : u = v
    · rw [hu, Function.update_self]
      exact resume_cases .ok (s.pc v)
    · rw [Function.update_of_ne hu]
      exact .inl rfl

theorem moves_semRelease {s₁ : State T} (h : s₁.pc = (s.semRelease side).pc) : Moves s (s₁.setPc t p) t p := by
  refine ⟨Function.update_self .., ?_⟩
  intro u hu
  have hpc : (s₁.setPc t p).pc u = (s.semRelease side).pc u :=
    (Function.update_of_ne hu ..).trans (congrFun h u)
  rw [hpc]
  exact semRelease_pc s side u

omit [DecidableEq T] in
/-- What does not tell a thread that was woken from one that sleeps stays for the others. -/
theorem Moves.same {α : Type} (h : Moves s s' t p) (P : Pc → α)
    (hP : ∀ c side, P (.relock c side .ok) = P (.suspended c side)) (hu : u ≠ t) : P (s'.pc u) = P (s.pc u) := by
  rcases h.others u hu with hpc | ⟨c, side, hs, hr⟩
  · rw [hpc]
  · rw [hs, hr, hP]

/-- A thread that is inside owns `rw_mutex`. -/
def Owned (s : State T) : Prop := ∀ t, (s.pc t).inside = true → s.rwMutex.owner = some t

omit [DecidableEq T] in
theorem Owned.alone (h : Owned s) (ht : (s.pc t).inside = true) (hu : u ≠ t) : (s.pc u).inside = false := by
  apply Bool.eq_false_iff.2
  intro hin
  have ho := h u hin
  rw [h t ht] at ho
  exact hu (Option.some.inj ho).symm

theorem Owned.move (h : Owned s) (hm : Moves s s' t p)
    (hmutex : ∀ u, u ≠ t → s.rwMutex.owner = some u → s'.rwMutex.owner = some u)
    (hown : p.inside = true → s'.rwMutex.owner = some t) : Owned s' := by
  intro u hu
  by_cases hut : u = t
  · rw [hut] at hu ⊢
    exact hown (hm.pc ▸ hu)
  · rw [hm.same Pc.inside (fun _ _ => rfl) hut] at hu
    exact hmutex u hut (h u hu)

theorem owned_cont (h : Owned s) (hc : ContCase s t s') : Owned s' := by
  have hstay : ∀ q, s.pc t = q → q.inside = true → s.rwMutex.owner = some t := by
    intro q hq hin
    exact h t (hq ▸ hin)
  cases hc with
  | locked c m p hp hl _ =>
    obtain ⟨e, hl⟩ := hl
    exact h.move (moves_setPc rfl) (fun u hu ho => absurd (lock_other hl ho) hu) fun _ => lock_owner hl
  | test c hp ht =>
    have hself : s.rwMutex.owner = some t := h t (hp ▸ rfl)
    cases ht <;> exact h.move (moves_setPc rfl) (fun _ _ => id) fun _ => hself
  | waits c side hp _ => exact h.move (moves_setPc rfl) (fun u hu ho => unlock_owner ho hu) nofun
  | notOwner c side hp _ => exact h.move (moves_setPc rfl) (fun _ _ => id) fun _ => hstay _ hp rfl
  | relocked c side r m hp hl =>
    obtain ⟨e, hl⟩ := hl
    exact h.move (moves_setPc rfl) (fun u hu ho => absurd (lock_other hl ho) hu) fun _ => lock_owner hl
  | again c side hp => exact h.move (moves_setPc rfl) (fun _ _ => id) fun _ => hstay _ hp rfl
  | failed c side r hp _ => exact h.move (moves_setPc rfl) (fun _ _ => id) fun _ => hstay _ hp rfl
  | done c r hp => exact h.move (moves_setPc rfl) (fun u hu ho => unlock_owner ho hu) nofun
  | sem hc =>
    cases hc with
    | taken c side hp _ => exact h.move (moves_setPc rfl) (fun _ _ => id) nofun
    | gaveUp c side hp _ _ => exact h.move (moves_setPc rfl) (fun _ _ => id) nofun
    | suspended c side hp _ _ => exact h.move (moves_setPc rfl) (fun _ _ => id) nofun
    | signal hp => exact h.move (moves_semRelease rfl) (fun _ _ => id) fun _ => hstay _ hp rfl
    | locked hp => exact h.move (moves_setPc rfl) (fun _ _ => id) fun _ => hstay _ hp rfl
    | tried hp _ => exact h.move (moves_setPc rfl) (fun _ _ => id) fun _ => hstay _ hp rfl
    | failed hp _ => exact h.move (moves_setPc rfl) (fun _ _ => id) fun _ => hstay _ hp rfl
    | left hp => exact h.move (moves_semRelease rfl) (fun _ _ => id) fun _ => hstay _ hp rfl
    | again hp => exact h.move (moves_semRelease rfl) (fun _ _ => id) fun _ => hstay _ hp rfl

/-- What a step is. -/
inductive StepCase (s : State T) (a : Act T) (s' : State T) : Prop
  | call (t : T) (c : Call) : a = .call t c → s.pc t = .idle → s.critical = none → s' = s.setPc t (.lock c) →
      StepCase s a s'
  | cont (t : T) : a = .cont t → s.critical = none ∨ s.critical = some t → ContCase s t s' → StepCase s a s'
  | timeout (t : T) (c : Call) (side : Side) : a = .timeout t → s.pc t = .suspended c side →
      s' = (s.setCond side { s.rwCond side with waiting := (s.rwCond side).waiting.erase t }).setPc t
        (.relock c side .ETIMEDOUT) → StepCase s a s'

theorem step_cases (h : s.step a = some s') : StepCase s a s' := by
  cases a with
  | call t c =>
    rw [State.step] at h
    split at h
    · rename_i hen
      exact .call t c rfl hen.2 hen.1 (Option.some.inj h).symm
    · cases h
  | cont t =>
    rw [State.step] at h
    split at h
    · rename_i hen
      exact .cont t rfl hen (cont_cases h)
    · cases h
  | timeout t =>
    simp only [State.step, State.timeout] at h
    split at h
    · rename_i c side hp
      split at h
      · exact .timeout t c side rfl hp (Option.some.inj h).symm
      · cases h
    · cases h

theorem owned_step (h : Owned s) (hs : s.step a = some s') : Owned s' := by
  cases step_cases hs with
  | call t c _ _ _ hs' =>
    rw [hs']
    exact h.move (moves_setPc rfl) (fun _ _ => id) nofun
  | cont t _ _ hc => exact owned_cont h hc
  | timeout t c side _ _ hs' =>
    rw [hs']
    exact h.move (moves_setPc rfl) (fun _ _ => id) nofun

/-! ## How many threads wait -/

section Count

variable [Fintype T]

/-- Where one thread has changed, a sum over the threads changes by it. -/
theorem sum_of_ne {f g : T → ℕ} (h : ∀ u, u ≠ t → g u = f u) : ∑ u, g u + f t = ∑ u, f u + g t := by
  have hg : g t + ∑ u ∈ Finset.univ.erase t, g u = ∑ u, g u := Finset.add_sum_erase _ g (Finset.mem_univ t)
  have hf : f t + ∑ u ∈ Finset.univ.erase t, f u = ∑ u, f u := Finset.add_sum_erase _ f (Finset.mem_univ t)
  have hothers : ∑ u ∈ Finset.univ.erase t, g u = ∑ u ∈ Finset.univ.erase t, f u :=
    Finset.sum_congr rfl fun u hu => h u (Finset.ne_of_mem_erase hu)
  omega

/-- The threads inside the waiting loop of a condition. -/
def State.waiters (s : State T) (side : Side) : ℕ := (Finset.univ.filter fun t => (s.pc t).waitsOn side = true).card

omit [DecidableEq T] in
theorem waiters_eq_sum (s : State T) (side : Side) : s.waiters side = ∑ t, ((s.pc t).waitsOn side).toNat := by
  rw [State.waiters, Finset.card_filter]
  apply Finset.sum_congr rfl
  intro t _
  cases (s.pc t).waitsOn side <;> rfl

/-- The counters of the waiting loops. -/
def Counted (s : State T) : Prop := ∀ side, s.rwNwait side = s.waiters side

theorem Moves.waiters (h : Moves s s' t p) (side : Side) :
    s'.waiters side + ((s.pc t).waitsOn side).toNat = s.waiters side + (p.waitsOn side).toNat := by
  have hsum := sum_of_ne (t := t) (f := fun u => ((s.pc u).waitsOn side).toNat)
    (g := fun u => ((s'.pc u).waitsOn side).toNat)
    fun u hu => congrArg Bool.toNat (h.same (fun q => q.waitsOn side) (fun _ _ => rfl) hu)
  rw [h.pc] at hsum
  rw [waiters_eq_sum, waiters_eq_sum]
  exact hsum

theorem Counted.move (h : Counted s) (hm : Moves s s' t p)
    (hn : ∀ side, s'.rwNwait side + ((s.pc t).waitsOn side).toNat = s.rwNwait side + (p.waitsOn side).toNat) :
    Counted s' := by
  intro side
  have hw := hm.waiters side
  have hns := hn side
  rw [h side] at hns
  omega

/-- The counter follows the thread that enters the loop, or leaves it. -/
theorem Counted.add (h : Counted s) {d : ℤ} (hd : ((s.pc t).waitsOn side).toNat + d = (p.waitsOn side).toNat)
    (hother : ∀ e, e ≠ side → p.waitsOn e = (s.pc t).waitsOn e) : Counted ((s.addNwait side d).setPc t p) := by
  refine h.move (moves_setPc rfl) ?_
  intro e
  by_cases he : e = side
  · rw [he]
    have hself : ((s.addNwait side d).setPc t p).rwNwait side = s.rwNwait side + d := Function.update_self ..
    rw [hself]
    omega
  · have hne : ((s.addNwait side d).setPc t p).rwNwait e = s.rwNwait e := Function.update_of_ne he ..
    rw [hne, hother e he]

theorem waitsOn_of_ne {d e : Side} (h : e ≠ d) : decide (d = e) = false := decide_eq_false h.symm

theorem waitsOn_self (d : Side) : (decide (d = d)).toNat = 1 := by rw [decide_eq_true rfl]; rfl

/-- A step that neither enters a loop nor leaves one. -/
theorem Counted.stay (h : Counted s) (hm : Moves s s' t p) (hn : s'.rwNwait = s.rwNwait)
    (hp : ∀ e, p.waitsOn e = (s.pc t).waitsOn e) : Counted s' := by
  refine h.move hm ?_
  intro e
  rw [hn, hp]

theorem counted_cont (h : Counted s) (hc : ContCase s t s') : Counted s' := by
  cases hc with
  | locked c m p hp hl hpc =>
    refine h.stay (moves_setPc rfl) rfl ?_
    intro e
    rw [hp]
    rcases hpc with rfl | rfl <;> rfl
  | test c hp ht =>
    cases ht with
    | rdWait _ _ _ =>
      refine h.add (by rw [hp]; rfl) ?_
      intro e he
      rw [hp]
      exact waitsOn_of_ne he
    | wrWait _ _ _ =>
      refine h.add (by rw [hp]; rfl) ?_
      intro e he
      rw [hp]
      exact waitsOn_of_ne he
    | rdBusy _ _ _ => exact h.stay (moves_setPc rfl) rfl fun e => by rw [hp]; rfl
    | wrBusy _ _ _ => exact h.stay (moves_setPc rfl) rfl fun e => by rw [hp]; rfl
    | read _ _ => exact h.stay (moves_setPc rfl) rfl fun e => by rw [hp]; rfl
    | write _ _ => exact h.stay (moves_setPc rfl) rfl fun e => by rw [hp]; rfl
    | unlock _ =>
      refine h.stay (moves_setPc rfl) rfl ?_
      intro e
      rw [hp]
      unfold State.wakes
      split
      · split <;> rfl
      · split <;> rfl
  | waits c side hp _ => exact h.stay (moves_setPc rfl) rfl fun e => by rw [hp]; rfl
  | notOwner c side hp _ => exact h.stay (moves_setPc rfl) rfl fun e => by rw [hp]; rfl
  | relocked c side r m hp _ => exact h.stay (moves_setPc rfl) rfl fun e => by rw [hp]; rfl
  | again c side hp =>
    refine h.add ?_ ?_
    · rw [hp]
      exact congrArg (fun n : ℕ => (n : ℤ) + -1) (waitsOn_self side)
    · intro e he
      rw [hp]
      exact (waitsOn_of_ne he).symm
  | failed c side r hp _ =>
    refine h.add ?_ ?_
    · rw [hp]
      exact congrArg (fun n : ℕ => (n : ℤ) + -1) (waitsOn_self side)
    · intro e he
      rw [hp]
      exact (waitsOn_of_ne he).symm
  | done c r hp => exact h.stay (moves_setPc rfl) rfl fun e => by rw [hp]; rfl
  | sem hc =>
    cases hc with
    | taken c side hp _ => exact h.stay (moves_setPc rfl) rfl fun e => by rw [hp]; rfl
    | gaveUp c side hp _ _ => exact h.stay (moves_setPc rfl) rfl fun e => by rw [hp]; rfl
    | suspended c side hp _ _ => exact h.stay (moves_setPc rfl) rfl fun e => by rw [hp]; rfl
    | signal hp => exact h.stay (moves_semRelease rfl) rfl fun e => by rw [hp]; rfl
    | locked hp => exact h.stay (moves_setPc rfl) rfl fun e => by rw [hp]; rfl
    | tried hp _ => exact h.stay (moves_setPc rfl) rfl fun e => by rw [hp]; rfl
    | failed hp _ => exact h.stay (moves_setPc rfl) rfl fun e => by rw [hp]; rfl
    | left hp => exact h.stay (moves_semRelease rfl) rfl fun e => by rw [hp]; rfl
    | again hp => exact h.stay (moves_semRelease rfl) rfl fun e => by rw [hp]; rfl

theorem counted_step (h : Counted s) (hs : s.step a = some s') : Counted s' := by
  cases step_cases hs with
  | call t c _ hp _ hs' =>
    rw [hs']
    exact h.stay (moves_setPc rfl) rfl fun e => by rw [hp]; rfl
  | cont t _ _ hc => exact counted_cont h hc
  | timeout t c side _ hp hs' =>
    rw [hs']
    exact h.stay (moves_setPc rfl) rfl fun e => by rw [hp]; rfl

end Count

/-! ## The waiting loops -/

/-- The condition that a call waits for, if it waits. -/
def Call.waitsFor : Call → Option Side
  | .rdlock | .timedrdlock _ => some .readers
  | .wrlock | .timedwrlock _ => some .writers
  | .tryrdlock | .trywrlock | .unlock => none

/-- The waiting loop that a thread is in. -/
def Pc.loop : Pc → Option (Call × Side)
  | .wait c d | .take c d | .suspended c d | .relock c d _ | .back c d _ => some (c, d)
  | _ => none

/-- A call waits on its own condition. -/
def Sided (s : State T) : Prop := ∀ t c side, (s.pc t).loop = some (c, side) → c.waitsFor = some side

theorem Sided.move (h : Sided s) (hm : Moves s s' t p)
    (ht : p.loop = none ∨ p.loop = (s.pc t).loop ∨ ∃ c side, p.loop = some (c, side) ∧ c.waitsFor = some side) :
    Sided s' := by
  intro u c side hu
  by_cases hut : u = t
  · rw [hut, hm.pc] at hu
    rcases ht with ht | ht | ⟨c', d, ht, hc⟩
    · rw [ht] at hu
      cases hu
    · exact h t c side (ht ▸ hu)
    · rw [ht] at hu
      cases hu
      exact hc
  · rw [hm.same Pc.loop (fun _ _ => rfl) hut] at hu
    exact h u c side hu

theorem side_reading (h : c.reading = true) (ht : c.tries = false) : c.waitsFor = some .readers := by
  cases c <;> first | rfl | (cases h; done) | cases ht

theorem side_writing (h : c.writing = true) (ht : c.tries = false) : c.waitsFor = some .writers := by
  cases c <;> first | rfl | (cases h; done) | cases ht

omit [DecidableEq T] in
theorem wakes_cases (s : State T) :
    s.wakes = .signal ∧ 0 < s.rwNwait .writers ∨ s.wakes = .broadcast ∧ s.rwNwait .writers ≤ 0 ∨
      s.wakes = .done .unlock .ok ∧ (0 < s.rwNwait .writers → s.unlockedCount ≠ 0) ∧
        (s.rwNwait .writers ≤ 0 → s.rwNwait .readers ≤ 0) := by
  unfold State.wakes
  split
  · rename_i hw
    split
    · exact .inl ⟨rfl, hw⟩
    · exact .inr (.inr ⟨rfl, fun _ => ‹_›, fun hle => absurd hw (not_lt.2 hle)⟩)
  · rename_i hw
    split
    · exact .inr (.inl ⟨rfl, not_lt.1 hw⟩)
    · rename_i hr
      exact .inr (.inr ⟨rfl, fun hlt => absurd hlt hw, fun _ => not_lt.1 hr⟩)

theorem sided_cont (h : Sided s) (hc : ContCase s t s') : Sided s' := by
  cases hc with
  | locked c m p hp hl hpc =>
    refine h.move (moves_setPc rfl) (.inl ?_)
    rcases hpc with rfl | rfl <;> rfl
  | test c hp ht =>
    cases ht with
    | rdWait hr ht _ => exact h.move (moves_setPc rfl) (.inr (.inr ⟨c, .readers, rfl, side_reading hr ht⟩))
    | wrWait hw ht _ => exact h.move (moves_setPc rfl) (.inr (.inr ⟨c, .writers, rfl, side_writing hw ht⟩))
    | unlock _ =>
      refine h.move (moves_setPc rfl) (.inl ?_)
      rcases wakes_cases s with ⟨hw, -⟩ | ⟨hw, -⟩ | ⟨hw, -⟩ <;> rw [hw] <;> rfl
    | _ => exact h.move (moves_setPc rfl) (.inl rfl)
  | waits c side hp _ => exact h.move (moves_setPc rfl) (.inr (.inl (hp ▸ rfl)))
  | notOwner c side hp _ => exact h.move (moves_setPc rfl) (.inr (.inl (hp ▸ rfl)))
  | relocked c side r m hp _ => exact h.move (moves_setPc rfl) (.inr (.inl (hp ▸ rfl)))
  | again c side hp => exact h.move (moves_setPc rfl) (.inl rfl)
  | failed c side r hp _ => exact h.move (moves_setPc rfl) (.inl rfl)
  | done c r hp => exact h.move (moves_setPc rfl) (.inl rfl)
  | sem hc =>
    cases hc with
    | taken c side hp _ => exact h.move (moves_setPc rfl) (.inr (.inl (hp ▸ rfl)))
    | gaveUp c side hp _ _ => exact h.move (moves_setPc rfl) (.inr (.inl (hp ▸ rfl)))
    | suspended c side hp _ _ => exact h.move (moves_setPc rfl) (.inr (.inl (hp ▸ rfl)))
    | signal hp => exact h.move (moves_semRelease rfl) (.inl rfl)
    | left hp => exact h.move (moves_semRelease rfl) (.inl rfl)
    | again hp => exact h.move (moves_semRelease rfl) (.inl rfl)
    | _ => exact h.move (moves_setPc rfl) (.inl rfl)

theorem sided_step (h : Sided s) (hs : s.step a = some s') : Sided s' := by
  cases step_cases hs with
  | call t c _ _ _ hs' =>
    rw [hs']
    exact h.move (moves_setPc rfl) (.inl rfl)
  | cont t _ _ hc => exact sided_cont h hc
  | timeout t c side _ hp hs' =>
    rw [hs']
    exact h.move (moves_setPc rfl) (.inr (.inl (hp ▸ rfl)))

/-! ## Who holds the lock -/

/-- The call whose effect on `rw_refcount` has been made, before it returns. -/
def Pc.commits : Pc → Option Call
  | .signal | .broadcast | .trytake | .release _ => some .unlock
  | .done c .ok => some c
  | _ => none

/-- What a thread holds once the call that it is in, if that is decided, has returned. -/
def settled (s : State T) (h : T → Hold) (t : T) : Hold :=
  match (s.pc t).commits with
  | some c => (h t).returned c
  | none => h t

/-- `rw_refcount` says who holds the lock: one thread for writing and nobody else, or readers only. -/
inductive Books [Fintype T] (n : ℤ) (H : T → Hold) : Prop
  | written (t : T) : n = -1 → (H t).writes = true → (∀ u, u ≠ t → (H u).writes = false) →
      (∀ u, (H u).reads = 0) → Books n H
  | shared : n = ∑ u, (H u).reads → (∀ u, (H u).writes = false) → Books n H

variable {h h' H H' : T → Hold}

omit [DecidableEq T] in
theorem settled_of_none (hc : (s.pc t).commits = none) : settled s h t = h t := by
  rw [settled, hc]

omit [DecidableEq T] in
theorem Moves.settled_self (hm : Moves s s' t p) (hc : p.commits = some c) : settled s' h t = (h t).returned c := by
  rw [Rwlock.settled, hm.pc, hc]

omit [DecidableEq T] in
/-- The other threads hold what they held. -/
theorem Moves.settled (hm : Moves s s' t p) (hh : ∀ u, u ≠ t → h' u = h u) (hu : u ≠ t) :
    settled s' h' u = settled s h u := by
  unfold Rwlock.settled
  rw [hm.same Pc.commits (fun _ _ => rfl) hu, hh u hu]

section Books

variable [Fintype T]

omit [DecidableEq T] in
theorem Books.congr {n : ℤ} (hb : Books n H) (he : ∀ u, H' u = H u) : Books n H' := by
  rw [funext he]
  exact hb

theorem Books.read {n : ℤ} (hb : Books n H) (hn : 0 ≤ n) (ho : ∀ u, u ≠ t → H' u = H u)
    (hr : (H' t).reads = (H t).reads + 1) (hw : (H' t).writes = (H t).writes) : Books (n + 1) H' := by
  cases hb with
  | written v h1 _ _ _ => omega
  | shared hsum hnone =>
    refine .shared ?_ ?_
    · have hs := sum_of_ne (t := t) (f := fun u => (H u).reads) (g := fun u => (H' u).reads)
        fun u hu => by rw [ho u hu]
      simp only [hr] at hs
      rw [hsum]
      have hs' : ∑ u, (H' u).reads = ∑ u, (H u).reads + 1 := by omega
      rw [hs']
      rfl
    · intro u
      by_cases hu : u = t
      · rw [hu, hw]
        exact hnone t
      · rw [ho u hu]
        exact hnone u

theorem Books.write (hb : Books 0 H) (ho : ∀ u, u ≠ t → H' u = H u) (hr : (H' t).reads = (H t).reads)
    (hw : (H' t).writes = true) : Books (-1) H' := by
  cases hb with
  | written v h1 _ _ _ => omega
  | shared hsum hnone =>
    have hz : ∀ u, (H u).reads = 0 := by
      intro u
      have hsum0 : ∑ u, (H u).reads = 0 := by exact_mod_cast hsum.symm
      exact (Finset.sum_eq_zero_iff.1 hsum0) u (Finset.mem_univ u)
    refine .written t rfl hw ?_ ?_
    · intro u hu
      rw [ho u hu]
      exact hnone u
    · intro u
      by_cases hu : u = t
      · rw [hu, hr]
        exact hz t
      · rw [ho u hu]
        exact hz u

/-- An unlock of a holder. -/
theorem Books.unlock (hb : Books s.rwRefcount H) (ho : ∀ u, u ≠ t → H' u = H u)
    (ht : H' t = (H t).returned .unlock) (hholds : (H t).writes = true ∨ 0 < (H t).reads) :
    Books s.unlockedCount H' := by
  unfold State.unlockedCount
  cases hb with
  | written v h1 hv hother hz =>
    have hvt : t = v := by
      by_contra hne
      rcases hholds with hw | hr
      · rw [hother t hne] at hw
        cases hw
      · rw [hz t] at hr
        cases hr
    subst hvt
    rw [if_neg (by omega), if_pos h1]
    simp only [Hold.returned, hv, if_true] at ht
    have hz' : ∀ u, (H' u).reads = 0 := by
      intro u
      by_cases hu : u = t
      · rw [hu, ht]
        exact hz t
      · rw [ho u hu]
        exact hz u
    refine .shared ?_ ?_
    · rw [Finset.sum_eq_zero fun u _ => hz' u]
      rfl
    · intro u
      by_cases hu : u = t
      · rw [hu, ht]
      · rw [ho u hu]
        exact hother u hu
  | shared hsum hnone =>
    have hr : 0 < (H t).reads := hholds.resolve_left fun hw => by rw [hnone t] at hw; cases hw
    simp only [Hold.returned, hnone t, Bool.false_eq_true, if_false] at ht
    have hs := sum_of_ne (t := t) (f := fun u => (H u).reads) (g := fun u => (H' u).reads)
      fun u hu => by rw [ho u hu]
    have hrt : (H' t).reads = (H t).reads - 1 := by
      rw [ht]
    simp only [hrt] at hs
    have hle : (H t).reads ≤ ∑ u, (H u).reads :=
      Finset.single_le_sum (f := fun u => (H u).reads) (fun _ _ => Nat.zero_le _) (Finset.mem_univ t)
    rw [if_pos (by omega)]
    refine .shared ?_ ?_
    · omega
    · intro u
      by_cases hu : u = t
      · rw [hu, ht]
      · rw [ho u hu]
        exact hnone u

/-- The lock and its holders: the counter counts what is held once the calls that are decided have returned,
and who is about to unlock holds the lock. -/
structure Granted (s : State T) (h : T → Hold) : Prop where
  books : Books s.rwRefcount (settled s h)
  entitled : ∀ t, s.pc t = .lock .unlock ∨ s.pc t = .test .unlock → (h t).writes = true ∨ 0 < (h t).reads

/-- The threads but `t` are as much about to unlock as before. -/
theorem Granted.entitled_move (hg : Granted s h) (hm : Moves s s' t p) (hh : ∀ u, u ≠ t → h' u = h u)
    (ht : p = .lock .unlock ∨ p = .test .unlock → (h' t).writes = true ∨ 0 < (h' t).reads) :
    ∀ u, s'.pc u = .lock .unlock ∨ s'.pc u = .test .unlock → (h' u).writes = true ∨ 0 < (h' u).reads := by
  intro u hu
  by_cases hut : u = t
  · subst hut
    rw [hm.pc] at hu
    exact ht hu
  · rw [hh u hut]
    rcases hm.others u hut with hpc | ⟨c, side, -, hr⟩
    · rw [hpc] at hu
      exact hg.entitled u hu
    · rw [hr] at hu
      rcases hu with hu | hu <;> cases hu

/-- A step that decides no call. -/
theorem Granted.stay (hg : Granted s h) (hm : Moves s s' t p) (hn : s'.rwRefcount = s.rwRefcount)
    (hc : p.commits = (s.pc t).commits)
    (ht : p = .lock .unlock ∨ p = .test .unlock → (h t).writes = true ∨ 0 < (h t).reads) : Granted s' h := by
  refine ⟨?_, hg.entitled_move hm (fun _ _ => rfl) ht⟩
  rw [hn]
  refine hg.books.congr ?_
  intro u
  by_cases hu : u = t
  · rw [hu, settled, settled, hm.pc, hc]
  · exact hm.settled (fun _ _ => rfl) hu

theorem granted_test (hg : Granted s h) (hp : s.pc t = .test c) (hc : TestCase s t c s') : Granted s' h := by
  have hnone : settled s h t = h t := settled_of_none (hp ▸ rfl)
  have hother : ∀ {s' : State T} {p : Pc}, Moves s s' t p → ∀ u, u ≠ t → settled s' h u = settled s h u :=
    fun hm u hu => hm.settled (fun _ _ => rfl) hu
  cases hc with
  | rdWait _ _ _ => exact hg.stay (moves_setPc rfl) rfl (hp ▸ rfl) nofun
  | wrWait _ _ _ => exact hg.stay (moves_setPc rfl) rfl (hp ▸ rfl) nofun
  | rdBusy _ _ _ => exact hg.stay (moves_setPc rfl) rfl (hp ▸ rfl) nofun
  | wrBusy _ _ _ => exact hg.stay (moves_setPc rfl) rfl (hp ▸ rfl) nofun
  | read hr hb =>
    have hm : Moves s ({ s with rwRefcount := s.rwRefcount + 1 }.setPc t (.done c .ok)) t (.done c .ok) :=
      moves_setPc rfl
    have ht : settled _ h t = _ := hm.settled_self rfl
    have hret : (h t).returned c = { h t with reads := (h t).reads + 1 } := by
      cases c <;> first | rfl | cases hr
    refine ⟨hg.books.read (t := t) (not_lt.1 fun hlt => hb (.inl hlt)) (hother hm) ?_ ?_,
      hg.entitled_move hm (fun _ _ => rfl) nofun⟩
    · rw [ht, hnone, hret]
    · rw [ht, hnone, hret]
  | write hw hz =>
    have hm : Moves s ({ s with rwRefcount := -1 }.setPc t (.done c .ok)) t (.done c .ok) := moves_setPc rfl
    have ht : settled _ h t = _ := hm.settled_self rfl
    have hret : (h t).returned c = { h t with writes := true } := by
      cases c <;> first | rfl | cases hw
    have hbooks := hg.books
    rw [hz] at hbooks
    refine ⟨hbooks.write (t := t) (hother hm) ?_ ?_, hg.entitled_move hm (fun _ _ => rfl) nofun⟩
    · rw [ht, hnone, hret]
    · rw [ht, hret]
  | unlock hc =>
    subst hc
    have hm : Moves s ({ s with rwRefcount := s.unlockedCount }.setPc t s.wakes) t s.wakes := moves_setPc rfl
    have hcommits : s.wakes.commits = some .unlock := by
      rcases wakes_cases s with ⟨hw, -⟩ | ⟨hw, -⟩ | ⟨hw, -⟩ <;> rw [hw] <;> rfl
    have ht : settled _ h t = _ := hm.settled_self hcommits
    have hholds := hg.entitled t (.inr hp)
    rw [← hnone] at hholds ht
    refine ⟨hg.books.unlock (hother hm) ht hholds, hg.entitled_move hm (fun _ _ => rfl) ?_⟩
    intro hw
    rcases hw with hw | hw <;> rw [hw] at hcommits <;> cases hcommits

omit [Fintype T] in
theorem log_of_ne (h : T → Hold) (hd : ∀ t c, a = .cont t → s.pc t ≠ .done c .ok) : log s a s' h = h := by
  unfold log
  split
  · rename_i t
    split
    · rename_i c hc
      exact absurd hc (hd t c rfl)
    · rfl
  · rfl

omit [Fintype T] in
theorem log_done (h : T → Hold) (hp : s.pc t = .done c .ok) :
    log s (.cont t) s' h = Function.update h t ((h t).returned c) := by
  simp only [log, hp]

/-- A call returns: what it decided becomes what its thread holds. -/
theorem granted_done (hg : Granted s h) {r : Errno} (hp : s.pc t = .done c r) (hm : Moves s s' t .idle)
    (hn : s'.rwRefcount = s.rwRefcount) : Granted s' (log s (.cont t) s' h) := by
  by_cases hr : r = .ok
  · subst hr
    rw [log_done h hp]
    have hother : ∀ u, u ≠ t → Function.update h t ((h t).returned c) u = h u :=
      fun u hu => Function.update_of_ne hu ..
    refine ⟨?_, hg.entitled_move hm hother nofun⟩
    rw [hn]
    refine hg.books.congr ?_
    intro u
    by_cases hu : u = t
    · subst hu
      rw [settled_of_none (hm.pc ▸ rfl), Function.update_self, settled, hp]
      rfl
    · exact hm.settled hother hu
  · rw [log_of_ne h fun u c' hu hc => by
      cases hu
      rw [hp] at hc
      exact hr (Pc.done.inj hc).2]
    refine hg.stay hm hn ?_ nofun
    rw [hp]
    cases r <;> first | rfl | exact absurd rfl hr

theorem granted_cont (hg : Granted s h) (hsd : Sided s) (hc : ContCase s t s') :
    Granted s' (log s (.cont t) s' h) := by
  have hlog : (∀ c, s.pc t ≠ .done c .ok) → log s (.cont t) s' h = h := by
    intro hne
    apply log_of_ne
    intro u c hu
    exact Act.cont.inj hu ▸ hne c
  cases hc with
  | locked c m p hp hl hpc =>
    rw [hlog (hp ▸ nofun)]
    rcases hpc with rfl | rfl
    · refine hg.stay (moves_setPc rfl) rfl (hp ▸ rfl) ?_
      intro hc
      rcases hc with hc | hc
      · cases hc
      · cases hc
        exact hg.entitled t (.inl hp)
    · exact hg.stay (moves_setPc rfl) rfl (hp ▸ rfl) nofun
  | test c hp ht =>
    rw [hlog (hp ▸ nofun)]
    exact granted_test hg hp ht
  | waits c side hp _ =>
    rw [hlog (hp ▸ nofun)]
    exact hg.stay (moves_setPc rfl) rfl (hp ▸ rfl) nofun
  | notOwner c side hp _ =>
    rw [hlog (hp ▸ nofun)]
    exact hg.stay (moves_setPc rfl) rfl (hp ▸ rfl) nofun
  | relocked c side r m hp _ =>
    rw [hlog (hp ▸ nofun)]
    exact hg.stay (moves_setPc rfl) rfl (hp ▸ rfl) nofun
  | again c side hp =>
    rw [hlog (hp ▸ nofun)]
    refine hg.stay (moves_setPc rfl) rfl (hp ▸ rfl) ?_
    intro hc
    -- an unlock is in no waiting loop
    have hcs := hsd t c side (hp ▸ rfl)
    rcases hc with hc | hc
    · cases hc
    · cases hc
      cases hcs
  | failed c side r hp hr =>
    rw [hlog (hp ▸ nofun)]
    refine hg.stay (moves_setPc rfl) rfl ?_ nofun
    rw [hp]
    cases r <;> first | rfl | exact absurd rfl hr
  | done c r hp => exact granted_done hg hp (moves_setPc rfl) rfl
  | sem hc =>
    cases hc with
    | signal hp =>
      rw [hlog (hp ▸ nofun)]
      exact hg.stay (moves_semRelease rfl) rfl (hp ▸ rfl) nofun
    | left hp =>
      rw [hlog (hp ▸ nofun)]
      exact hg.stay (moves_semRelease rfl) rfl (hp ▸ rfl) nofun
    | again hp =>
      rw [hlog (hp ▸ nofun)]
      exact hg.stay (moves_semRelease rfl) rfl (hp ▸ rfl) nofun
    | taken c side hp _ | gaveUp c side hp _ _ | suspended c side hp _ _ | locked hp | tried hp _ | failed hp _ =>
      rw [hlog (hp ▸ nofun)]
      exact hg.stay (moves_setPc rfl) rfl (hp ▸ rfl) nofun

theorem granted_step (hg : Granted s h) (hsd : Sided s) (hok : ByHolders (s, h) a) (hs : s.step a = some s') :
    Granted s' (log s a s' h) := by
  cases step_cases hs with
  | call t c ha hp _ hs' =>
    subst ha hs'
    refine hg.stay (moves_setPc rfl) rfl (hp ▸ rfl) ?_
    intro hc
    rcases hc with hc | hc
    · cases hc
      exact hok
    · cases hc
  | cont t ha _ hc =>
    subst ha
    exact granted_cont hg hsd hc
  | timeout t c side ha hp hs' =>
    subst ha hs'
    exact hg.stay (moves_setPc rfl) rfl (hp ▸ rfl) nofun

/-! ## The runs -/

omit [Fintype T] in
theorem runs_owned {ok : State T × (T → Hold) → Act T → Prop} {r : State T × (T → Hold)} (h : Runs ok r) :
    Owned r.1 ∧ Sided r.1 := by
  refine Run.Reach.inv (I := fun r => Owned r.1 ∧ Sided r.1) ?_ ?_ h
  · rintro ⟨s, g⟩ ⟨⟨-, -, -, -, -, hpc⟩, -⟩
    refine ⟨?_, ?_⟩
    · intro t ht
      rw [hpc] at ht
      cases ht
    · intro t c side ht
      rw [hpc] at ht
      cases ht
  · rintro ⟨s, g⟩ a ⟨s', g'⟩ ⟨ho, hsd⟩ _ ⟨hs, -⟩
    exact ⟨owned_step ho hs, sided_step hsd hs⟩

theorem runs_counted {ok : State T × (T → Hold) → Act T → Prop} {r : State T × (T → Hold)} (h : Runs ok r) :
    Counted r.1 := by
  refine Run.Reach.inv (I := fun r => Counted r.1) ?_ ?_ h
  · rintro ⟨s, g⟩ ⟨⟨-, -, hn, -, -, hpc⟩, -⟩
    intro side
    rw [waiters_eq_sum, hn, hpc]
    simp [Pc.waitsOn]
  · rintro ⟨s, g⟩ a ⟨s', g'⟩ hc _ ⟨hs, -⟩
    exact counted_step hc hs

theorem runs_granted {r : State T × (T → Hold)} (h : Runs ByHolders r) : Granted r.1 r.2 := by
  refine Run.Reach.inv_of (I := fun r => Granted r.1 r.2) (fun r hr => (runs_owned hr).2) ?_ ?_ h
  · rintro ⟨s, g⟩ ⟨⟨-, -, -, hr, -, hpc⟩, hg⟩
    have hset : settled s g = g := funext fun t => settled_of_none (congrArg (fun f => (f t).commits) hpc)
    rw [show g = fun _ => ⟨0, false⟩ from hg] at hset ⊢
    refine ⟨?_, ?_⟩
    · rw [hr, hset]
      refine .shared ?_ fun _ => rfl
      rw [Finset.sum_const_zero]
      rfl
    · intro t ht
      rw [hpc] at ht
      rcases ht with ht | ht <;> cases ht
  · rintro ⟨s, g⟩ a ⟨s', g'⟩ hg hsd hok ⟨hs, hlog⟩
    rw [show g' = log s a s' g from hlog]
    exact granted_step hg hsd hok hs

omit [DecidableEq T] [Fintype T] in
/-- While `rw_mutex` is free no call is decided and has not returned. -/
theorem Owned.settled (ho : Owned s) (hfree : s.rwMutex.owner = none) : settled s h = h := by
  funext t
  apply settled_of_none
  cases hc : (s.pc t).commits with
  | none => rfl
  | some c =>
    have hin : (s.pc t).inside = true := by
      cases hp : s.pc t <;> rw [hp] at hc <;> first | rfl | cases hc
    have hown := ho t hin
    rw [hfree] at hown
    cases hown

omit [DecidableEq T] in
theorem Books.excludes {n : ℤ} (hb : Books n H) : (n = -1 ↔ ∃! t, (H t).writes = true) ∧
    (n ≠ -1 → n = ∑ t, (H t).reads) ∧
      ∀ t, (H t).writes = true → ∀ u, (u ≠ t → (H u).writes = false) ∧ (H u).reads = 0 := by
  cases hb with
  | written v h1 hv hother hz =>
    have huniq : ∀ u, (H u).writes = true → u = v := by
      intro u hu
      by_contra hne
      rw [hother u hne] at hu
      cases hu
    refine ⟨iff_of_true h1 ⟨v, hv, huniq⟩, fun hne => absurd h1 hne, ?_⟩
    intro t ht u
    rw [huniq t ht]
    exact ⟨hother u, hz u⟩
  | shared hsum hnone =>
    have hno : ∀ t, (H t).writes ≠ true := by
      intro t ht
      rw [hnone t] at ht
      cases ht
    refine ⟨iff_of_false (by omega) ?_, fun _ => hsum, fun t ht => absurd ht (hno t)⟩
    rintro ⟨t, ht, -⟩
    exact hno t ht

end Books

theorem rwlockInit_init (T : Type) : (pthreadRwlockInit T).Init := ⟨rfl, rfl, rfl, rfl, rfl, rfl⟩

/-- A reader that unlocks wakes the writer. -/
example : (Run.exec (fun s a => s.step a) (pthreadRwlockInit (Fin 2)) [.call 0 .rdlock, .cont 0, .cont 0, .cont 0,
    .call 1 .wrlock, .cont 1, .cont 1, .cont 1, .cont 1, .call 0 .unlock, .cont 0, .cont 0, .cont 0]).map
      (fun s => s.pc 1) = some (.relock .wrlock .writers .ok) := by decide

end RtThread.Rwlock
