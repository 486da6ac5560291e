import RtThread.Spec.AtReader

/-!
# The AT reader does not sleep on unread input

* `ready_step`: what holds where the reader is about to wait, and where it waits.
* `reader_awake`: it waits only with nothing unread or an indication to come, in every run whose resets of
  `rx_notice` wipe no indication that is needed; a step that wipes one is followed by a sleep.
* `reader_sleeps`: an indication falls between the failed read and the reset.
-/

namespace RtThread.AtReader

open Sched Ipc

variable {s s' : State} {a : Act} {tickPerSecond : ℕ} {due : List ℕ}

/-- The take will not block, or it may; a reader that waits may. -/
def Ready (s : State) : Prop :=
  match s.reader with
  | .take time => time = 0 ∨ s.value ≠ 0 ∨ s.Noticed s.due
  | .blocked _ => s.Noticed s.due
  | _ => True

theorem Ready.awake (h : Ready s) : s.Awake := by
  intro time ht
  unfold Ready at h
  rw [ht] at h
  exact h

/-- Bytes that become readable are announced. -/
theorem noticed_receive (h : s.Noticed s.due) (data : List (BitVec 8)) :
    State.Noticed { s with unread := s.unread ++ data, due := data.length :: s.due } (data.length :: s.due) := by
  rcases h with h | ⟨size, hmem, hpos⟩
  · by_cases hdata : data = []
    · left
      show s.unread ++ data = []
      rw [h, hdata]
      rfl
    · exact .inr ⟨data.length, List.mem_cons_self, List.length_pos_iff.2 hdata⟩
  · exact .inr ⟨size, List.mem_cons_of_mem _ hmem, hpos⟩

/-- An indication of no bytes is no loss. -/
theorem noticed_erase (h : s.Noticed due) : s.Noticed (due.erase 0) := by
  refine h.imp_right ?_
  rintro ⟨size, hmem, hpos⟩
  exact ⟨size, (List.mem_erase_of_ne hpos.ne').2 hmem, hpos⟩

/-- **Every step keeps it**, unless a reset or a full semaphore loses an indication that is needed. -/
theorem ready_step (h : Ready s) (hok : s.KeepsNotice a) (hs : s.step tickPerSecond a = some s') : Ready s' := by
  cases a with
  | getchar timeout =>
    simp only [State.step] at hs
    split at hs
    · cases hs
      trivial
    · cases hs
  | reader =>
    simp only [State.step, State.readerStep] at hs
    split at hs
    · cases hs
    · cases hs
    · rename_i time hr
      split at hs
      · cases hs
        trivial
      · cases hs
        trivial
    · rename_i time hr
      cases hs
      simp only [State.KeepsNotice, hr] at hok
      exact hok.imp_right .inr
    · rename_i time hr
      unfold Ready at h
      rw [hr] at h
      split at hs
      · cases hs
        trivial
      · rename_i hvalue
        split at hs
        · cases hs
          trivial
        · rename_i htime
          cases hs
          exact (h.resolve_left htime).resolve_left hvalue
    · rename_i time result hr
      cases hs
      unfold Ready
      split_ifs <;> trivial
  | timer =>
    simp only [State.step] at hs
    split at hs
    · split at hs
      · cases hs
        trivial
      · cases hs
    · cases hs
  | receive data =>
    cases hs
    unfold Ready at h ⊢
    cases hr : s.reader with
    | take time =>
      rw [hr] at h
      exact h.imp_right fun h => h.imp_right fun h => noticed_receive h data
    | blocked time =>
      rw [hr] at h
      exact noticed_receive h data
    | _ => trivial
  | rxInd size =>
    simp only [State.step] at hs
    split at hs
    · cases hs
      by_cases hsize : size > 0
      · rw [State.atClientRxInd, if_pos hsize]
        unfold Ready State.release
        cases hr : s.reader with
        | take time =>
          simp only
          simp only [State.KeepsNotice, hr] at hok
          by_cases hvalue : s.value = -1
          · rcases hok with hok | hok | hok | hok
            · exact .inl hok
            · exact absurd hvalue hok
            · exact absurd hok hsize.ne'
            · exact .inr (.inr hok)
          · right
            left
            intro hzero
            exact hvalue (by bv_omega)
        | _ => simp only
      · obtain rfl : size = 0 := by omega
        rw [State.atClientRxInd, if_neg hsize]
        unfold Ready at h ⊢
        cases hr : s.reader with
        | take time =>
          rw [hr] at h
          exact h.imp_right fun h => h.imp_right noticed_erase
        | blocked time =>
          rw [hr] at h
          exact noticed_erase h
        | _ => trivial
    · cases hs

/-- **The reader does not sleep on unread input** in a run that keeps the indications it needs. Behind a step
that loses one, the reader goes to sleep on unread input. -/
theorem reader_awake (tickPerSecond : ℕ) :
    (∀ s, Run.Reach State.Init (fun s a s' => s.step tickPerSecond a = some s') State.KeepsNotice s → s.Awake) ∧
      ∀ (s : State) a s', ¬s.KeepsNotice a → s.step tickPerSecond a = some s' →
        ∃ s'', s'.step tickPerSecond .reader = some s'' ∧ ¬s''.Awake := by
  constructor
  · intro s h
    have hready : Ready s := by
      refine h.inv ?_ fun s a s' h hok hs => ready_step h hok hs
      rintro s rfl
      trivial
    exact hready.awake
  · intro s a s' hbad hs
    cases a with
    | reader =>
      cases hr : s.reader with
      | reset time =>
        simp only [State.KeepsNotice, hr, not_or] at hbad
        simp only [State.step, State.readerStep, hr, Option.some.injEq] at hs
        subst hs
        refine ⟨{ s with value := 0, reader := .blocked time }, ?_, fun h => hbad.2 (h time rfl)⟩
        simp only [State.step, State.readerStep]
        rw [if_neg (not_not.2 rfl), if_neg hbad.1]
      | _ => simp [State.KeepsNotice, hr] at hbad
    | rxInd size =>
      cases hr : s.reader with
      | take time =>
        simp only [State.KeepsNotice, hr, not_or, not_not] at hbad
        obtain ⟨htime, hvalue, hsize, hnone⟩ := hbad
        simp only [State.step, State.atClientRxInd, State.release, hr] at hs
        rw [if_pos (Nat.pos_of_ne_zero hsize)] at hs
        split at hs
        · cases hs
          refine ⟨{ s with due := s.due.erase size, value := 0, reader := .blocked time }, ?_,
            fun h => hnone (h time rfl)⟩
          have hzero : s.value + 1 = 0 := by
            rw [hvalue]
            rfl
          simp only [State.step, State.readerStep]
          rw [hzero, if_neg (not_not.2 rfl), if_neg htime]
        · cases hs
      | _ => simp [State.KeepsNotice, hr] at hbad
    | _ => simp [State.KeepsNotice] at hbad

/-- A byte is received, and its indication wakes the reader up. -/
theorem reader_awake_once :
    (∃ s : State, s.unread = [7#8] ∧ s.reader = .read (-1#32) ∧ s.Awake) ∧
      ∃ s s' s'' : State, s.step 1000 .reader = some s' ∧ s'.step 1000 .reader = some s'' ∧ ¬s''.Awake := by
  constructor
  · obtain ⟨s, hs, h⟩ := Run.Reach.exec_ok (fun s a => s.step 1000 a) State.KeepsNotice
      (show State.Init ⟨[], [], 0, .idle⟩ from rfl)
      [.getchar (-1), .reader, .reader, .reader, .receive [7#8], .rxInd 1, .reader]
      (fun s => decide (s.unread = [7#8]) && decide (s.reader = .read (-1#32))) (by decide)
    obtain ⟨hunread, hreader⟩ := Bool.and_eq_true_iff.1 h
    exact ⟨s, of_decide_eq_true hunread, of_decide_eq_true hreader, (reader_awake 1000).1 s hs⟩
  · have hbad : ¬State.KeepsNotice ⟨[7#8], [], 1, .reset (-1#32)⟩ .reader := by decide
    obtain ⟨s'', hs, h⟩ := (reader_awake 1000).2 _ _ ⟨[7#8], [], 0, .take (-1#32)⟩ hbad rfl
    exact ⟨⟨[7#8], [], 1, .reset (-1#32)⟩, _, s'', rfl, hs, h⟩

/-- **The reader sleeps on unread input**: a byte and its indication fall between the read that finds nothing and
the reset. -/
theorem reader_sleeps : ∃ s : State, Run.Reach State.Init (fun s a s' => s.step 1000 a = some s') Run.Any s ∧
    ¬s.Awake := by
  obtain ⟨s, hs, h⟩ := Run.Reach.exec_ok (fun s a => s.step 1000 a) Run.Any
    (show State.Init ⟨[], [], 0, .idle⟩ from rfl)
    [.getchar (-1), .reader, .receive [7#8], .rxInd 1, .reader, .reader]
    (fun s => decide (s.reader = .blocked (-1#32)) && decide (¬s.Noticed s.due)) (by decide)
  obtain ⟨hreader, hnone⟩ := Bool.and_eq_true_iff.1 h
  exact ⟨s, hs, fun hawake => of_decide_eq_true hnone (hawake _ (of_decide_eq_true hreader))⟩

end RtThread.AtReader
