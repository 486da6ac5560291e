import RtThread.Spec.Completion
import Mathlib.Data.List.Nodup

/-!
# No done of a completion is lost

* `kept_step`: what holds between the flag, the waiting thread and the dones that no wait consumed.
* `none_lost`: where no done falls between the timeout of the waiting thread and its exit, each is
  consumed by one wait that returns `RT_EOK`, or leaves the flag set.
* `done_lost`: a done that falls there is cleared by the wait that returns `-RT_ETIMEOUT`.
-/

namespace RtThread.Completion

variable {C : Type} [DecidableEq C] {s s' : State C} {g : Log} {a : Act C}

/-- What the runs keep. -/
structure Kept (s : State C) (g : Log) : Prop where
  accounted : g.waits.flatMap Prod.snd ++ g.unconsumed = List.range g.dones
  completed : g.unconsumed ≠ [] → s.flag = true
  suspended : ∀ timeout, s.waiter = .suspended timeout → s.flag = false
  expired : s.waiter = .resumed .etimeout → s.flag = false
  timedOut : ∀ ds, (Err.etimeout, ds) ∈ g.waits → ds = []

/-- Entry `k` of a list whose parts have no element twice is the only one with element `d`. -/
theorem index_unique {α β : Type} {f : α → List β} {l : List α} (h : (l.flatMap f).Nodup) {j k : ℕ} {x y : α}
    {d : β} (hj : l[j]? = some x) (hk : l[k]? = some y) (hx : d ∈ f x) (hy : d ∈ f y) : j = k := by
  have hdis := List.pairwise_iff_getElem.1 (List.nodup_flatMap.1 h).2
  obtain ⟨hjl, rfl⟩ := List.getElem?_eq_some_iff.1 hj
  obtain ⟨hkl, rfl⟩ := List.getElem?_eq_some_iff.1 hk
  by_contra hne
  rcases Nat.lt_or_gt_of_ne hne with hlt | hlt
  · exact hdis j k hjl hkl hlt hx hy
  · exact hdis k j hkl hjl hlt hy hx

omit [DecidableEq C] in
/-- What is kept says that nothing is lost. -/
theorem Kept.noneLost (h : Kept s g) : NoneLost s g := by
  have hnd : (g.waits.flatMap Prod.snd ++ g.unconsumed).Nodup := h.accounted ▸ List.nodup_range
  obtain ⟨hwaits, -, hdisj⟩ := List.nodup_append'.1 hnd
  refine ⟨fun d hd => ?_, h.timedOut⟩
  have hmem : d ∈ g.waits.flatMap Prod.snd ++ g.unconsumed := h.accounted ▸ List.mem_range.2 hd
  rcases List.mem_append.1 hmem with hmem | hmem
  · left
    obtain ⟨⟨error, ds⟩, hw, hds⟩ := List.mem_flatMap.1 hmem
    cases error with
    | etimeout =>
      rw [h.timedOut ds hw] at hds
      cases hds
    | eok =>
      obtain ⟨k, hk⟩ := List.mem_iff_getElem?.1 hw
      refine ⟨k, ⟨ds, hk, hds⟩, ?_⟩
      rintro j ⟨ds', hj, hds'⟩
      exact index_unique hwaits hj hk hds' hds
  · right
    refine ⟨?_, h.completed (List.ne_nil_of_mem hmem)⟩
    rintro k ⟨ds, hk, hds⟩
    exact hdisj (List.mem_flatMap.2 ⟨_, List.mem_of_getElem? hk, hds⟩) hmem

omit [DecidableEq C] in
/-- A wait that returns and finds the flag set consumes what completed the completion. -/
theorem Kept.consume (h : Kept s g) {error : Err} (herr : error = .eok) :
    Kept { s with flag := false, waiter := .idle }
      { g with unconsumed := [], waits := g.waits ++ [(error, g.unconsumed)] } := by
  refine ⟨?_, fun hne => absurd rfl hne, nofun, nofun, fun ds hds => ?_⟩
  · rw [List.flatMap_append, List.append_nil, List.flatMap_singleton, h.accounted]
  · rcases List.mem_append.1 hds with hds | hds
    · exact h.timedOut ds hds
    · rw [List.mem_singleton, herr] at hds
      cases hds

omit [DecidableEq C] in
/-- A wait that returns and finds the flag clear consumes nothing. -/
theorem Kept.leave (h : Kept s g) (hflag : s.flag = false) (error : Err) :
    Kept { s with flag := false, waiter := .idle } { g with waits := g.waits ++ [(error, [])] } := by
  refine ⟨?_, fun hne => hflag.symm.trans (h.completed hne), nofun, nofun, fun ds hds => ?_⟩
  · rw [List.flatMap_append, List.flatMap_singleton, List.append_nil, h.accounted]
  · rcases List.mem_append.1 hds with hds | hds
    · exact h.timedOut ds hds
    · rw [List.mem_singleton] at hds
      cases hds
      rfl

omit [DecidableEq C] in
/-- A done completes the completion and becomes one that no wait has consumed. -/
theorem Kept.done (h : Kept s g) (hw : s.waiter ≠ .resumed .etimeout) :
    Kept s.done { g with dones := g.dones + 1, unconsumed := g.unconsumed ++ [g.dones] } := by
  have hflag : s.done.flag = true := by
    unfold State.done
    split <;> rfl
  refine ⟨?_, fun _ => hflag, fun timeout ht => ?_, fun he => ?_, h.timedOut⟩
  · rw [← List.append_assoc, h.accounted, List.range_succ]
  · unfold State.done at ht
    split at ht
    · cases ht
    · rename_i hns
      exact absurd ht (hns timeout)
  · unfold State.done at he
    split at he
    · cases he
    · exact absurd he hw

omit [DecidableEq C] in
/-- What a wait does that finds the thread in no call. -/
theorem Kept.wait (h : Kept s g) (hw : s.waiter = .idle) (timeout : ℤ) :
    Kept (s.wait timeout) (log s (.wait timeout) (s.wait timeout) g) := by
  by_cases hflag : s.flag = true
  · have hwait : s.wait timeout = { s with flag := false, waiter := .idle } := by
      rw [State.wait, if_pos hflag, ← hw]
    have hlog : log s (.wait timeout) (s.wait timeout) g =
        { g with unconsumed := [], waits := g.waits ++ [(.eok, g.unconsumed)] } := by
      simp [log, State.returns, hwait, hflag]
    rw [hlog, hwait]
    exact h.consume rfl
  · have hclear : s.flag = false := eq_false_of_ne_true hflag
    by_cases ht : timeout = 0
    · have hwait : s.wait timeout = { s with flag := false, waiter := .idle } := by
        rw [State.wait, if_neg hflag, if_pos ht, ← hclear, ← hw]
      have hlog : log s (.wait timeout) (s.wait timeout) g = { g with waits := g.waits ++ [(.etimeout, [])] } := by
        simp [log, State.returns, hclear, ht]
      rw [hlog, hwait]
      exact h.leave hclear .etimeout
    · have hwait : s.wait timeout = { s with waiter := .suspended timeout } := by
        rw [State.wait, if_neg hflag, if_neg ht]
      have hlog : log s (.wait timeout) (s.wait timeout) g = g := by
        simp [log, State.returns, hclear, ht]
      rw [hlog, hwait]
      exact ⟨h.accounted, h.completed, fun _ _ => hclear, nofun, h.timedOut⟩

/-- **Every step keeps it**, unless a done falls between the timeout of the waiting thread and its exit. -/
theorem kept_step (h : Kept s g) (hok : KeepsDone s a) (hs : s.step a = some s') :
    Kept s' (log s a s' g) := by
  cases a with
  | wait timeout =>
    simp only [State.step] at hs
    split at hs
    · rename_i hw
      cases hs
      exact h.wait hw timeout
    · cases hs
  | timer =>
    simp only [State.step] at hs
    split at hs
    · rename_i timeout hw
      split at hs
      · cases hs
        exact ⟨h.accounted, h.completed, nofun, fun _ => h.suspended timeout hw, h.timedOut⟩
      · cases hs
    · cases hs
  | resume =>
    simp only [State.step] at hs
    split at hs
    · rename_i error hw
      cases hs
      by_cases hflag : s.flag = true
      · -- the thread was resumed by a done: its timer finds the flag clear, and no done came after it
        have herr : error = .eok := by
          cases error with
          | eok => rfl
          | etimeout => simp [h.expired hw] at hflag
        have hlog : log s .resume { s with flag := false, waiter := .idle } g =
            { g with unconsumed := [], waits := g.waits ++ [(error, g.unconsumed)] } := by
          simp [log, State.returns, hw, hflag]
        rw [hlog]
        exact h.consume herr
      · have hlog : log s .resume { s with flag := false, waiter := .idle } g =
            { g with waits := g.waits ++ [(error, [])] } := by
          simp [log, State.returns, hw, hflag]
        rw [hlog]
        exact h.leave (eq_false_of_ne_true hflag) error
    · cases hs
  | test c =>
    simp only [State.step] at hs
    split at hs
    · cases hs
    · split at hs
      · cases hs
        exact h
      · cases hs
        exact ⟨h.accounted, h.completed, h.suspended, h.expired, h.timedOut⟩
  | done c =>
    simp only [State.step] at hs
    split at hs
    · cases hs
      obtain ⟨hacc, hcomp, hsusp, hexp, htime⟩ := h.done hok
      exact ⟨hacc, hcomp, hsusp, hexp, htime⟩
    · cases hs

/-- **No done is lost** in a run in which no done falls between the timeout of the waiting thread and its
exit. A done that falls there is consumed by the wait that returns `-RT_ETIMEOUT`. -/
theorem none_lost (C : Type) [DecidableEq C] :
    (∀ s g, Runs (C := C) KeepsDone (s, g) → NoneLost s g) ∧
      ∀ s g s', ∀ c : C, ¬KeepsDone s (.done c) → s.step (.done c) = some s' →
        ∃ s'', s'.step .resume = some s'' ∧
          ∃ ds, (Err.etimeout, ds ++ [g.dones]) ∈ (log s' .resume s'' (log s (.done c) s' g)).waits := by
  constructor
  · intro s g h
    have hinv : Kept s g := by
      refine Run.Reach.inv (I := fun p => Kept p.1 p.2) ?_ ?_ h
      · rintro ⟨s, g⟩ ⟨rfl, rfl⟩
        exact ⟨rfl, nofun, nofun, nofun, nofun⟩
      · rintro ⟨s, g⟩ a ⟨s', g'⟩ h hok ⟨hs, hg⟩
        obtain rfl : g' = log s a s' g := hg
        exact kept_step h hok hs
    exact hinv.noneLost
  · intro s g s' c hbad hs
    have hw : s.waiter = .resumed .etimeout := by
      by_contra hw
      exact hbad hw
    simp only [State.step] at hs
    split at hs
    · cases hs
      refine ⟨{ flag := false, waiter := .idle, tested := Function.update s.tested c false }, ?_,
        g.unconsumed, ?_⟩
      · simp only [State.step, State.done, hw]
      · simp [log, State.returns, State.done, hw]
    · cases hs

/-- A thread waits, a done resumes it, and its wait consumes the done; and a done comes after the timeout. -/
theorem none_lost_once :
    (∃ (s : State Unit) (g : Log), g.dones = 1 ∧ g.waits = [(.eok, [0])] ∧ NoneLost s g) ∧
      ∃ s' s'' : State Unit, (⟨false, .resumed .etimeout, fun _ => true⟩ : State Unit).step (.done ()) = some s' ∧
        s'.step .resume = some s'' := by
  constructor
  · obtain ⟨⟨s, g⟩, hr, h⟩ := Run.Reach.exec_logged (fun (s : State Unit) a => s.step a)
      (fun _ => (⟨0, [], []⟩ : Log)) log KeepsDone (show (rtCompletionInit Unit).Init from rfl)
      [.wait 5, .test (), .done (), .resume]
      (fun p => decide (p.2.dones = 1) && decide (p.2.waits = [(.eok, [0])])) (by decide)
    obtain ⟨hdones, hwaits⟩ := Bool.and_eq_true_iff.1 h
    exact ⟨s, g, of_decide_eq_true hdones, of_decide_eq_true hwaits, (none_lost Unit).1 s g hr⟩
  · have hstep : (⟨false, .resumed .etimeout, fun _ => true⟩ : State Unit).step (.done ()) =
        some ⟨true, .resumed .etimeout, Function.update (fun _ => true) () false⟩ := rfl
    obtain ⟨s'', hs, -⟩ := (none_lost Unit).2 _ ⟨0, [], []⟩ _ () (fun h => h rfl) hstep
    exact ⟨_, s'', hstep, hs⟩

/-- **A done is lost**: it falls between the timeout of the waiting thread and its exit. -/
theorem done_lost : ∃ (s : State Unit) (g : Log), Runs Run.Any (s, g) ∧ ¬NoneLost s g := by
  obtain ⟨⟨s, g⟩, hr, h⟩ := Run.Reach.exec_logged (fun (s : State Unit) a => s.step a)
    (fun _ => (⟨0, [], []⟩ : Log)) log Run.Any (show (rtCompletionInit Unit).Init from rfl)
    [.wait 5, .timer, .test (), .done (), .resume] (fun p => decide (p.2.waits = [(.etimeout, [0])])) (by decide)
  have hwaits : g.waits = [(.etimeout, [0])] := of_decide_eq_true h
  refine ⟨s, g, hr, fun hlost => ?_⟩
  have hnil := hlost.2 [0] (by rw [hwaits]; exact List.mem_singleton_self _)
  cases hnil

end RtThread.Completion
