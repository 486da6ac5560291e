import Mathlib.Logic.Basic

/-!
# Runs of a labelled transition system

`Reach init step ok s`: state `s` ends a run from an initial state whose every
step `a`, taken in state `t`, satisfies `ok t a`.

* `Reach.inv`: what holds initially and is kept by every step holds in every
  reachable state.
* `Reach.inv_of`: the same, given an invariant already proved of the runs.
* `exec`, `Reach.exec`, `Reach.exec_ok`: running a step function on a list of actions.
* `Logged`, `Reach.logged`: a system that keeps a history next to its state.
* `trace`, `trace_sim`: two machines with outputs, of which one simulates the other.
-/

namespace Run

variable {σ α : Type*}

/-- The states reached by runs whose steps all satisfy `ok`. -/
inductive Reach (init : σ → Prop) (step : σ → α → σ → Prop) (ok : σ → α → Prop) : σ → Prop
  | init {s : σ} : init s → Reach init step ok s
  | step {s s' : σ} {a : α} : Reach init step ok s → ok s a → step s a s' → Reach init step ok s'

/-- Every step is allowed. -/
abbrev Any : σ → α → Prop := fun _ _ => True

variable {init : σ → Prop} {step : σ → α → σ → Prop} {ok : σ → α → Prop}

/-- **The invariant rule.** -/
theorem Reach.inv {I : σ → Prop} (h0 : ∀ s, init s → I s)
    (hstep : ∀ s a s', I s → ok s a → step s a s' → I s') {s : σ} (h : Reach init step ok s) : I s := by
  induction h with
  | init hs => exact h0 _ hs
  | step _ hok hst ih => exact hstep _ _ _ ih hok hst

/-- The invariant rule relative to an invariant `J` of the same runs. -/
theorem Reach.inv_of {I J : σ → Prop} (hJ : ∀ s, Reach init step ok s → J s)
    (h0 : ∀ s, init s → I s) (hstep : ∀ s a s', I s → J s → ok s a → step s a s' → I s') {s : σ}
    (h : Reach init step ok s) : I s := by
  induction h with
  | init hs => exact h0 _ hs
  | step hr hok hst ih => exact hstep _ _ _ ih (hJ _ hr) hok hst

/-- A run under a condition is a run. -/
theorem Reach.mono {ok' : σ → α → Prop} (hok : ∀ s a, ok s a → ok' s a) {s : σ}
    (h : Reach init step ok s) : Reach init step ok' s := by
  induction h with
  | init hs => exact .init hs
  | step _ ho hst ih => exact .step ih (hok _ _ ho) hst

/-- Taking the steps of a list, for a step function. -/
def exec (f : σ → α → Option σ) (s : σ) : List α → Option σ
  | [] => some s
  | a :: as => (f s a).bind fun s' => exec f s' as

theorem Reach.exec_of {f : σ → α → Option σ} (hf : ∀ s a s', f s a = some s' → ok s a ∧ step s a s')
    {s s' : σ} {as : List α} (h : Reach init step ok s) (he : exec f s as = some s') :
    Reach init step ok s' := by
  induction as generalizing s with
  | nil =>
    cases he
    exact h
  | cons a as ih =>
    simp only [Run.exec, Option.bind_eq_some_iff] at he
    obtain ⟨s₁, h₁, he⟩ := he
    exact ih (.step h (hf _ _ _ h₁).1 (hf _ _ _ h₁).2) he

theorem Reach.exec {f : σ → α → Option σ} {s s' : σ} {as : List α}
    (h : Reach init (fun s a s' => f s a = some s') Any s) (he : exec f s as = some s') :
    Reach init (fun s a s' => f s a = some s') Any s' :=
  h.exec_of (fun _ _ _ h => ⟨trivial, h⟩) he

/-- A run of a step function whose steps are all allowed, to a state that satisfies `P`. -/
theorem Reach.exec_ok (f : σ → α → Option σ) (ok : σ → α → Prop) [∀ s a, Decidable (ok s a)] {s : σ}
    (hs : init s) (as : List α) (P : σ → Bool)
    (he : (Run.exec (fun s a => if ok s a then f s a else none) s as).any P = true) :
    ∃ s', Reach init (fun s a s' => f s a = some s') ok s' ∧ P s' = true := by
  obtain ⟨s', hs', hP⟩ := (Option.any_eq_true _ _).1 he
  refine ⟨s', Reach.exec_of (fun s a s' h => ?_) (.init hs) hs', hP⟩
  split at h
  · rename_i hok
    exact ⟨hok, h⟩
  · cases h

/-- The steps of a system, with a history that `log` continues. -/
def Logged {γ : Type*} (step : σ → α → σ → Prop) (log : σ → α → σ → γ → γ) :
    σ × γ → α → σ × γ → Prop :=
  fun p a p' => step p.1 a p'.1 ∧ p'.2 = log p.1 a p'.1 p.2

/-- The history of a run follows it. -/
theorem Reach.logged {γ : Type*} (start : σ → γ) (log : σ → α → σ → γ → γ) {s : σ} :
    Reach init step ok s ↔ ∃ g, Reach (fun p => init p.1 ∧ p.2 = start p.1) (Logged step log)
      (fun p a => ok p.1 a) (s, g) := by
  constructor
  · intro h
    induction h with
    | @init s hs => exact ⟨start s, .init ⟨hs, rfl⟩⟩
    | @step s s' a _ hok hst ih =>
      obtain ⟨g, hg⟩ := ih
      exact ⟨log s a s' g, .step hg hok ⟨hst, rfl⟩⟩
  · rintro ⟨g, h⟩
    have hfst : ∀ p, Reach (fun p => init p.1 ∧ p.2 = start p.1) (Logged step log)
        (fun p a => ok p.1 a) p → Reach init step ok p.1 := by
      intro p hp
      induction hp with
      | init hs => exact .init hs.1
      | step _ hok hst ih => exact .step ih hok hst.1
    exact hfst _ h

/-- **The invariant rule** for runs with a history. -/
theorem Reach.inv_logged {γ : Type*} {start : σ → γ} {log : σ → α → σ → γ → γ} {I : σ → γ → Prop}
    (h0 : ∀ s, init s → I s (start s))
    (hstep : ∀ s g a s', I s g → ok s a → step s a s' → I s' (log s a s' g)) {p : σ × γ}
    (h : Reach (fun p => init p.1 ∧ p.2 = start p.1) (Logged step log) (fun p a => ok p.1 a) p) :
    I p.1 p.2 := by
  refine h.inv (I := fun p => I p.1 p.2) (fun p hp => ?_) fun p a p' hp hok hst => ?_
  · rw [hp.2]
    exact h0 _ hp.1
  · rw [hst.2]
    exact hstep _ _ _ _ hp hok hst.1

/-- A step function with a history, as long as the steps are allowed. -/
def logStep {γ : Type*} (f : σ → α → Option σ) (log : σ → α → σ → γ → γ) (ok : σ → α → Prop)
    [∀ s a, Decidable (ok s a)] (p : σ × γ) (a : α) : Option (σ × γ) :=
  if ok p.1 a then (f p.1 a).map fun s' => (s', log p.1 a s' p.2) else none

/-- A run of a step function with a history, to a state that satisfies `P`. -/
theorem Reach.exec_logged {γ : Type*} (f : σ → α → Option σ) (start : σ → γ)
    (log : σ → α → σ → γ → γ) (ok : σ → α → Prop) [∀ s a, Decidable (ok s a)] {s : σ} (hs : init s)
    (as : List α) (P : σ × γ → Bool) (he : (Run.exec (logStep f log ok) (s, start s) as).any P = true) :
    ∃ p, Reach (fun p => init p.1 ∧ p.2 = start p.1) (Logged (fun s a s' => f s a = some s') log)
      (fun p a => ok p.1 a) p ∧ P p = true := by
  obtain ⟨p, hp, hP⟩ := (Option.any_eq_true _ _).1 he
  refine ⟨p, Reach.exec_of (f := logStep f log ok) (fun p a p' h => ?_) (.init ⟨hs, rfl⟩) hp, hP⟩
  unfold logStep at h
  split at h
  · rename_i hok
    obtain ⟨s', hst, rfl⟩ := Option.map_eq_some_iff.1 h
    exact ⟨hok, hst, rfl⟩
  · cases h

/-- A run whose steps the history allows, to a state that satisfies `P`. -/
theorem Reach.exec_history {γ : Type*} (f : σ → α → Option σ) (start : σ → γ)
    (log : σ → α → σ → γ → γ) (ok : σ × γ → α → Prop) [∀ p a, Decidable (ok p a)] {s : σ} (hs : init s)
    (as : List α) (P : σ × γ → Bool)
    (he : (Run.exec (fun p a => if ok p a then (f p.1 a).map fun s' => (s', log p.1 a s' p.2) else none)
      (s, start s) as).any P = true) :
    ∃ p, Reach (fun p => init p.1 ∧ p.2 = start p.1) (Logged (fun s a s' => f s a = some s') log) ok p ∧
      P p = true := by
  obtain ⟨p, hp, hP⟩ := (Option.any_eq_true _ _).1 he
  refine ⟨p, Reach.exec_of (fun p a p' h => ?_) (.init ⟨hs, rfl⟩) hp, hP⟩
  split at h
  · rename_i hok
    obtain ⟨s', hst, rfl⟩ := Option.map_eq_some_iff.1 h
    exact ⟨hok, hst, rfl⟩
  · cases h

/-- The outputs of a machine on a list of inputs, and its last state. -/
def trace {β : Type*} (f : σ → α → β × σ) (s : σ) : List α → List β × σ
  | [] => ([], s)
  | a :: as => ((f s a).1 :: (trace f (f s a).2 as).1, (trace f (f s a).2 as).2)

/-- **The simulation rule** for machines with outputs. -/
theorem trace_sim {β τ : Type*} {f : σ → α → β × σ} {g : τ → α → β × τ} {R : σ → τ → Prop}
    (hstep : ∀ s t a, R s t → (f s a).1 = (g t a).1 ∧ R (f s a).2 (g t a).2) {s : σ} {t : τ}
    (h : R s t) (as : List α) :
    (trace f s as).1 = (trace g t as).1 ∧ R (trace f s as).2 (trace g t as).2 := by
  induction as generalizing s t with
  | nil => exact ⟨rfl, h⟩
  | cons a as ih =>
    obtain ⟨ho, hR⟩ := hstep s t a h
    obtain ⟨hos, hRs⟩ := ih hR
    exact ⟨by rw [trace, trace, ho, hos], hRs⟩

end Run
