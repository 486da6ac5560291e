import RtThread.Lib.Run
import Mathlib.Order.Basic
import Mathlib.Data.Nat.Init

/-!
# Infinite executions

At each time there is a step, or nothing happens.

* `Execution.inv`: what holds at the start and is kept by every step always holds.
* `ends_of_measure`: what goes on while a measure falls again and again comes to its end.
-/

namespace Run

variable {σ α : Type*} {step : σ → α → σ → Prop} {s : ℕ → σ} {act : ℕ → Option α}

structure Execution (step : σ → α → σ → Prop) (s : ℕ → σ) (act : ℕ → Option α) : Prop where
  quiet : ∀ i, act i = none → s (i + 1) = s i
  step : ∀ i a, act i = some a → step (s i) a (s (i + 1))

/-- **The invariant rule.** -/
theorem Execution.inv (h : Execution step s act) {I : σ → Prop} (h0 : I (s 0))
    (hstep : ∀ s a s', I s → step s a s' → I s') (i : ℕ) : I (s i) := by
  induction i with
  | zero => exact h0
  | succ i ih =>
    cases hact : act i with
    | none =>
      rw [h.quiet i hact]
      exact ih
    | some a => exact hstep _ _ _ ih (h.step i a hact)

/-- **What goes on while a measure falls again and again comes to its end.** -/
theorem ends_of_measure {P : ℕ → Prop} {m : ℕ → ℕ} (hmono : ∀ i, P i → P (i + 1) → m (i + 1) ≤ m i)
    (hdown : ∀ i, P (i + 1) → P i) (hfall : ∀ i, P i → ∃ k ≥ i, P k ∧ (P (k + 1) → m (k + 1) < m k))
    {i : ℕ} (hi : P i) : ∃ k ≥ i, P k ∧ ¬P (k + 1) := by
  have hback : ∀ {j k : ℕ}, j ≤ k → P k → P j := by
    intro j k hjk hk
    induction hjk with
    | refl => exact hk
    | step _ ih => exact ih (hdown _ hk)
  have hle : ∀ {j k : ℕ}, j ≤ k → P k → m k ≤ m j := by
    intro j k hjk hk
    induction hjk with
    | refl => exact Nat.le_refl _
    | step _ ih => exact Nat.le_trans (hmono _ (hdown _ hk) hk) (ih (hdown _ hk))
  -- induction on what is left of the measure
  induction hn : m i using Nat.strong_induction_on generalizing i with
  | _ n ih =>
    obtain ⟨k, hik, hk, hfalls⟩ := hfall i hi
    by_cases hnext : P (k + 1)
    · have hlt : m (k + 1) < n := by
        have := hfalls hnext
        have := hle hik hk
        omega
      obtain ⟨j, hj, hend⟩ := ih _ hlt hnext rfl
      exact ⟨j, by omega, hend⟩
    · exact ⟨k, hik, hk, hnext⟩

end Run
