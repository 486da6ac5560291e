import Mathlib.Data.List.Nodup
import Mathlib.Data.Option.Basic
import Mathlib.Logic.Function.Basic

/-!
# Singly linked lists

Nodes are linked through `next`, and `Chain next h l` says that the list from `h` on has the nodes `l`.

* `Chain.congr`, `Chain.update`: links of other nodes do not matter.
* `Chain.range`: nodes linked in a row.
* `Chain.push`, `Chain.append`, `Chain.insertAfter`: a node goes in at the front, behind the last one, or behind another.
* `Chain.removeBetween`, `Chain.removeAfter`: the nodes behind another go, or one of them.
-/

/-- The list from `h` on has the nodes `l`. -/
def Chain {α : Type*} (next : α → Option α) : Option α → List α → Prop
  | h, [] => h = none
  | h, x :: l => h = some x ∧ Chain next (next x) l

namespace Chain

variable {α : Type*} {next : α → Option α} {h : Option α} {x y : α} {l : List α}

@[simp] theorem nil : Chain next h [] ↔ h = none := Iff.rfl

@[simp] theorem cons : Chain next h (x :: l) ↔ h = some x ∧ Chain next (next x) l := Iff.rfl

theorem of_none (hc : Chain next none l) : l = [] := by
  cases l with
  | nil => rfl
  | cons x l => cases hc.1

theorem of_some (hc : Chain next (some x) l) : ∃ l', l = x :: l' ∧ Chain next (next x) l' := by
  cases l with
  | nil => cases hc
  | cons y l =>
    obtain ⟨hy, hc⟩ := hc
    cases hy
    exact ⟨l, rfl, hc⟩

/-- A list depends on the links of its nodes only. -/
theorem congr {next' : α → Option α} (hn : ∀ x ∈ l, next' x = next x) (hc : Chain next h l) : Chain next' h l := by
  induction l generalizing h with
  | nil => exact hc
  | cons x l ih =>
    refine ⟨hc.1, ?_⟩
    rw [hn x List.mem_cons_self]
    exact ih (fun y hy => hn y (List.mem_cons_of_mem _ hy)) hc.2

/-- **Nodes linked in a row**, from the `i`-th on. -/
theorem range {f : ℕ → α} {n i : ℕ} (hn : ∀ j, i ≤ j → j < i + n → next (f j) = some (f (j + 1)))
    (hlast : next (f (i + n)) = none) : Chain next (some (f i)) ((List.range' i (n + 1)).map f) := by
  induction n generalizing i with
  | zero => exact ⟨rfl, hlast⟩
  | succ n ih =>
    rw [List.range'_succ, List.map_cons]
    refine ⟨rfl, ?_⟩
    rw [hn i (Nat.le_refl i) (by omega)]
    exact ih (fun j h₁ h₂ => hn j (by omega) (by omega)) (by rwa [Nat.add_right_comm, Nat.add_assoc])

/-- **A node goes in behind another.** -/
theorem insertAfter {next' : α → Option α} {l₁ l₂ : List α} (hc : Chain next h (l₁ ++ y :: l₂)) (hy : next' y = some x)
    (hx : next' x = next y) (hsame : ∀ z ∈ l₁ ++ l₂, next' z = next z) : Chain next' h (l₁ ++ y :: x :: l₂) := by
  induction l₁ generalizing h with
  | nil =>
    refine ⟨hc.1, hy, ?_⟩
    rw [hx]
    exact congr hsame hc.2
  | cons z l₁ ih =>
    refine ⟨hc.1, ?_⟩
    rw [hsame z List.mem_cons_self]
    exact ih hc.2 fun w hw => hsame w (List.mem_cons_of_mem _ hw)

/-- The list behind a node. -/
theorem behind {l₁ l₂ : List α} (hc : Chain next h (l₁ ++ y :: l₂)) : Chain next (next y) l₂ := by
  induction l₁ generalizing h with
  | nil => exact hc.2
  | cons z l₁ ih => exact ih hc.2

/-- **The nodes behind another go.** -/
theorem removeBetween {next' : α → Option α} {l₁ l₂ k : List α} (hc : Chain next h (l₁ ++ y :: (k ++ l₂)))
    (hy : next' y = l₂.head?) (hsame : ∀ z ∈ l₁ ++ l₂, next' z = next z) : Chain next' h (l₁ ++ y :: l₂) := by
  induction l₁ generalizing h with
  | nil =>
    refine ⟨hc.1, ?_⟩
    rw [hy]
    cases l₂ with
    | nil => exact rfl
    | cons z l₂ =>
      refine ⟨rfl, ?_⟩
      rw [hsame z List.mem_cons_self]
      exact congr (fun w hw => hsame w (List.mem_cons_of_mem _ hw)) hc.2.behind
  | cons z l₁ ih =>
    refine ⟨hc.1, ?_⟩
    rw [hsame z List.mem_cons_self]
    exact ih hc.2 fun w hw => hsame w (List.mem_cons_of_mem _ hw)

theorem head_eq (hc : Chain next h l) : h = l.head? := by
  cases l with
  | nil => exact hc
  | cons x l => exact hc.1

/-- What a node links to. -/
theorem next_eq {l₁ l₂ : List α} (hc : Chain next h (l₁ ++ y :: l₂)) : next y = l₂.head? :=
  hc.behind.head_eq

/-- **The node behind another goes.** -/
theorem removeAfter {next' : α → Option α} {l₁ l₂ : List α} (hc : Chain next h (l₁ ++ y :: x :: l₂))
    (hy : next' y = next x) (hsame : ∀ z ∈ l₁ ++ l₂, next' z = next z) : Chain next' h (l₁ ++ y :: l₂) := by
  have hx : next x = l₂.head? := hc.behind.2.head_eq
  exact removeBetween (k := [x]) hc (hy.trans hx) hsame

variable [DecidableEq α]

/-- Links of other nodes do not matter. -/
theorem update {v : Option α} (hx : x ∉ l) : Chain (Function.update next x v) h l ↔ Chain next h l := by
  induction l generalizing h with
  | nil => exact Iff.rfl
  | cons y l ih =>
    rw [List.mem_cons, not_or] at hx
    rw [cons, cons, Function.update_of_ne (Ne.symm hx.1), ih hx.2]

/-- **A node goes in at the front.** -/
theorem push (hc : Chain next h l) (hx : x ∉ l) : Chain (Function.update next x h) (some x) (x :: l) := by
  refine ⟨rfl, ?_⟩
  rw [Function.update_self, update hx]
  exact hc

/-- **A node goes in behind the last one.** -/
theorem append (hc : Chain next h (l ++ [y])) (hnd : (l ++ [y]).Nodup) (hx : x ∉ l ++ [y]) :
    Chain (Function.update (Function.update next x none) y (some x)) h (l ++ [y, x]) := by
  induction l generalizing h with
  | nil =>
    have hxy : x ≠ y := by simpa using hx
    exact ⟨hc.1, by rw [Function.update_self], by rw [Function.update_of_ne hxy, Function.update_self]; rfl⟩
  | cons z l ih =>
    rw [List.cons_append] at hc hnd hx ⊢
    obtain ⟨hz, hnd⟩ := List.nodup_cons.1 hnd
    rw [List.mem_cons, not_or] at hx
    have hzy : z ≠ y := by
      rintro rfl
      exact hz (List.mem_append_right _ List.mem_cons_self)
    refine ⟨hc.1, ?_⟩
    rw [Function.update_of_ne hzy, Function.update_of_ne (Ne.symm hx.1)]
    exact ih hc.2 hnd hx.2

/-- **The node that links to another** is the one in front of it. -/
theorem find_previous {l₁ l₂ : List α} (hc : Chain next h (l₁ ++ y :: x :: l₂)) (hnd : (l₁ ++ y :: x :: l₂).Nodup) :
    (l₁ ++ y :: x :: l₂).find? (fun z => next z == some x) = some y := by
  refine List.find?_eq_some_iff_append.2 ⟨by simp [hc.next_eq], l₁, x :: l₂, rfl, fun z hz => ?_⟩
  obtain ⟨k₁, k₂, rfl⟩ := List.append_of_mem hz
  rw [List.append_assoc, List.cons_append] at hc hnd
  have hnext := hc.next_eq
  -- what is behind `z` is not `x` yet
  have hx : x ∉ k₂ ++ [y] := by
    intro hmem
    have hsplit : k₁ ++ z :: (k₂ ++ y :: x :: l₂) = (k₁ ++ [z]) ++ ((k₂ ++ [y]) ++ x :: l₂) := by simp
    rw [hsplit] at hnd
    exact (List.nodup_append.1 (List.nodup_append.1 hnd).2.1).2.2 x hmem x List.mem_cons_self rfl
  cases k₂ with
  | nil =>
    rw [hnext]
    simpa using fun heq : y = x => hx (by simp [heq])
  | cons w k₂ =>
    rw [hnext]
    simpa using fun heq : w = x => hx (by simp [heq])

end Chain
