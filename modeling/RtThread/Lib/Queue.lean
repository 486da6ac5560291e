import Mathlib.Data.List.Basic
import Mathlib.Data.List.Perm.Basic
import Mathlib.Tactic.Tauto

/-!
# Queues kept in order by insertion

`insertBefore p x l` puts `x` before the first element that satisfies `p`, or at the end.
With `p y` saying that `y` comes strictly after `x`, it keeps a queue sorted and lets equal
elements wait in the order in which they came.

* `insertBefore_eq`, `mem_insertBefore`, `perm_insertBefore`: what the new queue holds.
* `pairwise_insertBefore`: when a relation between earlier and later elements survives.

A walk that stands at `v` has `l.dropWhile (· ≠ v)` before it.

* `mem_dropWhile_erase`, `mem_dropWhile_append`: what it has before it stays, as the list changes elsewhere.
* `mem_dropWhile_next`: it goes on.
-/

namespace Queue

variable {α : Type*}

/-- Put `x` before the first element that satisfies `p`. -/
def insertBefore (p : α → Bool) (x : α) : List α → List α
  | [] => [x]
  | y :: l => if p y then x :: y :: l else y :: insertBefore p x l

/-- The queue splits where `x` goes in. -/
theorem insertBefore_eq (p : α → Bool) (x : α) (l : List α) :
    ∃ l₁ l₂, l = l₁ ++ l₂ ∧ insertBefore p x l = l₁ ++ x :: l₂ ∧ (∀ y ∈ l₁, p y = false) ∧
      ∀ y ∈ l₂.head?, p y = true := by
  induction l with
  | nil => exact ⟨[], [], rfl, rfl, by simp, by simp⟩
  | cons y l ih =>
    obtain ⟨l₁, l₂, rfl, h, h₁, h₂⟩ := ih
    unfold insertBefore
    by_cases hy : p y = true
    · exact ⟨[], y :: (l₁ ++ l₂), rfl, by rw [if_pos hy]; rfl, by simp, by simpa using hy⟩
    · refine ⟨y :: l₁, l₂, rfl, by rw [if_neg hy, h]; rfl, fun z hz => ?_, h₂⟩
      rcases List.mem_cons.1 hz with rfl | hz
      · simpa using hy
      · exact h₁ z hz

theorem perm_insertBefore (p : α → Bool) (x : α) (l : List α) :
    (insertBefore p x l).Perm (x :: l) := by
  obtain ⟨l₁, l₂, rfl, h, -⟩ := insertBefore_eq p x l
  rw [h]
  exact List.perm_middle

@[simp] theorem mem_insertBefore {p : α → Bool} {x y : α} {l : List α} :
    y ∈ insertBefore p x l ↔ y = x ∨ y ∈ l := by
  rw [(perm_insertBefore p x l).mem_iff, List.mem_cons]

/-- **Insertion keeps the order** `R` if `x` may follow the elements it passes and precede
the others; once an element satisfies `p`, so do all behind it. -/
theorem pairwise_insertBefore {R : α → α → Prop} {p : α → Bool} {x : α} {l : List α}
    (hl : l.Pairwise R) (hp : l.Pairwise fun a b => p a = true → p b = true)
    (hpass : ∀ y ∈ l, p y = false → R y x) (hstop : ∀ y ∈ l, p y = true → R x y) :
    (insertBefore p x l).Pairwise R := by
  obtain ⟨l₁, l₂, rfl, h, h₁, h₂⟩ := insertBefore_eq p x l
  rw [h]
  rw [List.pairwise_append] at hl hp
  have hrest : ∀ y ∈ l₂, p y = true := by
    rcases l₂ with _ | ⟨z, l₂⟩
    · simp
    · intro y hy
      have hz : p z = true := h₂ z rfl
      rcases List.mem_cons.1 hy with rfl | hy
      · exact hz
      · exact (List.pairwise_cons.1 hp.2.1).1 y hy hz
  refine List.pairwise_append.2 ⟨hl.1, List.pairwise_cons.2 ⟨fun y hy => ?_, hl.2.1⟩,
    fun a ha b hb => ?_⟩
  · exact hstop y (List.mem_append_right _ hy) (hrest y hy)
  · rcases List.mem_cons.1 hb with rfl | hb
    · exact hpass a (List.mem_append_left _ ha) (h₁ a ha)
    · exact hl.2.2 a ha b hb

/-! ## Walks -/

variable [DecidableEq α] {v w y : α} {l m : List α}

theorem mem_dropWhile_erase (hv : v ≠ y) (hw : w ≠ y) (h : w ∈ l.dropWhile (· ≠ v)) :
    w ∈ (l.erase y).dropWhile (· ≠ v) := by
  induction l with
  | nil => exact h
  | cons x l ih =>
    by_cases hxv : x = v
    · subst hxv
      rw [List.erase_cons_tail (by simpa using hv)]
      rw [List.dropWhile_cons_of_neg (by simp)] at h ⊢
      rcases List.mem_cons.1 h with rfl | h
      · exact List.mem_cons_self
      · exact List.mem_cons_of_mem _ ((List.mem_erase_of_ne hw).2 h)
    · rw [List.dropWhile_cons_of_pos (by simpa using hxv)] at h
      by_cases hxy : x = y
      · subst hxy
        rwa [List.erase_cons_head]
      · rw [List.erase_cons_tail (by simpa using hxy), List.dropWhile_cons_of_pos (by simpa using hxv)]
        exact ih h

theorem mem_dropWhile_append (h : w ∈ l.dropWhile (· ≠ v)) : w ∈ (l ++ m).dropWhile (· ≠ v) := by
  rw [List.dropWhile_append]
  split
  · rename_i he
    rw [List.isEmpty_iff.1 he] at h
    cases h
  · exact List.mem_append_left _ h

/-- **The walk goes on** from `v`, and leaves only `v` behind. -/
theorem mem_dropWhile_next (hl : l.Nodup) (h : w ∈ l.dropWhile (· ≠ v)) :
    w = v ∨ ∃ u ∈ l, (l.dropWhile (· ≠ v)).tail.head? = some u ∧ w ∈ l.dropWhile (· ≠ u) := by
  induction l with
  | nil => cases h
  | cons x l ih =>
    have hx := List.nodup_cons.1 hl
    by_cases hxv : x = v
    · subst hxv
      rw [List.dropWhile_cons_of_neg (by simp)] at h ⊢
      rcases List.mem_cons.1 h with rfl | h
      · exact .inl rfl
      cases l with
      | nil => cases h
      | cons u l =>
        have hxu : x ≠ u := fun e => hx.1 (e ▸ List.mem_cons_self)
        refine .inr ⟨u, by simp, rfl, ?_⟩
        rwa [List.dropWhile_cons_of_pos (by simpa using hxu), List.dropWhile_cons_of_neg (by simp)]
    · rw [List.dropWhile_cons_of_pos (by simpa using hxv)] at h ⊢
      obtain rfl | ⟨u, hu, hn, hw⟩ := ih hx.2 h
      · exact .inl rfl
      · have hxu : x ≠ u := fun e => hx.1 (e ▸ hu)
        exact .inr ⟨u, List.mem_cons_of_mem _ hu, hn,
          by rwa [List.dropWhile_cons_of_pos (by simpa using hxu)]⟩

theorem head_dropWhile (h : v ∈ l) : (l.dropWhile (· ≠ v)).head? = some v := by
  induction l with
  | nil => cases h
  | cons x l ih =>
    by_cases hxv : x = v
    · subst hxv
      rw [List.dropWhile_cons_of_neg (by simp)]
      rfl
    · rw [List.dropWhile_cons_of_pos (by simpa using hxv)]
      exact ih ((List.mem_cons.1 h).resolve_left (Ne.symm hxv))

end Queue
