import Mathlib.Data.List.Destutter
import Mathlib.Data.List.DropRight
import Mathlib.Data.Nat.Notation

/-!
# The last entries of a sequence

A bounded history: an entry that repeats the one before counts once, and of the entries that are left the last ones
are kept.

* `recent_concat`: a history can be kept up to date with one look at its last entry and its length.
-/

namespace Recent

variable {α : Type*} [DecidableEq α] {n : ℕ} {l : List α} {a b : α}

/-- The last `n` entries, without repetitions. -/
def recent (n : ℕ) (l : List α) : List α := (l.destutter (· ≠ ·)).rtake n

theorem destutter'_concat : (l ++ [b]).destutter' (· ≠ ·) a =
    if (l.destutter' (· ≠ ·) a).getLast? = some b then l.destutter' (· ≠ ·) a
    else l.destutter' (· ≠ ·) a ++ [b] := by
  induction l generalizing a with
  | nil =>
    rw [List.nil_append, List.destutter'_nil, List.destutter'_singleton, List.getLast?_singleton]
    by_cases h : a = b
    · rw [if_neg (not_not.2 h), if_pos (congrArg some h)]
    · rw [if_pos h, if_neg fun hab => h (Option.some.inj hab)]
      rfl
  | cons c l ih =>
    rw [List.cons_append]
    by_cases h : a = c
    · rw [List.destutter'_cons_neg _ (not_not.2 h), List.destutter'_cons_neg _ (not_not.2 h)]
      exact ih
    · rw [List.destutter'_cons_pos _ h, List.destutter'_cons_pos _ h, ih,
        List.getLast?_cons_of_ne_nil (List.destutter'_ne_nil _ _)]
      split
      · rfl
      · rw [List.cons_append]

theorem destutter_concat : (l ++ [b]).destutter (· ≠ ·) =
    if (l.destutter (· ≠ ·)).getLast? = some b then l.destutter (· ≠ ·) else l.destutter (· ≠ ·) ++ [b] := by
  cases l with
  | nil => rfl
  | cons a l =>
    rw [List.cons_append, List.destutter_cons', List.destutter_cons']
    exact destutter'_concat

omit [DecidableEq α] in
theorem getLast?_rtake (hn : 0 < n) : (l.rtake n).getLast? = l.getLast? := by
  induction l using List.reverseRecOn with
  | nil => rw [List.rtake_nil]
  | append_singleton l a _ =>
    obtain ⟨k, rfl⟩ : ∃ k, n = k + 1 := ⟨n - 1, by omega⟩
    rw [List.rtake_concat_succ, List.getLast?_concat, List.getLast?_concat]

omit [DecidableEq α] in
/-- One entry less, when there are too many. -/
theorem rtake_pred : l.rtake n = if (l.rtake (n + 1)).length < n + 1 then l.rtake (n + 1) else (l.rtake (n + 1)).tail := by
  unfold List.rtake
  rw [List.length_drop]
  split
  · rw [show l.length - n = l.length - (n + 1) by omega]
  · rw [List.tail_drop]
    congr 1
    omega

/-- **A new entry**: nothing changes when it repeats the last one, and the oldest one goes when there are `n`. -/
theorem recent_concat (hn : 0 < n) : recent n (l ++ [b]) =
    if (recent n l).getLast? = some b then recent n l
    else if (recent n l).length < n then recent n l ++ [b]
    else (recent n l).tail ++ [b] := by
  obtain ⟨k, rfl⟩ : ∃ k, n = k + 1 := ⟨n - 1, by omega⟩
  unfold recent
  rw [getLast?_rtake hn, destutter_concat]
  split
  · rfl
  · rw [List.rtake_concat_succ, rtake_pred]
    split <;> rfl

end Recent
