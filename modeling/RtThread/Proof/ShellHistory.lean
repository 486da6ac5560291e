import RtThread.Spec.ShellHistory
import RtThread.Proof.Shell

/-!
# The history of the shell keeps the last lines

As long as no key leaves less than one character of the line free.

* `kept_concat`: what is kept follows from what was kept and the new line.
* `step_history`: of all keys, only those that end a line change the history.
* `history_kept`: **the history is that of the lines entered.**
* `discard_repeats`: a line of 80 characters is discarded, and what is left of it makes the next line differ from the
  one before.
-/

namespace RtThread.Shell

open Buffer Recent Editing

variable {s s' : FinshShell} {e : Editor} {env : Env} {ch : Byte} {k : Env × Byte} {lines : List Text} {text : Text}

/-! ## The lines -/

theorem kept_nil : kept [] = Editor.init.history := rfl

/-- **A line is entered**: nothing is kept of an empty one, and of one that repeats the line before. -/
theorem kept_concat : kept (lines ++ [text]) = Editor.remember (kept lines) text := by
  unfold kept Editor.remember
  rw [List.filter_append]
  by_cases h0 : text = []
  · rw [if_pos (.inl h0), List.filter_cons_of_neg (by simp [h0]), List.filter_nil, List.append_nil]
  · rw [List.filter_cons_of_pos (by simp [h0]), List.filter_nil, recent_concat (by decide)]
    by_cases hlast : (recent FINSH_HISTORY_LINES (lines.filter (· ≠ []))).getLast? = some text
    · rw [if_pos hlast, if_pos (.inr hlast)]
    · rw [if_neg hlast, if_neg (not_or.2 ⟨h0, hlast⟩)]

/-! ## The keys -/

theorem not_ends_of {c : Byte} (h : k.2 = c) (hc : c ≠ 0x0d ∧ c ≠ 0x0a) : ¬Ends k := by
  rintro (hd | hd)
  · exact hc.1 (h.symm.trans hd)
  · exact hc.2 (h.symm.trans hd)

theorem recallLine_history (e : Editor) (i : ℕ) : (e.recallLine i).history = e.history := by
  unfold Editor.recallLine
  split <;> rfl

theorem character_history : (e.character env ch).1.history =
    if Ends (env, ch) then Editor.remember e.history e.cursor.text else e.history := by
  unfold Editor.character
  by_cases h0 : ch = 0 ∨ ch = 0xff
  · rw [if_pos h0, if_neg]
    rintro (h | h) <;> subst h <;> revert h0 <;> decide
  rw [if_neg h0]
  by_cases htab : ch = 0x09
  · rw [if_pos htab, if_neg (not_ends_of htab (by decide))]
  rw [if_neg htab]
  by_cases hback : ch = 0x7f ∨ ch = 0x08
  · rw [if_pos hback, if_neg]
    rintro (h | h) <;> subst h <;> revert hback <;> decide
  rw [if_neg hback]
  by_cases henter : ch = 0x0d ∨ ch = 0x0a
  · rw [if_pos henter, if_pos (show Ends (env, ch) from henter)]
    rfl
  · rw [if_neg henter, if_neg (show ¬Ends (env, ch) from henter)]

/-- **A key changes the history** only when it ends a line. -/
theorem step_history : (e.step k).1.history =
    if Ends k then Editor.remember e.history e.cursor.text else e.history := by
  obtain ⟨env, ch⟩ := k
  unfold Editor.step
  dsimp only
  by_cases hesc : ch = 0x1b
  · rw [if_pos hesc, if_neg (not_ends_of hesc (by decide))]
  rw [if_neg hesc]
  cases e.stat with
  | waitNormal => exact character_history
  | waitSpecKey =>
    dsimp only
    by_cases hspec : ch = 0x5b
    · rw [if_pos hspec, if_neg (not_ends_of hspec (by decide))]
    · rw [if_neg hspec]
      exact character_history
  | waitFuncKey =>
    dsimp only
    by_cases hup : ch = 0x41
    · rw [if_pos hup, if_neg (not_ends_of hup (by decide)), Editor.up]
      split
      · rfl
      · exact recallLine_history _ _
    rw [if_neg hup]
    by_cases hdown : ch = 0x42
    · rw [if_pos hdown, if_neg (not_ends_of hdown (by decide)), Editor.down]
      split
      · exact recallLine_history _ _
      · exact recallLine_history _ _
    rw [if_neg hdown]
    by_cases hleft : ch = 0x44
    · rw [if_pos hleft, if_neg (not_ends_of hleft (by decide))]
    rw [if_neg hleft]
    by_cases hright : ch = 0x43
    · rw [if_pos hright, if_neg (not_ends_of hright (by decide))]
    · rw [if_neg hright]
      exact character_history

/-! ## The keys one after the other -/

/-- The line that the shell holds is the text of the editor. -/
theorem Shows.line_eq (h : Shows s e) : s.line.take s.linePosition = e.cursor.text := by
  have hread := h.line.read
  unfold Buffer.read at hread
  split at hread
  · rw [h.position]
    simpa using hread
  · cases hread

theorem Shows.remembers (h : Shows s e) (hkept : e.history = kept lines) : Remembers s lines where
  count := by rw [h.count, hkept]
  rows := by rw [h.count, h.rows, hkept]
  current := by
    rw [h.current, h.count]
    exact h.currentLe

/-- **A sequence of keys**, after the lines `lines`: the history goes on with the lines that it enters. -/
theorem run_remembers (h : Shows s e) (hkept : e.history = kept lines) {ks : List (Env × Byte)} (hfit : e.AllFit ks) :
    ∃ s' out, run s ks = some (s', out) ∧ Remembers s' (lines ++ entered s ks) := by
  induction ks generalizing s e lines with
  | nil =>
    refine ⟨s, [], rfl, ?_⟩
    rw [entered, List.append_nil]
    exact h.remembers hkept
  | cons k ks ih =>
    obtain ⟨hk, hrest⟩ := hfit
    obtain ⟨s₁, hstep, h₁⟩ := step_shows h hk
    have hkept₁ : (e.step k).1.history = kept (lines ++ if Ends k then [s.line.take s.linePosition] else []) := by
      rw [step_history, h.line_eq, hkept]
      split
      · exact kept_concat.symm
      · rw [List.append_nil]
    obtain ⟨s', out, hrun, hs'⟩ := ih h₁ hkept₁ hrest
    refine ⟨s', (e.step k).2 ++ out, ?_, ?_⟩
    · simp only [run, hstep, Option.bind_eq_bind, Option.bind_some, hrun]
    · rw [entered, hstep]
      rwa [List.append_assoc] at hs'

/-- **The history is that of the lines entered**, at every point of a sequence of keys that leave room for the zero. -/
theorem history_kept (ks : List (Env × Byte)) (h : Editor.init.AllFit ks) :
    ∃ s out, run FinshShell.init ks = some (s, out) ∧ Remembers s (entered FinshShell.init ks) :=
  run_remembers init_shows kept_nil.symm h

instance (env : Env) (ch : Byte) (text : Text) : Decidable (Editor.RoomFor env ch text) := by
  unfold Editor.RoomFor
  infer_instance

instance (e : Editor) (k : Env × Byte) : Decidable (e.Fits k) := by
  unfold Editor.Fits
  infer_instance

instance decidableAllFit (e : Editor) : (ks : List (Env × Byte)) → Decidable (e.AllFit ks)
  | [] => instDecidableTrue
  | k :: ks =>
    have := decidableAllFit (e.step k).1 ks
    inferInstanceAs (Decidable (e.Fits k ∧ (e.step k).1.AllFit ks))

/-- The keys `a`, enter, `a`, enter, `b`, enter, twice up, enter. -/
theorem history_kept_recalled :
    ∃ s out, run FinshShell.init (([0x61, 0x0d, 0x61, 0x0d, 0x62, 0x0d, 0x1b, 0x5b, 0x41, 0x1b, 0x5b, 0x41, 0x0d] :
        List Byte).map (Env.bare, ·)) = some (s, out) ∧
      Remembers s (entered FinshShell.init
        (([0x61, 0x0d, 0x61, 0x0d, 0x62, 0x0d, 0x1b, 0x5b, 0x41, 0x1b, 0x5b, 0x41, 0x0d] : List Byte).map
          (Env.bare, ·))) := by
  exact history_kept _ (by decide)

/-- The keys `a`, enter, 80 times `x`, `a`, `b`, backspace, enter. -/
def discarding : List (Env × Byte) :=
  (([0x61, 0x0d] : List Byte) ++ List.replicate 80 0x78 ++ [0x61, 0x62, 0x08, 0x0d]).map (Env.bare, ·)

/-- **A discarded line is left in the buffer**: the line `a` is entered twice, and it is in the history twice. -/
theorem discard_repeats : ∃ s out, run FinshShell.init discarding = some (s, out) ∧
    (∀ text ∈ entered FinshShell.init discarding, text.length < FINSH_CMD_SIZE) ∧
    ¬Remembers s (entered FinshShell.init discarding) := by
  have hlines : entered FinshShell.init discarding = [[0x61], [0x61]] := by
    set_option maxRecDepth 20000 in decide
  have hcount : (run FinshShell.init discarding).any (fun r => r.1.historyCount == 2) = true := by
    set_option maxRecDepth 20000 in decide
  obtain ⟨⟨s, out⟩, hrun, hs⟩ := (Option.any_eq_true _ _).1 hcount
  refine ⟨s, out, hrun, ?_, fun h => ?_⟩
  · rw [hlines]
    decide
  · have := h.count
    rw [hlines, beq_iff_eq.1 hs] at this
    revert this
    decide

end RtThread.Shell
