import RtThread.Proof.ShellComplete

/-!
# The shell is a line editor

As long as no key leaves less than one character of the line free.

* `mshExec_reads`: what `msh_exec` does with a line stays inside it.
* `step_shows`: a key does to the line what it does to the text.
* `step_full`: a key that does not fit leaves the line, or leaves a line without a zero.
* `edits_iff`: **the shell edits** exactly the sequences of keys that fit.
-/

namespace RtThread.Shell

open Buffer Editing

variable {env : Env} {s : FinshShell} {e : Editor} {line cmd text : Text} {ch : Byte}

/-! ## What `msh_exec` reads -/

theorem strim_ok {rest : Text} (hz : 0 ∉ text) (hlen : text.length < 2 ^ 32) :
    ∃ text', strim (text ++ 0 :: rest) text.length = some (text' ++ 0 :: rest, text'.length) ∧ 0 ∉ text' := by
  induction text with
  | nil => exact ⟨[], rfl, hz⟩
  | cons c text ih =>
    rw [List.length_cons] at hlen
    rw [List.cons_append, strim]
    split
    · have hdec : (text.length + 1 + (2 ^ 32 - 1)) % 2 ^ 32 = text.length := by omega
      rw [List.length_cons, hdec]
      exact ih (fun h0 => hz (List.mem_cons_of_mem _ h0)) (by omega)
    · exact ⟨c :: text, rfl, hz⟩

theorem cmd0Size_ok (length : ℕ) (h : length < cmd.length) : ∃ size, cmd0Size cmd length = some size := by
  induction cmd generalizing length with
  | nil => exact absurd h (Nat.not_lt_zero _)
  | cons c cmd ih =>
    rw [cmd0Size]
    split
    · rename_i hc
      rw [List.length_cons] at h
      obtain ⟨size, hsize⟩ := ih (length - 1) (by omega)
      exact ⟨size + 1, by rw [hsize]; rfl⟩
    · exact ⟨0, rfl⟩

theorem truncateCmd_ok (h : 0 ∈ cmd) : ∃ name, truncateCmd cmd = some name := by
  induction cmd with
  | nil => exact absurd h List.not_mem_nil
  | cons c cmd ih =>
    rw [truncateCmd]
    split
    · exact ⟨[], rfl⟩
    · rename_i hc
      obtain rfl | h := List.mem_cons.1 h
      · exact absurd (.inr rfl) hc
      · obtain ⟨name, hname⟩ := ih h
        exact ⟨c :: name, by rw [hname]; rfl⟩

theorem zero_tail {c : Byte} {length : ℕ} (h : (c :: cmd)[length]? = some 0) (hl : length ≠ 0) :
    cmd[length - 1]? = some 0 := by
  obtain ⟨n, rfl⟩ : ∃ n, length = n + 1 := ⟨length - 1, by omega⟩
  rwa [List.getElem?_cons_succ] at h

/-- `msh_split` stops at the zero behind the command. -/
theorem mshSplit_ok (mode : Splitting) {length position : ℕ} {argv : List ℕ} (h : cmd[length]? = some 0) :
    ∃ r, mshSplit mode cmd length position argv = some r := by
  have hmap : ∀ {r : Option (List ℕ × Text)} (f : List ℕ × Text → List ℕ × Text), (∃ x, r = some x) →
      ∃ x, r.map f = some x := by
    rintro _ f ⟨x, rfl⟩
    exact ⟨f x, rfl⟩
  fun_induction mshSplit mode cmd length position argv with
  | case1 => exact absurd h (by simp)
  | case2 length position argv c cmd hc ih => exact hmap _ (ih (zero_tail h (by omega)))
  | case3 => exact ⟨_, rfl⟩
  | case4 cmd length position argv hl hc ih => exact hmap _ (ih (zero_tail h (by omega)))
  | case5 length position argv c cmd hc hl hq ih => exact hmap _ (ih (zero_tail h (by omega)))
  | case6 => exact ⟨_, rfl⟩
  | case7 length position argv c cmd hl hc ih => exact hmap _ (ih (zero_tail h hl))
  | case8 length position argv c cmd hl hc ih => exact hmap _ (ih (zero_tail h hl))
  | case9 => exact ⟨_, rfl⟩
  | case10 => exact ⟨_, rfl⟩
  | case11 cmd length position argv h0 h1 ih => exact hmap _ (ih (zero_tail h h0))
  | case12 length position argv h0 hq => exact absurd (zero_tail h h0) (by simp)
  | case13 length position argv h0 rest hq ih =>
    -- the quote behind the backslash is not the zero
    have h1 := zero_tail h h0
    have h2 : length - 1 ≠ 0 := by
      intro h2
      rw [h2] at h1
      simp at h1
    exact hmap _ (ih (zero_tail h1 h2))
  | case14 length position argv h0 d rest hd hq ih => exact hmap _ (ih (zero_tail h h0))
  | case15 c cmd length position argv h0 hq hb ih => exact hmap _ (ih (zero_tail h h0))

theorem mshExecCmd_ok {length : ℕ} (h : cmd[length]? = some 0) : ∃ r, mshExecCmd env cmd length = some r := by
  have hlt : length < cmd.length := (List.getElem?_eq_some_iff.1 h).1
  obtain ⟨size, hsize⟩ := cmd0Size_ok _ hlt
  rw [mshExecCmd, hsize]
  simp only [Option.bind_eq_bind, Option.bind_some]
  split
  · exact ⟨_, rfl⟩
  · split
    · obtain ⟨r, hr⟩ := mshSplit_ok .before h
      exact ⟨_, by rw [hr]; rfl⟩
    · exact ⟨_, rfl⟩

/-- `ls a`: the arguments begin at 0 and at 3. -/
example : (mshSplit .before [0x6c, 0x73, 0x20, 0x61, 0] 4 0 []).map (·.1) = some [0, 3] := by decide

/-- **`msh_exec`**, on a line that holds a text. -/
theorem mshExec_reads (h : Holds FINSH_CMD_SIZE line text) : ∃ r, mshExec env line text.length = some r := by
  have hs := h.short
  have hsize : FINSH_CMD_SIZE = 80 := rfl
  obtain ⟨text', htrim, hz⟩ := strim_ok h.noZero (by omega)
  rw [← h.split] at htrim
  rw [mshExec, htrim]
  simp only [Option.bind_eq_bind, Option.bind_some]
  split
  · exact ⟨_, rfl⟩
  · generalize List.replicate (FINSH_CMD_SIZE - text.length - 1) (0 : Byte) = rest
    have hzero : (text' ++ 0 :: rest)[text'.length]? = some 0 := by
      rw [List.getElem?_append_right (Nat.le_refl _), Nat.sub_self]
      rfl
    obtain ⟨r, hr⟩ := mshExecCmd_ok hzero
    rw [hr, Option.bind_some]
    cases r with
    | some r => exact ⟨_, rfl⟩
    | none =>
      obtain ⟨size, hsize⟩ := cmd0Size_ok _ (List.getElem?_eq_some_iff.1 hzero).1
      rw [hsize]
      simp only [Option.bind_some]
      split
      · exact ⟨_, rfl⟩
      · obtain ⟨name, hname⟩ := truncateCmd_ok (List.mem_append_right text' List.mem_cons_self)
        exact ⟨_, by rw [hname]; rfl⟩

/-! ## The line and the text -/

theorem u8_eq {n : ℕ} (h : n ≤ FINSH_CMD_SIZE) : u8 n = n := by
  have hsize : FINSH_CMD_SIZE = 80 := rfl
  rw [u8, Nat.mod_eq_of_lt]
  omega

/-- **The shell shows what the editor holds.** -/
structure Shows (s : FinshShell) (e : Editor) : Prop where
  stat : s.stat = e.stat
  line : Holds FINSH_CMD_SIZE s.line e.cursor.text
  position : s.linePosition = e.cursor.text.length
  curpos : s.lineCurpos = e.cursor.before.length
  current : s.currentHistory = e.current
  currentLe : e.current ≤ e.history.length
  count : s.historyCount = e.history.length
  countLe : e.history.length ≤ FINSH_HISTORY_LINES
  size : s.cmdHistory.length = FINSH_HISTORY_LINES
  rows : s.cmdHistory.take e.history.length = e.history.map (pad FINSH_CMD_SIZE)
  texts : ∀ t ∈ e.history, t.length < FINSH_CMD_SIZE ∧ 0 ∉ t

theorem init_shows : Shows FinshShell.init Editor.init where
  stat := rfl
  line := ⟨pad_nil.symm, by decide, List.not_mem_nil⟩
  position := rfl
  curpos := rfl
  current := rfl
  currentLe := Nat.le_refl _
  count := rfl
  countLe := Nat.zero_le _
  size := List.length_replicate
  rows := rfl
  texts := nofun

theorem Shows.ok (h : Shows s e) : s.Ok where
  cursor := by
    rw [h.curpos, h.position]
    exact e.cursor.before_le
  short := by
    rw [h.position]
    exact h.line.short
  zero := by
    rw [h.position]
    exact h.line.get_end
  noZero := by
    rw [h.position]
    exact fun i hi => h.line.get_before hi

/-- A new line, with the same history. -/
theorem Shows.withLine (h : Shows s e) {c : Cursor Byte} (hlen : c.text.length < FINSH_CMD_SIZE) (hz : 0 ∉ c.text) :
    Shows { s with line := pad FINSH_CMD_SIZE c.text, linePosition := c.text.length, lineCurpos := c.before.length }
      { e with cursor := c } :=
  { h with line := holds_pad hlen hz, position := rfl, curpos := rfl }

/-- The cursor elsewhere in the line. -/
theorem Shows.withCursor (h : Shows s e) {c : Cursor Byte} (hc : c.text = e.cursor.text) :
    Shows { s with lineCurpos := c.before.length } { e with cursor := c } :=
  { h with line := hc ▸ h.line, position := hc ▸ h.position, curpos := rfl }

theorem Shows.withStat (h : Shows s e) (stat : Stat) : Shows { s with stat := stat } { e with stat := stat } :=
  { h with stat := rfl }

/-! ## The history -/

theorem Shows.row (h : Shows s e) {i : ℕ} {t : Text} (ht : e.history[i]? = some t) :
    ∃ row, s.cmdHistory[i]? = some row ∧ Holds FINSH_CMD_SIZE row t := by
  have hi := (List.getElem?_eq_some_iff.1 ht).1
  obtain ⟨hlen, hz⟩ := h.texts t (List.mem_of_getElem? ht)
  have hrow := congrArg (·[i]?) h.rows
  simp only [List.getElem?_take_of_lt hi, List.getElem?_map, ht, Option.map_some] at hrow
  exact ⟨_, hrow, holds_pad hlen hz⟩

theorem recallLine_shows (h : Shows s e) {i : ℕ} (hi : i < e.history.length) :
    ∃ s', recallLine s i = some s' ∧ Shows s' (e.recallLine i) := by
  have ht : e.history[i]? = some e.history[i] := List.getElem?_eq_getElem hi
  generalize e.history[i] = t at ht
  obtain ⟨row, hrow, hholds⟩ := h.row ht
  have hu := u8_eq hholds.short.le
  have hline := h.withLine (c := .atEnd t) (by simpa using hholds.short) (by simpa using hholds.noZero)
  rw [Cursor.text_atEnd, ← hholds.eq] at hline
  refine ⟨{ s with currentHistory := i, line := row, linePosition := t.length, lineCurpos := t.length }, ?_, ?_⟩
  · rw [recallLine, hrow]
    simp only [Option.bind_eq_bind, Option.bind_some]
    rw [hholds.string (Nat.zero_le _), List.drop_zero, Option.bind_some, hu]
  · rw [Editor.recallLine, ht]
    exact { hline with current := rfl, currentLe := hi.le }

theorem upKey_shows (h : Shows s e) : ∃ s', upKey s = some s' ∧ Shows s' e.up := by
  rw [upKey, Editor.up, h.current]
  by_cases h0 : e.current = 0
  · rw [if_neg (by omega), if_pos h0]
    exact ⟨s, rfl, h⟩
  · rw [if_pos (by omega), if_neg h0]
    have := h.currentLe
    exact recallLine_shows h (by omega)

theorem downKey_shows (h : Shows s e) : ∃ s', downKey s = some s' ∧ Shows s' e.down := by
  rw [downKey, Editor.down, h.current, h.count]
  by_cases hlt : e.current + 1 < e.history.length
  · rw [if_pos (by omega), if_pos hlt]
    exact recallLine_shows h hlt
  · rw [if_neg (by omega), if_neg hlt]
    by_cases h0 : e.history.length = 0
    · rw [if_neg (by omega)]
      have hnone : e.history[e.history.length - 1]? = none := List.getElem?_eq_none (by omega)
      rw [Editor.recallLine, hnone]
      exact ⟨s, rfl, h⟩
    · rw [if_pos h0]
      exact recallLine_shows h (by omega)

/-- The comparison of `shell_push_history`, byte by byte, is one of texts. -/
theorem lastRow_iff (h : Shows s e) :
    s.cmdHistory[e.history.length - 1]? = some s.line ∧ e.history.length ≠ 0 ↔
      e.history.getLast? = some e.cursor.text := by
  rw [List.getLast?_eq_getElem?]
  constructor
  · rintro ⟨hrow, h0⟩
    have ht : e.history[e.history.length - 1]? = some e.history[e.history.length - 1] :=
      List.getElem?_eq_getElem (by omega)
    obtain ⟨row, hrow', hholds⟩ := h.row ht
    rw [hrow] at hrow'
    cases hrow'
    rw [ht, hholds.unique h.line]
  · intro ht
    have hlt := (List.getElem?_eq_some_iff.1 ht).1
    obtain ⟨row, hrow, hholds⟩ := h.row ht
    refine ⟨?_, by omega⟩
    rw [hrow, hholds.eq, ← h.line.eq]

/-- The row that a line is kept in. -/
theorem newRow (h : Shows s e) :
    ((read s.line 0 s.linePosition).bind fun text => blit (List.replicate FINSH_CMD_SIZE 0) 0 text) =
      some (pad FINSH_CMD_SIZE e.cursor.text) := by
  have hempty : Holds FINSH_CMD_SIZE (List.replicate FINSH_CMD_SIZE 0) (([] : Text) ++ []) :=
    ⟨pad_nil.symm, by decide, List.not_mem_nil⟩
  rw [h.position, h.line.read, Option.bind_some]
  exact hempty.overwrite (Nat.zero_le _) (by simpa using h.line.short.le)

theorem shellPushHistory_shows (h : Shows s e) :
    ∃ s', shellPushHistory s = some s' ∧
      Shows s' { e with
        history := Editor.remember e.history e.cursor.text
        current := (Editor.remember e.history e.cursor.text).length } := by
  have hsame : Shows { s with currentHistory := s.historyCount } { e with current := e.history.length } :=
    { h with current := h.count, currentLe := Nat.le_refl _ }
  rw [shellPushHistory, Editor.remember]
  by_cases hempty : e.cursor.text = []
  · have h0 : ¬s.linePosition ≠ 0 := by
      rw [h.position, hempty]
      simp
    rw [if_neg h0, if_pos (.inl hempty)]
    exact ⟨_, rfl, hsame⟩
  · have h0 : s.linePosition ≠ 0 := by
      rw [h.position]
      simpa using hempty
    have hlast := lastRow_iff h
    have hcount := h.countLe
    obtain ⟨text, hread, hblit⟩ := Option.bind_eq_some_iff.1 (newRow h)
    have hnew : ∀ {history : List Text}, history ⊆ e.history →
        ∀ t ∈ history ++ [e.cursor.text], t.length < FINSH_CMD_SIZE ∧ 0 ∉ t := by
      intro history hsub t ht
      obtain ht | ht := List.mem_append.1 ht
      · exact h.texts t (hsub ht)
      · rw [List.mem_singleton.1 ht]
        exact ⟨h.line.short, h.line.noZero⟩
    rw [if_pos h0]
    simp only [Option.bind_eq_bind]
    rw [hread, Option.bind_some, hblit, Option.bind_some, h.count]
    by_cases hfull : e.history.length ≥ FINSH_HISTORY_LINES
    · have hlen : e.history.length = FINSH_HISTORY_LINES := Nat.le_antisymm hcount hfull
      have hne : e.history.length ≠ 0 := by
        rw [hlen]
        decide
      rw [if_pos hfull, ← hlen]
      by_cases hsame' : e.history.getLast? = some e.cursor.text
      · rw [if_neg (not_not.2 (hlast.2 hsame').1), if_pos (.inr hsame'), ← h.count]
        have hsame'' := hsame
        rw [← h.count] at hsame''
        exact ⟨_, rfl, hsame''⟩
      · have hdiff : s.cmdHistory[e.history.length - 1]? ≠ some s.line := fun hrow => hsame' (hlast.1 ⟨hrow, hne⟩)
        rw [if_pos hdiff, if_neg (by tauto), if_neg (by omega)]
        have hrows : s.cmdHistory = e.history.map (pad FINSH_CMD_SIZE) := by
          rw [← h.rows, List.take_of_length_le (by rw [h.size, hlen])]
        have hlen' : (e.history.tail ++ [e.cursor.text]).length = e.history.length := by
          rw [List.length_append, List.length_tail, List.length_singleton]
          omega
        refine ⟨_, rfl, { h with
          current := hlen'.symm, currentLe := Nat.le_refl _, count := hlen'.symm, countLe := hlen'.le.trans hcount
          size := ?_, rows := ?_, texts := hnew (List.tail_sublist _).subset }⟩
        · rw [List.length_append, List.length_drop, h.size, List.length_singleton]
          rfl
        · rw [hlen', hrows, List.drop_one, ← List.map_tail, List.map_append]
          apply List.take_of_length_le
          rw [List.length_append, List.length_map, List.length_tail, List.length_singleton]
          omega
    · rw [if_neg hfull]
      by_cases hsame' : e.history.getLast? = some e.cursor.text
      · have hdiff : ¬(e.history.length = 0 ∨ s.cmdHistory[e.history.length - 1]? ≠ some s.line) := by
          have := hlast.2 hsame'
          tauto
        rw [if_neg hdiff, if_pos (.inr hsame'), ← h.count]
        have hsame'' := hsame
        rw [← h.count] at hsame''
        exact ⟨_, rfl, hsame''⟩
      · have hdiff : e.history.length = 0 ∨ s.cmdHistory[e.history.length - 1]? ≠ some s.line := by
          rw [← hlast] at hsame'
          tauto
        have hlt : e.history.length < FINSH_HISTORY_LINES := by omega
        have hlen' : (e.history ++ [e.cursor.text]).length = e.history.length + 1 := by
          rw [List.length_append, List.length_singleton]
        rw [if_pos hdiff, if_neg (by tauto), if_pos hlt, store, if_pos (by rw [h.size]; exact hlt), Option.bind_some]
        refine ⟨_, rfl, { h with
          current := hlen'.symm, currentLe := Nat.le_refl _, count := hlen'.symm, countLe := hlen'.le.trans hlt
          size := ?_, rows := ?_, texts := hnew (List.Subset.refl _) }⟩
        · rw [List.length_set, h.size]
        · have hcut : s.cmdHistory = s.cmdHistory.take e.history.length ++ s.cmdHistory.drop e.history.length :=
            (List.take_append_drop _ _).symm
          obtain ⟨row, rest, hrest⟩ : ∃ row rest, s.cmdHistory.drop e.history.length = row :: rest := by
            apply List.exists_cons_of_ne_nil
            rw [Ne, List.drop_eq_nil_iff, h.size]
            omega
          have htake : (s.cmdHistory.take e.history.length).length = e.history.length := by
            rw [List.length_take, h.size]
            omega
          rw [hlen', List.map_append, ← h.rows, hcut, hrest, List.set_append_right _ _ htake.le, htake, Nat.sub_self,
            List.set_cons_zero, List.append_cons, List.take_append_of_le_length (by simp [htake])]
          rw [List.take_of_length_le (by simp [htake]), List.take_left' htake]
          rfl

/-! ## The keys -/

theorem leftKey_shows (h : Shows s e) : ∃ s', leftKey s = some s' ∧ Shows s' { e with cursor := e.cursor.left } := by
  refine ⟨_, rfl, ?_⟩
  have hleft := h.withCursor (c := e.cursor.left) (Cursor.text_left _)
  have hlen : e.cursor.left.before.length = s.lineCurpos - 1 := by
    rw [h.curpos, Cursor.left, List.length_dropLast]
  rw [hlen] at hleft
  split
  · exact hleft
  · rename_i h0
    have : s.lineCurpos - 1 = s.lineCurpos := by omega
    rwa [this] at hleft

theorem rightKey_shows (h : Shows s e) :
    ∃ s', rightKey s = some s' ∧ Shows s' { e with cursor := e.cursor.right } := by
  have hright := h.withCursor (c := e.cursor.right) (Cursor.text_right _)
  have htext : e.cursor.text.length = e.cursor.before.length + e.cursor.after.length := by
    rw [Cursor.text, List.length_append]
  have hshort := h.line.short
  rw [rightKey, h.position, h.curpos]
  cases hafter : e.cursor.after with
  | nil =>
    rw [hafter, List.length_nil] at htext
    rw [if_neg (by omega)]
    have hc : e.cursor.right.before.length = s.lineCurpos := by
      rw [h.curpos, Cursor.right, hafter]
      simp
    rw [hc] at hright
    exact ⟨s, rfl, hright⟩
  | cons c after =>
    rw [hafter, List.length_cons] at htext
    have hget : s.line[e.cursor.before.length]? = some c := by
      rw [h.line.split, Cursor.text, hafter]
      simp
    have hc : e.cursor.right.before.length = u8 (e.cursor.before.length + 1) := by
      rw [u8_eq (by omega), Cursor.right, hafter]
      simp
    rw [if_pos (by omega), hget]
    rw [hc] at hright
    refine ⟨_, rfl, ?_⟩
    rw [← h.position]
    exact hright

theorem backspaceKey_shows (h : Shows s e) :
    ∃ s', backspaceKey s = some s' ∧ Shows s' { e with cursor := e.cursor.backspace } := by
  have hshort := h.line.short
  have hsize : FINSH_CMD_SIZE = 80 := rfl
  rw [backspaceKey, h.curpos, h.position]
  rcases List.eq_nil_or_concat e.cursor.before with hb | ⟨b, a, hb⟩
  · rw [if_pos (by rw [hb]; rfl)]
    have hsame : e.cursor.backspace = e.cursor := by
      rw [Cursor.backspace, hb, List.dropLast_nil, ← hb]
    rw [hsame]
    exact ⟨s, rfl, h⟩
  · rw [List.concat_eq_append] at hb
    have hback : e.cursor.backspace = ⟨b, e.cursor.after⟩ := by
      rw [Cursor.backspace, hb, List.dropLast_concat]
    have htext : e.cursor.text = b ++ a :: e.cursor.after := by
      rw [Cursor.text, hb, List.append_assoc]
      rfl
    have hlen : e.cursor.text.length = b.length + e.cursor.after.length + 1 := by
      rw [htext, List.length_append, List.length_cons]
      omega
    have hline := h.line
    rw [htext] at hline
    have hz : 0 ∉ b ++ e.cursor.after := by
      intro h0
      apply hline.noZero
      rw [List.mem_append] at h0 ⊢
      exact h0.imp id (List.mem_cons_of_mem _)
    have hlt : (b ++ e.cursor.after).length < FINSH_CMD_SIZE := by
      rw [List.length_append]
      omega
    have hpos : u8 (e.cursor.text.length + (2 ^ 8 - 1)) = b.length + e.cursor.after.length := by
      rw [u8]
      omega
    have hcur : u8 (e.cursor.before.length + (2 ^ 8 - 1)) = b.length := by
      rw [u8, hb, List.length_append, List.length_singleton]
      omega
    have hafter := h.withLine (c := ⟨b, e.cursor.after⟩) hlt hz
    rw [if_neg (by rw [hb]; simp), hpos, hcur, hback]
    dsimp only [Cursor.text] at hafter ⊢
    rw [List.length_append] at hafter
    obtain ⟨m, hblit, hstore⟩ := hline.erase
    split
    · rename_i hgt
      have hread : read s.line (b.length + 1) (b.length + e.cursor.after.length - b.length) = some e.cursor.after := by
        rw [List.append_cons] at hline
        have := hline.read_tail
        rw [Nat.add_sub_cancel_left]
        rwa [List.length_append, List.length_singleton] at this
      rw [hread]
      simp only [Option.bind_eq_bind, Option.bind_some]
      rw [hblit, Option.bind_some, hstore, Option.bind_some, (holds_pad hlt hz).string (by simp)]
      exact ⟨_, rfl, hafter⟩
    · rename_i hle
      have hnil : e.cursor.after = [] := List.length_eq_zero_iff.1 (by omega)
      rw [hnil] at hblit hstore hafter ⊢
      have hsame : m = s.line := by
        have hm : s.line.take b.length ++ [] ++ s.line.drop (b.length + 0) = s.line := by
          rw [List.append_nil, Nat.add_zero, List.take_append_drop]
        rw [blit, if_pos (by rw [h.line.length]; simp; omega)] at hblit
        exact (Option.some.inj hblit).symm.trans hm
      rw [List.length_nil] at hstore ⊢
      rw [← hsame, hstore]
      exact ⟨_, rfl, hafter⟩

theorem tabKey_shows (h : Shows s e) (hfit : (Editor.completed env e.cursor.text).length < FINSH_CMD_SIZE) :
    ∃ s', tabKey env s = some s' ∧ Shows s' { e with cursor := .atEnd (Editor.completed env e.cursor.text) } := by
  have hz := noZero_completed env h.line.noZero
  have hline := shellAutoComplete_string env h.line
  rw [lineOf, if_pos hfit, Option.map_some, Option.bind_eq_some_iff] at hline
  obtain ⟨line, hcomplete, hstring⟩ := hline
  obtain ⟨text, hstring, heq⟩ := Option.map_eq_some_iff.1 hstring
  cases heq
  have hafter := h.withLine (c := .atEnd (Editor.completed env e.cursor.text)) (by simpa using hfit) (by simpa using hz)
  rw [Cursor.text_atEnd] at hafter
  rw [tabKey, hcomplete]
  simp only [Option.bind_eq_bind, Option.bind_some]
  rw [hstring, Option.bind_some, u8_eq hfit.le]
  exact ⟨_, rfl, hafter⟩

/-- A completion that fills the line has no reader. -/
theorem tabKey_full (h : Shows s e) (hfull : ¬(Editor.completed env e.cursor.text).length < FINSH_CMD_SIZE) :
    tabKey env s = none := by
  have hline := shellAutoComplete_string env h.line
  rw [lineOf, if_neg hfull, Option.map_none, Option.bind_eq_none_iff] at hline
  rw [tabKey, Option.bind_eq_bind, Option.bind_eq_none_iff]
  intro line hcomplete
  rw [Option.map_eq_none_iff.1 (hline line hcomplete)]
  rfl

/-- What enter leaves. -/
theorem Shows.clear (h : Shows s e) :
    Shows { s with line := List.replicate FINSH_CMD_SIZE 0, linePosition := 0, lineCurpos := 0 }
      { e with cursor := .empty } := by
  have hempty := h.withLine (c := .empty) (by decide) List.not_mem_nil
  rwa [Cursor.text_empty, pad_nil] at hempty

theorem enterKey_shows (h : Shows s e)
    (hfit : env.msh = true ∨ e.cursor.text = [] ∨ e.cursor.text.length + 1 < FINSH_CMD_SIZE) :
    ∃ s', enterKey env s = some (s', (e.enter env).2) ∧ Shows s' (e.enter env).1 := by
  obtain ⟨s₁, hpush, h₁⟩ := shellPushHistory_shows h
  have hread : read s₁.line 0 s₁.linePosition = some e.cursor.text := by
    rw [h₁.position]
    exact h₁.line.read
  rw [enterKey, hpush, Editor.enter, Editor.submit]
  simp only [Option.bind_eq_bind, Option.bind_some]
  cases hm : env.msh with
  | true =>
    obtain ⟨r, hexec⟩ := mshExec_reads h₁.line
    rw [← h₁.position] at hexec
    have hstring := h₁.line.string (Nat.zero_le _)
    rw [List.drop_zero] at hstring
    rw [if_pos rfl, hread, hexec, hstring, if_pos rfl]
    exact ⟨_, rfl, h₁.clear⟩
  | false =>
    rw [if_neg Bool.false_ne_true, if_neg Bool.false_ne_true, h₁.position]
    have hstore := h₁.line.store_end 0x3b
    rw [hstore, Option.bind_some]
    by_cases h0 : e.cursor.text = []
    · rw [if_neg (by simp [h0]), if_pos h0]
      exact ⟨_, rfl, h₁.clear⟩
    · have hlen : (e.cursor.text ++ [0x3b]).length < FINSH_CMD_SIZE := by
        rw [List.length_append]
        rw [hm] at hfit
        obtain hfit | hfit | hfit := hfit
        · cases hfit
        · exact absurd hfit h0
        · exact hfit
      have hz : (0 : Byte) ∉ e.cursor.text ++ [0x3b] := by
        have := h.line.noZero
        simpa using this
      rw [if_pos (by simpa using h0), if_neg h0, string_pad hlen hz]
      exact ⟨_, rfl, h₁.clear⟩

/-- The semicolon in the last place of the line. -/
theorem enterKey_full (h : Shows s e)
    (hfull : ¬(env.msh = true ∨ e.cursor.text = [] ∨ e.cursor.text.length + 1 < FINSH_CMD_SIZE)) :
    enterKey env s = none := by
  rw [not_or, not_or] at hfull
  obtain ⟨hmsh, h0, hlen⟩ := hfull
  obtain ⟨s₁, hpush, h₁⟩ := shellPushHistory_shows h
  have hz : (0 : Byte) ∉ e.cursor.text ++ [0x3b] := by
    have := h.line.noZero
    simpa using this
  have hstore := h₁.line.store_end 0x3b
  rw [enterKey, hpush]
  simp only [Option.bind_eq_bind, Option.bind_some]
  rw [if_neg hmsh, h₁.position, hstore, Option.bind_some, if_pos (by simpa using h0),
    string_none (noZero_pad (by rw [List.length_append]; exact Nat.le_of_not_lt hlen) hz)]
  rfl

/-- **A character**, with the characters behind it. -/
theorem putCharacter_some {b a m : Text} (h : Holds FINSH_CMD_SIZE line (b ++ a))
    (hput : putCharacter env ch line (b ++ a).length b.length = some m) : m = pad FINSH_CMD_SIZE (b ++ ch :: a) := by
  have hrest : (b ++ a).length - b.length = a.length := by
    rw [List.length_append, Nat.add_sub_cancel_left]
  obtain ⟨m', hblit, hstore⟩ := h.insert ch
  rw [putCharacter, hrest, h.read_tail] at hput
  split at hput
  · simp only [Option.bind_eq_bind, Option.bind_some] at hput
    rw [hblit, Option.bind_some, hstore, Option.bind_some] at hput
    split at hput
    · obtain ⟨t, -, rfl⟩ := Option.map_eq_some_iff.1 hput
      rfl
    · exact (Option.some.inj hput).symm
  · rename_i hend
    have hnil : a = [] := by
      rw [List.length_append] at hend
      exact List.length_eq_zero_iff.1 (by omega)
    subst hnil
    rw [h.store_end, List.append_nil] at hput
    exact (Option.some.inj hput).symm

theorem putCharacter_fits (env : Env) {b a : Text} (h : Holds FINSH_CMD_SIZE line (b ++ a)) (hch : ch ≠ 0)
    (hfit : (b ++ a).length + 1 < FINSH_CMD_SIZE) :
    putCharacter env ch line (b ++ a).length b.length = some (pad FINSH_CMD_SIZE (b ++ ch :: a)) := by
  have hrest : (b ++ a).length - b.length = a.length := by
    rw [List.length_append, Nat.add_sub_cancel_left]
  have hlen : (b ++ ch :: a).length < FINSH_CMD_SIZE := by
    rw [List.length_append] at hfit
    rw [List.length_append, List.length_cons]
    omega
  have hz : 0 ∉ b ++ ch :: a := by
    have := h.noZero
    rw [List.mem_append, not_or] at this
    rw [List.mem_append, List.mem_cons, not_or, not_or]
    exact ⟨this.1, Ne.symm hch, this.2⟩
  obtain ⟨m', hblit, hstore⟩ := h.insert ch
  rw [putCharacter, hrest, h.read_tail]
  split
  · simp only [Option.bind_eq_bind, Option.bind_some]
    rw [hblit, Option.bind_some, hstore, Option.bind_some, (holds_pad hlen hz).string (by simp)]
    split <;> rfl
  · rename_i hend
    have hnil : a = [] := by
      rw [List.length_append] at hend
      exact List.length_eq_zero_iff.1 (by omega)
    subst hnil
    rw [h.store_end, List.append_nil]

theorem normalCharacter_shows (h : Shows s e) (hch : ch ≠ 0) (hfit : e.cursor.text.length + 1 < FINSH_CMD_SIZE) :
    ∃ s', normalCharacter env ch s = some s' ∧ Shows s' { e with cursor := e.cursor.insert ch } := by
  have hput := putCharacter_fits env (b := e.cursor.before) (a := e.cursor.after) h.line hch hfit
  have hbefore := e.cursor.before_le
  have hlen : (e.cursor.insert ch).text.length = e.cursor.text.length + 1 := by
    rw [Cursor.text_insert, Cursor.text, List.length_append, List.length_append, List.length_cons]
    omega
  have hz : 0 ∉ (e.cursor.insert ch).text := by
    have := h.line.noZero
    rw [Cursor.text, List.mem_append, not_or] at this
    rw [Cursor.text_insert, List.mem_append, List.mem_cons, not_or, not_or]
    exact ⟨this.1, Ne.symm hch, this.2⟩
  have hafter := h.withLine (c := e.cursor.insert ch) (by omega) hz
  have hcur : (e.cursor.insert ch).before.length = e.cursor.before.length + 1 := by
    rw [Cursor.insert, List.length_append, List.length_singleton]
  rw [hlen, hcur, Cursor.text_insert] at hafter
  rw [normalCharacter, h.position, h.curpos, if_neg (by omega)]
  rw [show e.cursor.text = e.cursor.before ++ e.cursor.after from rfl] at hafter ⊢
  rw [hput, Option.bind_eq_bind, Option.bind_some, u8_eq (by exact hfit.le), u8_eq (by omega),
    if_neg (by exact Nat.not_le.2 hfit)]
  exact ⟨_, rfl, hafter⟩

/-- **A line that becomes too large** is not discarded: its first place keeps its character. -/
theorem normalCharacter_full (h : Shows s e) (hch : ch ≠ 0) (hfull : ¬e.cursor.text.length + 1 < FINSH_CMD_SIZE)
    {s' : FinshShell} (hs : normalCharacter env ch s = some s') : ¬s'.Ok := by
  have hshort := h.line.short
  have hlen : (e.cursor.before ++ ch :: e.cursor.after).length = FINSH_CMD_SIZE := by
    rw [Cursor.text, List.length_append] at hshort hfull
    rw [List.length_append, List.length_cons]
    omega
  have hz : 0 ∉ e.cursor.before ++ ch :: e.cursor.after := by
    have := h.line.noZero
    rw [Cursor.text, List.mem_append, not_or] at this
    rw [List.mem_append, List.mem_cons, not_or, not_or]
    exact ⟨this.1, Ne.symm hch, this.2⟩
  rw [normalCharacter, h.position, h.curpos, if_neg (by omega)] at hs
  obtain ⟨line, hput, hs⟩ := Option.bind_eq_some_iff.1 hs
  have hline := putCharacter_some (b := e.cursor.before) (a := e.cursor.after) h.line hput
  rw [u8_eq (by omega), if_pos (Nat.le_of_not_lt hfull)] at hs
  cases hs
  intro hok
  have hzero := hok.zero
  rw [hline] at hzero
  exact noZero_pad hlen.ge hz (List.mem_of_getElem? hzero)

/-! ## The keys one after the other -/

theorem quiet_some {r : Option FinshShell} {e' : Editor} (h : ∃ s', r = some s' ∧ Shows s' e') :
    ∃ s', quiet r = some (s', []) ∧ Shows s' e' := by
  obtain ⟨s', rfl, hs⟩ := h
  exact ⟨s', rfl, hs⟩

theorem fit_of_lt {c : Cursor Byte} (h : c.text.length < FINSH_CMD_SIZE) : Editor.fit c = c := if_pos h

theorem character_shows (h : Shows s e) (hfit : Editor.RoomFor env ch e.cursor.text) :
    ∃ s', character env ch s = some (s', (e.character env ch).2) ∧ Shows s' (e.character env ch).1 := by
  unfold Editor.RoomFor at hfit
  unfold character Editor.character
  by_cases h0 : ch = 0 ∨ ch = 0xff
  · rw [if_pos h0, if_pos h0]
    exact ⟨s, rfl, h⟩
  rw [if_neg h0] at hfit ⊢
  rw [if_neg h0]
  by_cases htab : ch = 0x09
  · rw [if_pos htab] at hfit ⊢
    rw [if_pos htab, fit_of_lt (by simpa using hfit)]
    exact quiet_some (tabKey_shows h hfit)
  rw [if_neg htab] at hfit ⊢
  rw [if_neg htab]
  by_cases hback : ch = 0x7f ∨ ch = 0x08
  · rw [if_pos hback, if_pos hback]
    exact quiet_some (backspaceKey_shows h)
  rw [if_neg hback] at hfit ⊢
  rw [if_neg hback]
  by_cases henter : ch = 0x0d ∨ ch = 0x0a
  · rw [if_pos henter] at hfit ⊢
    rw [if_pos henter]
    exact enterKey_shows h hfit
  rw [if_neg henter] at hfit ⊢
  have hlen : (e.cursor.insert ch).text.length < FINSH_CMD_SIZE := by
    rw [Cursor.text, List.length_append] at hfit
    rw [Cursor.text_insert, List.length_append, List.length_cons]
    omega
  rw [if_neg henter, fit_of_lt hlen]
  exact quiet_some (normalCharacter_shows h (fun hz => h0 (.inl hz)) hfit)

/-- **A character that does not fit.** -/
theorem character_full (h : Shows s e) (hfull : ¬Editor.RoomFor env ch e.cursor.text) {r : FinshShell × List Submission}
    (hr : character env ch s = some r) : ¬r.1.Ok := by
  unfold Editor.RoomFor at hfull
  unfold character at hr
  by_cases h0 : ch = 0 ∨ ch = 0xff
  · rw [if_pos h0] at hfull
    exact absurd trivial hfull
  rw [if_neg h0] at hfull hr
  by_cases htab : ch = 0x09
  · rw [if_pos htab] at hfull hr
    rw [tabKey_full h hfull] at hr
    cases hr
  rw [if_neg htab] at hfull hr
  by_cases hback : ch = 0x7f ∨ ch = 0x08
  · rw [if_pos hback] at hfull
    exact absurd trivial hfull
  rw [if_neg hback] at hfull hr
  by_cases henter : ch = 0x0d ∨ ch = 0x0a
  · rw [if_pos henter] at hfull hr
    rw [enterKey_full h hfull] at hr
    cases hr
  rw [if_neg henter] at hfull hr
  obtain ⟨s', hs', rfl⟩ := Option.map_eq_some_iff.1 hr
  exact normalCharacter_full h (fun hz => h0 (.inl hz)) hfull hs'

/-- **A key does to the line what it does to the text.** -/
theorem step_shows {k : Env × Byte} (h : Shows s e) (hfit : e.Fits k) :
    ∃ s', step s k = some (s', (e.step k).2) ∧ Shows s' (e.step k).1 := by
  obtain ⟨env, ch⟩ := k
  unfold Editor.Fits at hfit
  unfold step Editor.step
  dsimp only at hfit ⊢
  by_cases hesc : ch = 0x1b
  · rw [if_pos hesc, if_pos hesc]
    exact ⟨_, rfl, h.withStat _⟩
  have h' := h.withStat .waitNormal
  rw [if_neg hesc, if_neg hesc, h.stat]
  cases hstat : e.stat with
  | waitNormal =>
    rw [hstat] at hfit
    obtain h1 | ⟨h1, -⟩ | ⟨h1, -⟩ | hroom := hfit
    · exact absurd h1 hesc
    · cases h1
    · cases h1
    · exact character_shows h hroom
  | waitSpecKey =>
    rw [hstat] at hfit
    by_cases hb : ch = 0x5b
    · simp only [if_pos hb]
      exact ⟨_, rfl, h.withStat _⟩
    · simp only [if_neg hb]
      obtain h1 | ⟨-, h1⟩ | ⟨h1, -⟩ | hroom := hfit
      · exact absurd h1 hesc
      · exact absurd h1 hb
      · cases h1
      · exact character_shows h' hroom
  | waitFuncKey =>
    rw [hstat] at hfit
    by_cases hup : ch = 0x41
    · simp only [if_pos hup]
      exact quiet_some (upKey_shows h')
    by_cases hdown : ch = 0x42
    · simp only [if_neg hup, if_pos hdown]
      exact quiet_some (downKey_shows h')
    by_cases hleft : ch = 0x44
    · simp only [if_neg hup, if_neg hdown, if_pos hleft]
      exact quiet_some (leftKey_shows h')
    by_cases hright : ch = 0x43
    · simp only [if_neg hup, if_neg hdown, if_neg hleft, if_pos hright]
      exact quiet_some (rightKey_shows h')
    · simp only [if_neg hup, if_neg hdown, if_neg hleft, if_neg hright]
      obtain h1 | ⟨h1, -⟩ | ⟨-, h1 | h1 | h1 | h1⟩ | hroom := hfit
      · exact absurd h1 hesc
      · cases h1
      · exact absurd h1 hup
      · exact absurd h1 hdown
      · exact absurd h1 hleft
      · exact absurd h1 hright
      · exact character_shows h' hroom

theorem step_full {k : Env × Byte} (h : Shows s e) (hfull : ¬e.Fits k) {r : FinshShell × List Submission}
    (hr : step s k = some r) : ¬r.1.Ok := by
  obtain ⟨env, ch⟩ := k
  unfold Editor.Fits at hfull
  simp only [not_or] at hfull
  obtain ⟨hesc, hspec, hfunc, hroom⟩ := hfull
  unfold step at hr
  dsimp only at hr
  rw [if_neg hesc, h.stat] at hr
  have h' := h.withStat .waitNormal
  cases hstat : e.stat with
  | waitNormal =>
    rw [hstat] at hr
    exact character_full h hroom hr
  | waitSpecKey =>
    rw [hstat] at hr
    have hb : ch ≠ 0x5b := fun hb => hspec ⟨hstat, hb⟩
    simp only [if_neg hb] at hr
    exact character_full h' hroom hr
  | waitFuncKey =>
    rw [hstat] at hr
    have hno : ¬(ch = 0x41 ∨ ch = 0x42 ∨ ch = 0x44 ∨ ch = 0x43) := fun hk => hfunc ⟨hstat, hk⟩
    simp only [not_or] at hno
    obtain ⟨hup, hdown, hleft, hright⟩ := hno
    simp only [if_neg hup, if_neg hdown, if_neg hleft, if_neg hright] at hr
    exact character_full h' hroom hr

/-- **A sequence of keys**, from any state that shows an editor. -/
theorem editsFrom_iff (h : Shows s e) (ks : List (Env × Byte)) : EditsFrom s e ks ↔ e.AllFit ks := by
  induction ks generalizing s e with
  | nil =>
    refine ⟨fun _ => trivial, fun _ ks' hks' => ?_⟩
    rw [List.prefix_nil.1 hks']
    exact ⟨s, rfl, h.ok⟩
  | cons k ks ih =>
    constructor
    · intro hedits
      have hfit : e.Fits k := by
        by_contra hfull
        obtain ⟨s', hrun, hok⟩ := hedits [k] (List.prefix_append [k] ks)
        obtain ⟨⟨s₁, out⟩, hr, hrest⟩ := Option.bind_eq_some_iff.1 hrun
        obtain ⟨rfl, -⟩ := Prod.mk.inj (Option.some.inj hrest)
        exact step_full h hfull hr hok
      obtain ⟨s', hstep, h'⟩ := step_shows h hfit
      refine ⟨hfit, (ih h').1 fun ks' hks' => ?_⟩
      obtain ⟨s'', hrun, hok⟩ := hedits (k :: ks') ((List.prefix_cons_inj k).2 hks')
      obtain ⟨r, hr, hrest⟩ := Option.bind_eq_some_iff.1 hrun
      rw [hstep] at hr
      cases hr
      obtain ⟨⟨s₁, out⟩, hr, heq⟩ := Option.bind_eq_some_iff.1 hrest
      have heq := Option.some.inj heq
      obtain ⟨rfl, hout⟩ := Prod.mk.inj heq
      exact ⟨s₁, by rw [hr, List.append_cancel_left hout], hok⟩
    · rintro ⟨hfit, hrest⟩ ks' hks'
      obtain ⟨s', hstep, h'⟩ := step_shows h hfit
      obtain rfl | ⟨ks'', rfl, hks''⟩ := List.prefix_cons_iff.1 hks'
      · exact ⟨s, rfl, h.ok⟩
      · obtain ⟨s'', hrun, hok⟩ := (ih h').2 hrest ks'' hks''
        refine ⟨s'', ?_, hok⟩
        simp only [run, hstep, Option.bind_eq_bind, Option.bind_some, hrun]
        rfl

/-- **The shell is a line editor** for a sequence of keys if and only if every key leaves room for the zero. -/
theorem edits_iff (ks : List (Env × Byte)) : Edits ks ↔ Editor.init.AllFit ks := editsFrom_iff init_shows ks

/-- Nothing to complete with. -/
def Env.bare : Env where
  msh := true
  echo := true
  syscalls := []
  syscallItems := []
  sysvars := []
  sysvarItems := []
  listing := fun _ => none
  script := fun _ => false

/-- Eighty letters: the line is full of them, and the positions are at its beginning. -/
theorem large_notDiscarded : ¬Edits (List.replicate 80 (Env.bare, 0x61)) := by
  intro h
  obtain ⟨s, hrun, hok⟩ := h _ List.prefix_rfl
  have hbad : (run FinshShell.init (List.replicate 80 (Env.bare, 0x61))).all (fun r => !decide r.1.Ok) = true := by
    set_option maxRecDepth 20000 in decide
  rw [hrun] at hbad
  simp [hok] at hbad

end RtThread.Shell
