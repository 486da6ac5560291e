import RtThread.Spec.ShellSplit
import RtThread.Proof.Shell

/-!
# Splitting a command line

* `word_run`, `quoted_run`: the inner loops of `msh_split` end where the token does.
* `tokens_apart`, `tokens_subset`: the tokens are in order, apart from each other, and made of characters of the line.
* `before_run`: the outer loop takes the tokens one after the other, until there are `FINSH_ARG_MAX` of them. The zero
  of a word is written when the next token is looked for: what follows a word begins with a blank (`Cut.ends`).
* `mshSplit_splits`: **`msh_split` splits the line**.
-/

namespace RtThread.Shell

open Buffer

variable {line rest : Text} {position : ℕ} {argv : List ℕ}

/-! ## The inner loops -/

theorem before_zero : mshSplit .before (0 :: rest) 0 position argv = some (argv, 0 :: rest) := by
  rw [mshSplit, if_neg (fun h => absurd h.2 (Nat.lt_irrefl 0)), if_pos (.inr rfl)]

/-- **A word** ends where the next blank or the end of the line is; the blank is left to the outer loop. -/
theorem word_run : mshSplit .word (line ++ 0 :: rest) line.length position argv =
    (mshSplit .before (line.drop (line.takeWhile fun d => !blank d).length ++ 0 :: rest)
      (line.drop (line.takeWhile fun d => !blank d).length).length
      (position + (line.takeWhile fun d => !blank d).length) argv).map fun r =>
        (r.1, (line.takeWhile fun d => !blank d) ++ r.2) := by
  induction line generalizing position with
  | nil =>
    simp only [List.takeWhile_nil, List.length_nil, List.drop_nil, List.nil_append, Nat.add_zero]
    rw [before_zero, mshSplit, if_pos rfl]
    rfl
  | cons c line ih =>
    cases hc : blank c with
    | true =>
      simp only [List.takeWhile_cons, hc, Bool.not_true, Bool.false_eq_true, if_false, List.length_nil, List.drop_zero,
        Nat.add_zero, List.nil_append, List.cons_append, List.length_cons, mshSplit, Nat.succ_ne_zero, Nat.succ_pos,
        and_self, if_true, Option.map_id']
    | false =>
      simp only [List.takeWhile_cons, hc, Bool.not_false, if_true, List.length_cons, List.drop_succ_cons,
        List.cons_append, mshSplit, Nat.succ_ne_zero, if_false, Bool.false_eq_true, Nat.add_sub_cancel]
      rw [ih, Option.map_map, Nat.add_right_comm, Nat.add_assoc]
      rfl

/-- The step of `msh_split` in a quoted token. -/
theorem mshSplit_quoted (c : Byte) (cmd : Text) (length position : ℕ) (argv : List ℕ) :
    mshSplit .quoted (c :: cmd) length position argv =
      if length = 0 then some (argv, c :: cmd)
      else if c = 0x22 then
        if length = 1 then some (argv, 0 :: cmd)
        else (mshSplit .before cmd (length - 1) (position + 1) argv).map fun r => (r.1, 0 :: r.2)
      else if c = 0x5c then
        match cmd with
        | [] => none
        | d :: rest =>
          if d = 0x22 then
            (mshSplit .quoted rest (length - 2) (position + 2) argv).map fun r => (r.1, c :: d :: r.2)
          else (mshSplit .quoted (d :: rest) (length - 1) (position + 1) argv).map fun r => (r.1, c :: r.2)
      else (mshSplit .quoted cmd (length - 1) (position + 1) argv).map fun r => (r.1, c :: r.2) := by
  rw [mshSplit.eq_def]
  rfl

theorem mshSplit_backslash {d : Byte} {cmd : Text} {length : ℕ} (h : length ≠ 0) :
    mshSplit .quoted (0x5c :: d :: cmd) length position argv =
      if d = 0x22 then
        (mshSplit .quoted cmd (length - 2) (position + 2) argv).map fun r => (r.1, 0x5c :: d :: r.2)
      else (mshSplit .quoted (d :: cmd) (length - 1) (position + 1) argv).map fun r => (r.1, 0x5c :: r.2) := by
  rw [mshSplit_quoted, if_neg h, if_neg (by decide), if_pos rfl]

/-- What the loop over a quoted token leaves: behind a closing quote, or at the end of the line. -/
def afterQuoted (text line rest : Text) (position : ℕ) (argv : List ℕ) : Option (List ℕ × Text) :=
  (mshSplit .before (line.drop (text.length + 1) ++ 0 :: rest) (line.drop (text.length + 1)).length
    (position + text.length + 1) argv).map fun r => (r.1, text ++ if text.length < line.length then 0 :: r.2 else r.2)

/-- A character of the token. -/
theorem afterQuoted_cons (c : Byte) (text line rest : Text) (position : ℕ) (argv : List ℕ) :
    afterQuoted (c :: text) (c :: line) rest position argv =
      (afterQuoted text line rest (position + 1) argv).map fun r => (r.1, c :: r.2) := by
  unfold afterQuoted
  rw [List.length_cons, List.drop_succ_cons, Option.map_map, Nat.add_right_comm position 1, Nat.add_assoc position]
  simp only [List.length_cons, Nat.add_lt_add_iff_right]
  rfl

theorem afterQuoted_nil : afterQuoted [] [] rest position argv = some (argv, 0 :: rest) := by
  unfold afterQuoted
  rw [List.drop_nil, List.nil_append, List.length_nil, before_zero]
  rfl

/-- **A quoted token** ends at the next quote that is not behind a backslash, or at the end of the line. The loop
does not stand on a quote behind a backslash: it goes over both at once. -/
theorem quoted_run {prev : Byte} (h : prev = 0x5c → ∀ l, line ≠ 0x22 :: l) :
    mshSplit .quoted (line ++ 0 :: rest) line.length position argv =
      afterQuoted (quotedText prev line) line rest position argv := by
  have hquote : ¬(0x5c : Byte) = 0x22 := by decide
  induction hn : line.length using Nat.strong_induction_on generalizing line position prev with
  | _ n ih =>
    cases line with
    | nil =>
      subst hn
      rw [quotedText, afterQuoted_nil, List.nil_append, List.length_nil, mshSplit_quoted, if_pos rfl]
    | cons c line =>
      subst hn
      rw [List.length_cons] at ih ⊢
      rw [List.cons_append]
      by_cases hc : c = 0x22
      · -- the closing quote
        have hprev : prev ≠ 0x5c := fun hp => h hp line (by rw [hc])
        rw [quotedText, if_pos ⟨hc, hprev⟩, mshSplit_quoted, if_neg (Nat.succ_ne_zero _), if_pos hc, afterQuoted]
        cases line with
        | nil =>
          rw [if_pos (by rfl), List.length_nil, List.drop_succ_cons, List.drop_nil, List.nil_append, List.length_nil,
            before_zero]
          rfl
        | cons d line =>
          rw [if_neg (by simp), List.length_nil, List.drop_succ_cons, List.drop_zero]
          rfl
      · by_cases hb : c = 0x5c
        · cases line with
          | nil =>
            subst hb
            rw [quotedText, if_neg (fun hq => hc hq.1), quotedText, afterQuoted_cons, afterQuoted_nil, List.nil_append,
              mshSplit_backslash (Nat.succ_ne_zero _), if_neg (by decide), mshSplit_quoted, if_pos (by rfl)]
          | cons d line =>
            subst hb
            rw [quotedText, if_neg (fun hq => hc hq.1), List.cons_append, mshSplit_backslash (Nat.succ_ne_zero _)]
            by_cases hd : d = 0x22
            · have hrest := @ih line.length (by rw [List.length_cons]; omega) line (position + 2) d
                (fun hp => absurd (hp.symm.trans hd) hquote) rfl
              rw [if_pos hd, show (d :: line).length.succ - 2 = line.length from rfl, hrest, quotedText,
                if_neg (fun hq => hq.2 rfl), afterQuoted_cons, afterQuoted_cons, Option.map_map]
              rfl
            · have hrest := @ih (d :: line).length (Nat.lt_succ_self _) (d :: line) (position + 1) 0x5c
                (fun _ l hl => hd (List.cons.inj hl).1) rfl
              rw [if_neg hd, show (d :: line).length.succ - 1 = (d :: line).length from rfl, ← List.cons_append,
                hrest, afterQuoted_cons]
        · have hrest := @ih line.length (Nat.lt_succ_self _) line (position + 1) c (fun hp => absurd hp hb) rfl
          rw [quotedText, if_neg (fun hq => hc hq.1), mshSplit_quoted, if_neg (Nat.succ_ne_zero _), if_neg hc,
            if_neg hb, Nat.add_sub_cancel, hrest, afterQuoted_cons]

/-! ## The tokens -/

/-- A line that is at its end or goes on with a blank. -/
def BlankFirst (line : Text) : Prop := ∀ c l, line = c :: l → blank c = true

theorem blankFirst_word (line : Text) : BlankFirst (line.drop (line.takeWhile fun d => !blank d).length) := by
  intro c l h
  induction line with
  | nil => cases h
  | cons d line ih =>
    cases hd : blank d with
    | true =>
      rw [List.takeWhile_cons, hd] at h
      cases h
      exact hd
    | false =>
      rw [List.takeWhile_cons, hd] at h
      exact ih h

theorem tokens_ge : ∀ t ∈ tokens position line, position ≤ t.offset := by
  intro t ht
  fun_induction tokens position line with
  | case1 => cases ht
  | case2 position c line hc ih => exact (Nat.le_succ _).trans (ih ht)
  | case3 position line hc text ih =>
    obtain rfl | ht := List.mem_cons.1 ht
    · exact Nat.le_succ _
    · have := ih ht
      omega
  | case4 position c line hc hq text ih =>
    obtain rfl | ht := List.mem_cons.1 ht
    · exact Nat.le_refl _
    · have := ih ht
      omega

/-- What goes on with a blank has no token at its first character. -/
theorem BlankFirst.tokens_gt (h : BlankFirst line) : ∀ t ∈ tokens position line, position < t.offset := by
  intro t ht
  cases line with
  | nil =>
    rw [tokens] at ht
    cases ht
  | cons c line =>
    rw [tokens, if_pos (h c line rfl)] at ht
    exact tokens_ge t ht

/-- **The tokens are in order**, with a character between two of them. -/
theorem tokens_apart :
    (tokens position line).Pairwise fun a b => a.offset + a.text.length < b.offset := by
  fun_induction tokens position line with
  | case1 => exact .nil
  | case2 position c line hc ih => exact ih
  | case3 position line hc text ih =>
    refine .cons (fun t ht => ?_) ih
    have := tokens_ge t ht
    show position + 1 + text.length < t.offset
    omega
  | case4 position c line hc hq text ih =>
    refine .cons (fun t ht => ?_) ih
    have := (blankFirst_word line).tokens_gt t ht
    rw [List.length_cons]
    exact this

theorem quotedText_subset (prev : Byte) (line : Text) : quotedText prev line ⊆ line := by
  induction line generalizing prev with
  | nil => exact List.Subset.refl _
  | cons c line ih =>
    rw [quotedText]
    split
    · exact List.nil_subset _
    · exact List.cons_subset_cons c (ih c)

/-- The characters of a token are characters of the line. -/
theorem tokens_subset : ∀ t ∈ tokens position line, t.text ⊆ line := by
  intro t ht
  fun_induction tokens position line with
  | case1 => cases ht
  | case2 position c line hc ih => exact List.subset_cons_of_subset c (ih ht)
  | case3 position line hc text ih =>
    obtain rfl | ht := List.mem_cons.1 ht
    · exact List.subset_cons_of_subset _ (quotedText_subset _ line)
    · exact List.subset_cons_of_subset _ fun d hd => List.mem_of_mem_drop (ih ht hd)
  | case4 position c line hc hq text ih =>
    obtain rfl | ht := List.mem_cons.1 ht
    · exact List.cons_subset_cons c (List.takeWhile_subset _)
    · exact List.subset_cons_of_subset _ fun d hd => List.mem_of_mem_drop (ih ht hd)

/-- The line from `position` on, with a zero behind each of the tokens `ts`. A blank that comes first is a zero: it
ends the token before it. -/
structure Cut (line cmd : Text) (position : ℕ) (ts : List Token) : Prop where
  length : cmd.length = line.length
  ends : BlankFirst line → ∃ l, cmd ++ [0] = 0 :: l
  strings : ∀ t ∈ ts, ∃ a b, cmd ++ [0] = a ++ (t.text ++ 0 :: b) ∧ position + a.length = t.offset

variable {cmd : Text} {ts : List Token} {c : Byte}

theorem Cut.nil : Cut [] [] position [] :=
  ⟨rfl, fun _ => ⟨[], rfl⟩, fun _ ht => nomatch ht⟩

/-- The tokens that come later, behind other characters. -/
theorem Cut.later (h : Cut line cmd position ts) (start : Text) {before : ℕ} (hp : before + start.length = position) :
    ∀ t ∈ ts, ∃ a b, start ++ cmd ++ [0] = a ++ (t.text ++ 0 :: b) ∧ before + a.length = t.offset := by
  intro t ht
  obtain ⟨a, b, hab, hlen⟩ := h.strings t ht
  refine ⟨start ++ a, b, ?_, ?_⟩
  · rw [List.append_assoc, hab, List.append_assoc]
  · rw [List.length_append]
    omega

theorem Cut.blank (h : Cut line cmd (position + 1) ts) : Cut (c :: line) (0 :: cmd) position ts where
  length := congrArg (· + 1) h.length
  ends := fun _ => ⟨cmd ++ [0], rfl⟩
  strings := h.later [0] rfl

/-- Where the arguments are full, the line stays as it is. -/
theorem Cut.full (hc : Shell.blank c = false) : Cut (c :: line) (c :: line) position [] where
  length := rfl
  ends := fun h => absurd (h c line rfl) (by rw [hc]; exact Bool.false_ne_true)
  strings := fun _ ht => nomatch ht

theorem Cut.word (hc : Shell.blank c = false) {text : Text} (htext : text = line.takeWhile fun d => !Shell.blank d)
    (h : Cut (line.drop text.length) cmd (position + text.length + 1) ts) :
    Cut (c :: line) (c :: (text ++ cmd)) position (⟨position, c :: text⟩ :: ts) where
  length := by
    have hle : text.length ≤ line.length := htext ▸ (List.takeWhile_prefix _).length_le
    have := h.length
    rw [List.length_drop] at this
    rw [List.length_cons, List.length_cons, List.length_append]
    omega
  ends := fun hb => absurd (hb c line rfl) (by rw [hc]; exact Bool.false_ne_true)
  strings := by
    intro t ht
    obtain rfl | ht := List.mem_cons.1 ht
    · -- the zero is the one of the blank behind the word, or that of the line
      obtain ⟨l, hl⟩ := h.ends (htext ▸ blankFirst_word line)
      refine ⟨[], l, ?_, rfl⟩
      rw [List.nil_append, List.cons_append, List.append_assoc, hl]
      rfl
    · exact h.later (c :: text) (by rw [List.length_cons]; rfl) t ht

theorem Cut.quoted (hc : Shell.blank c = false) {text : Text} (hlen : text.length ≤ line.length)
    (hlast : line.length ≤ text.length → ts = [])
    (h : Cut (line.drop (text.length + 1)) cmd (position + text.length + 2) ts) :
    Cut (c :: line) (c :: (text ++ if text.length < line.length then 0 :: cmd else cmd)) position
      (⟨position + 1, text⟩ :: ts) := by
  have hcmd := h.length
  rw [List.length_drop] at hcmd
  by_cases hlt : text.length < line.length
  · rw [if_pos hlt]
    refine ⟨?_, fun hb => absurd (hb c line rfl) (by rw [hc]; exact Bool.false_ne_true), fun t ht => ?_⟩
    · rw [List.length_cons, List.length_cons, List.length_append, List.length_cons]
      omega
    obtain rfl | ht := List.mem_cons.1 ht
    · exact ⟨[c], cmd ++ [0], by simp, rfl⟩
    · obtain ⟨a, b, hab, ha⟩ := h.later (c :: (text ++ [0]))
        (by rw [List.length_cons, List.length_append]; rfl) t ht
      refine ⟨a, b, ?_, ha⟩
      rw [← hab]
      simp
  · -- the token goes on to the end of the line, whose zero it gets
    have hnil : cmd = [] := List.length_eq_zero_iff.1 (by omega)
    rw [if_neg hlt, hnil, List.append_nil, hlast (Nat.not_lt.1 hlt)]
    refine ⟨?_, fun hb => absurd (hb c line rfl) (by rw [hc]; exact Bool.false_ne_true), fun t ht => ?_⟩
    · rw [List.length_cons, List.length_cons]
      omega
    obtain rfl := List.mem_singleton.1 ht
    exact ⟨[c], [], rfl, rfl⟩

/-! ## The line -/

theorem before_blank (hc : Shell.blank c = true) (line rest : Text) (position : ℕ) (argv : List ℕ) :
    mshSplit .before (c :: line ++ 0 :: rest) (c :: line).length position argv =
      (mshSplit .before (line ++ 0 :: rest) line.length (position + 1) argv).map fun r => (r.1, 0 :: r.2) := by
  rw [List.cons_append, mshSplit, if_pos ⟨hc, Nat.succ_pos _⟩, List.length_cons, Nat.add_sub_cancel]

theorem before_full (hc : Shell.blank c = false) (h : FINSH_ARG_MAX ≤ argv.length) :
    mshSplit .before (c :: line ++ 0 :: rest) (c :: line).length position argv =
      some (argv, c :: line ++ 0 :: rest) := by
  rw [List.cons_append, mshSplit, if_neg (fun hb => Bool.false_ne_true (hc ▸ hb.1)), if_pos (.inl h)]

theorem before_quote (h : argv.length < FINSH_ARG_MAX) :
    mshSplit .before (0x22 :: line ++ 0 :: rest) (0x22 :: line : Text).length position argv =
      (afterQuoted (quotedText 0x22 line) line rest (position + 1) (argv ++ [position + 1])).map fun r =>
        (r.1, 0x22 :: r.2) := by
  have hprev : (0x22 : Byte) ≠ 0x5c := by decide
  rw [List.cons_append, mshSplit, if_neg (fun hb => Bool.false_ne_true hb.1),
    if_neg (fun hf => hf.elim h.not_ge (Nat.succ_ne_zero _)), if_pos rfl, List.length_cons, Nat.add_sub_cancel,
    quoted_run fun hp => absurd hp hprev]

theorem before_word (hc : Shell.blank c = false) (hq : c ≠ 0x22) (h : argv.length < FINSH_ARG_MAX) :
    mshSplit .before (c :: line ++ 0 :: rest) (c :: line).length position argv =
      (mshSplit .word (line ++ 0 :: rest) line.length (position + 1) (argv ++ [position])).map fun r =>
        (r.1, c :: r.2) := by
  rw [List.cons_append, mshSplit, if_neg (fun hb => Bool.false_ne_true (hc ▸ hb.1)),
    if_neg (fun hf => hf.elim h.not_ge (Nat.succ_ne_zero _)), if_neg hq, List.length_cons, Nat.add_sub_cancel]

/-- **The outer loop** takes the tokens of the line, as long as there is room for an argument. -/
theorem before_run (position : ℕ) (line : Text) (argv : List ℕ) :
    ∃ cmd, mshSplit .before (line ++ 0 :: rest) line.length position argv =
        some (argv ++ ((tokens position line).take (FINSH_ARG_MAX - argv.length)).map (·.offset), cmd ++ 0 :: rest) ∧
      Cut line cmd position ((tokens position line).take (FINSH_ARG_MAX - argv.length)) := by
  fun_induction tokens position line generalizing argv with
  | case1 position =>
    rw [List.take_nil, List.map_nil, List.append_nil]
    exact ⟨[], before_zero, .nil⟩
  | case2 position c line hc ih =>
    obtain ⟨cmd, hrun, hcut⟩ := ih argv
    refine ⟨0 :: cmd, ?_, hcut.blank⟩
    rw [before_blank hc, hrun]
    rfl
  | case3 position line hc text ih =>
    rw [Bool.not_eq_true] at hc
    obtain hroom | hfull := Nat.lt_or_ge argv.length FINSH_ARG_MAX
    · obtain ⟨cmd, hrun, hcut⟩ := ih (argv ++ [position + 1])
      have hroom' : FINSH_ARG_MAX - argv.length = FINSH_ARG_MAX - (argv ++ [position + 1]).length + 1 := by
        rw [List.length_append, List.length_singleton]
        omega
      rw [hroom', List.take_succ_cons]
      refine ⟨_, ?_, hcut.quoted hc (length_quotedText _ _) fun hle => ?_⟩
      · rw [before_quote hroom, afterQuoted, Nat.add_right_comm position, hrun, List.append_assoc, List.map_cons]
        simp only [Option.map_some]
        split <;> simp [text]
      · rw [List.drop_eq_nil_of_le (Nat.le_succ_of_le hle), tokens, List.take_nil]
    · rw [Nat.sub_eq_zero_of_le hfull, List.take_zero, List.map_nil, List.append_nil]
      exact ⟨_, before_full hc hfull, .full hc⟩
  | case4 position c line hc hq text ih =>
    rw [Bool.not_eq_true] at hc
    obtain hroom | hfull := Nat.lt_or_ge argv.length FINSH_ARG_MAX
    · obtain ⟨cmd, hrun, hcut⟩ := ih (argv ++ [position])
      have hroom' : FINSH_ARG_MAX - argv.length = FINSH_ARG_MAX - (argv ++ [position]).length + 1 := by
        rw [List.length_append, List.length_singleton]
        omega
      rw [hroom', List.take_succ_cons]
      refine ⟨_, ?_, hcut.word hc rfl⟩
      rw [before_word hc hq hroom, word_run, Nat.add_right_comm position, hrun, List.append_assoc, List.map_cons]
      simp [text]
    · rw [Nat.sub_eq_zero_of_le hfull, List.take_zero, List.map_nil, List.append_nil]
      exact ⟨_, before_full hc hfull, .full hc⟩

/-- A string that begins inside a buffer. -/
theorem string_at {text start rest : Text} (h : 0 ∉ text) :
    Buffer.string (start ++ (text ++ 0 :: rest)) start.length = some text := by
  have := string_of_split (t := rest) h
  unfold Buffer.string at this ⊢
  rwa [List.drop_left]

/-- **`msh_split` splits the line**: it ends, the arguments are the first `FINSH_ARG_MAX` tokens, each of them a string
of the command and apart from the others, and what lies behind the line is as before. -/
theorem mshSplit_splits (line rest : Text) (h : 0 ∉ line) :
    ∃ argv cmd, mshSplit .before (line ++ 0 :: rest) line.length 0 [] = some (argv, cmd) ∧
      Splits line rest argv cmd := by
  obtain ⟨cmd, hrun, hcut⟩ := @before_run rest 0 line []
  rw [List.nil_append, List.length_nil, Nat.sub_zero] at hrun
  rw [List.length_nil, Nat.sub_zero] at hcut
  refine ⟨_, _, hrun, ?_, rfl, tokens_apart.sublist (List.take_sublist _ _), fun t ht => ?_, ?_, ?_⟩
  · rw [List.length_map]
    exact List.length_take_le _ _
  · obtain ⟨a, b, hab, ha⟩ := hcut.strings t ht
    have hsplit : cmd ++ 0 :: rest = a ++ (t.text ++ 0 :: (b ++ rest)) := by
      rw [← List.singleton_append, ← List.append_assoc, hab]
      simp
    rw [hsplit, ← ha, Nat.zero_add]
    exact string_at fun h0 => h (tokens_subset t (List.mem_of_mem_take ht) h0)
  · rw [List.length_append, List.length_append, hcut.length]
  · rw [← hcut.length, List.drop_left]

/-- `e "a\" b" c`. -/
theorem mshSplit_splits_quoted :
    (tokens 0 [0x65, 0x20, 0x22, 0x61, 0x5c, 0x22, 0x20, 0x62, 0x22, 0x20, 0x63]).map (·.text) =
        [[0x65], [0x61, 0x5c, 0x22, 0x20, 0x62], [0x63]] ∧
      ∃ argv cmd,
        mshSplit .before ([0x65, 0x20, 0x22, 0x61, 0x5c, 0x22, 0x20, 0x62, 0x22, 0x20, 0x63] ++ 0 :: []) 11 0 [] =
            some (argv, cmd) ∧
          Splits [0x65, 0x20, 0x22, 0x61, 0x5c, 0x22, 0x20, 0x62, 0x22, 0x20, 0x63] [] argv cmd := by
  refine ⟨?_, mshSplit_splits _ [] (by decide)⟩
  simp [tokens, quotedText, Shell.blank]

end RtThread.Shell
