import RtThread.Spec.Shell
import Mathlib.Tactic.Common

/-!
# What tab writes into the line

The loops of `msh_auto_complete`, `msh_auto_complete_path` and `list_prefix` look for the common beginning of the names
that begin with a text. What they find is written over the end of the line, without a look at its size.

* `foldl_matchName`: **the loop over the names**, from the back of the list.
* `mshAutoCompletePath_eq`: the path that a line ends with.
* `shellAutoComplete_string`: **tab**, on a line that its completion may overrun.
-/

namespace RtThread.Shell

open Buffer Editing

variable {env : Env} {line typed : Text}

/-! ## The names -/

theorem common_take (s t : Text) (k : ℕ) : common (s.take k) t = s.take (min k (strCommon s t)) := by
  induction s generalizing t k with
  | nil => cases t <;> simp [common]
  | cons a s ih =>
    cases k with
    | zero => simp [common]
    | succ k =>
      cases t with
      | nil => simp [common, strCommon]
      | cons b t =>
        rw [List.take_succ_cons]
        simp only [common, strCommon]
        split
        · rw [Nat.add_min_add_right, List.take_succ_cons, ih]
        · rw [Nat.min_zero, List.take_zero]

/-- The loops know the common beginning by its length, in the first name found. -/
structure Known (typed : Text) (acc : Option Text × ℕ) (found : List Text) : Prop where
  none : found = [] → acc = (none, 0)
  some : ∀ name rest, found = name :: rest →
    ∃ k, acc = (Option.some name, k) ∧ k ≤ name.length ∧ name.take k = rest.foldl common name

theorem foldl_common_ne {name : Text} {rest : List Text} (ht : typed ≠ [])
    (h : ∀ n ∈ name :: rest, typed <+: n) : rest.foldl common name ≠ [] := by
  intro h0
  have := le_foldl_common h
  rw [h0, List.prefix_nil] at this
  exact ht this

/-- **The loop over the names**, by the names that it has found so far. -/
theorem foldl_matchName {unset : Option Text × ℕ → Bool} (h0 : unset (none, 0) = true)
    (hset : ∀ name k, k ≠ 0 → unset (some name, k) = false) (ht : typed ≠ []) (names : List Text) :
    Known typed (names.foldl (matchName unset typed) (none, 0)) (names.filter (typed.isPrefixOf ·)) := by
  induction names using List.reverseRecOn with
  | nil =>
    refine ⟨fun _ => rfl, fun name rest h => ?_⟩
    cases h
  | append_singleton names n ih =>
    rw [List.foldl_append, List.filter_append]
    by_cases hn : typed.isPrefixOf n = true
    · have hstep : ∀ acc, [n].foldl (matchName unset typed) acc =
          let acc := if unset acc then (some n, n.length) else acc
          (acc.1, min acc.2 (strCommon (acc.1.getD []) n)) := by
        intro acc
        rw [List.foldl_cons, List.foldl_nil, matchName, if_pos hn]
      rw [hstep, List.filter_cons_of_pos hn, List.filter_nil]
      refine ⟨fun h => absurd h (by simp), fun name rest h => ?_⟩
      cases hf : names.filter (typed.isPrefixOf ·) with
      | nil =>
        rw [hf] at h
        obtain ⟨rfl, rfl⟩ := List.cons.inj h
        rw [ih.none hf, h0]
        have hself : n.take (min n.length (strCommon n n)) = n := by
          rw [← common_take, List.take_length]
          exact (common_le_left n n).eq_of_length_le (le_common List.prefix_rfl List.prefix_rfl).length_le
        exact ⟨_, rfl, Nat.min_le_left _ _, hself⟩
      | cons first found =>
        rw [hf] at h
        obtain ⟨rfl, rfl⟩ := List.cons.inj h
        obtain ⟨k, hk, hle, hcommon⟩ := ih.some first found hf
        have hne : first.take k ≠ [] := by
          rw [hcommon]
          apply foldl_common_ne ht
          intro m hm
          rw [← hf] at hm
          exact List.isPrefixOf_iff_prefix.1 (List.mem_filter.1 hm).2
        have hk0 : k ≠ 0 := by
          rintro rfl
          exact hne rfl
        rw [hk, hset first k hk0]
        refine ⟨_, rfl, (Nat.min_le_left _ _).trans hle, ?_⟩
        rw [List.append_eq, List.foldl_append, ← hcommon, List.foldl_cons, List.foldl_nil, common_take]
        rfl
    · have hstep : ∀ acc, [n].foldl (matchName unset typed) acc = acc := by
        intro acc
        rw [List.foldl_cons, List.foldl_nil, matchName, if_neg hn]
      rw [hstep, List.filter_cons_of_neg hn, List.filter_nil, List.append_nil]
      exact ih

/-- What a loop leaves: nothing found, or the completion. -/
theorem known_complete {acc : Option Text × ℕ} {names : List Text}
    (h : Known typed acc (names.filter (typed.isPrefixOf ·))) :
    acc = (none, 0) ∧ complete typed names = typed ∨
      ∃ name, acc = (some name, (complete typed names).length) ∧
        name.take (complete typed names).length = complete typed names := by
  unfold complete
  cases hf : names.filter (typed.isPrefixOf ·) with
  | nil => exact .inl ⟨h.none hf, rfl⟩
  | cons name rest =>
    obtain ⟨k, hk, hle, hcommon⟩ := h.some name rest hf
    have hlen : (rest.foldl common name).length = k := by
      rw [← hcommon, List.length_take, Nat.min_eq_left hle]
    refine .inr ⟨name, ?_, ?_⟩
    · rw [hk, hlen]
    · rw [hlen, hcommon]

theorem matchCommands_complete (ht : typed ≠ []) (names : List Text) :
    matchCommands typed names = (none, 0) ∧ complete typed names = typed ∨
      ∃ name, matchCommands typed names = (some name, (complete typed names).length) ∧
        name.take (complete typed names).length = complete typed names :=
  known_complete (foldl_matchName rfl (fun _ _ hk => by simpa using hk) ht names)

theorem matchSymbols_complete (ht : typed ≠ []) (names : List Text) :
    matchSymbols typed names = (none, 0) ∧ complete typed names = typed ∨
      ∃ name, matchSymbols typed names = (some name, (complete typed names).length) ∧
        name.take (complete typed names).length = complete typed names :=
  known_complete (foldl_matchName rfl (fun _ _ _ => rfl) ht names)

theorem noZero_complete {names : List Text} (ht : 0 ∉ typed) (hn : ∀ n ∈ names, 0 ∉ n) :
    0 ∉ complete typed names := by
  intro h0
  obtain h | ⟨n, hmem, h⟩ := mem_complete h0
  · exact ht h
  · exact hn n hmem h

theorem noZero_commands : ∀ n ∈ env.commands, (0 : Byte) ∉ n := by
  intro n hn
  obtain ⟨name, -, hname⟩ := List.mem_filterMap.1 hn
  split at hname
  · cases hname
    exact fun h0 => name.noZero (List.mem_of_mem_drop h0)
  · cases hname

theorem noZero_chars (names : List Name) : ∀ n ∈ names.map (·.chars), (0 : Byte) ∉ n := by
  intro n hn
  obtain ⟨name, -, rfl⟩ := List.mem_map.1 hn
  exact name.noZero

theorem noZero_symbols : ∀ n ∈ env.symbols, (0 : Byte) ∉ n := by
  intro n hn
  obtain hn | hn := List.mem_append.1 hn
  · exact noZero_chars _ n hn
  · exact noZero_chars _ n hn

theorem noZero_completePath (h : 0 ∉ typed) : 0 ∉ Editor.completePath env typed := by
  unfold Editor.completePath
  split
  · exact h
  · rename_i names _
    dsimp only
    split
    · exact h
    · rw [List.mem_append]
      rintro (h0 | h0)
      · exact h ((List.rdropWhile_prefix _ _).subset h0)
      · refine noZero_complete (fun h0 => h ?_) (noZero_chars names) h0
        exact (List.rtakeWhile_suffix _ _).subset h0

theorem noZero_completeArgument (env : Env) (h : 0 ∉ typed) : 0 ∉ Editor.completeArgument env typed := by
  unfold Editor.completeArgument
  split
  · rw [List.mem_append]
    rintro (h0 | h0)
    · exact h ((List.rdropWhile_prefix _ _).subset h0)
    · refine noZero_completePath (fun h0 => h ?_) h0
      exact (List.rtakeWhile_suffix _ _).subset h0
  · exact h

theorem noZero_completed (env : Env) (h : 0 ∉ typed) : 0 ∉ Editor.completed env typed := by
  unfold Editor.completed
  split
  · exact List.not_mem_nil
  · split
    · exact noZero_complete (noZero_completeArgument env h) noZero_commands
    · exact noZero_complete h noZero_symbols

/-! ## The path -/

theorem lastPart_append (u v : Text) (ptr index : ℕ) :
    lastPart ptr index (u ++ v) = lastPart (ptr + u.length) (lastPart ptr index u) v := by
  induction u generalizing ptr index with
  | nil => rfl
  | cons c u ih =>
    rw [List.cons_append, lastPart, lastPart, ih, List.length_cons]
    congr 1
    omega

theorem lastPart_noSlash {v : Text} (h : 0x2f ∉ v) (ptr index : ℕ) : lastPart ptr index v = index := by
  induction v generalizing ptr index with
  | nil => rfl
  | cons c v ih =>
    have hc : c ≠ 0x2f := fun hc => h (hc ▸ List.mem_cons_self)
    rw [lastPart, if_neg hc]
    exact ih (fun hv => h (List.mem_cons_of_mem _ hv)) _ _

/-- `index` in `msh_auto_complete_path` is behind the last slash. -/
theorem lastPart_eq (text : Text) : lastPart 0 0 text = (text.rdropWhile (· ≠ 0x2f)).length := by
  have hcut := List.rdropWhile_append_rtakeWhile (p := fun c : Byte => c ≠ 0x2f) (l := text)
  have hno : (0x2f : Byte) ∉ text.rtakeWhile (· ≠ 0x2f) := by
    intro h
    have := List.mem_rtakeWhile_imp h
    simp at this
  conv_lhs => rw [← hcut]
  rw [lastPart_append, lastPart_noSlash hno]
  rcases List.eq_nil_or_concat (text.rdropWhile (· ≠ 0x2f)) with h | ⟨u, c, h⟩
  · rw [h]
    rfl
  · have hne : text.rdropWhile (· ≠ 0x2f) ≠ [] := by
      rw [h]
      simp
    have hlast := List.rdropWhile_last_not (fun c : Byte => decide (c ≠ 0x2f)) text hne
    have hc : c = 0x2f := by
      simp only [h] at hlast
      simpa using hlast
    rw [h, List.concat_eq_append, lastPart_append, lastPart, lastPart, if_pos hc, List.length_append,
      List.length_singleton, Nat.zero_add]

theorem lastBlank_none {text : Text} {k : ℕ} (h : lastBlank text k = none) :
    ∀ j, 0 < j → j ≤ k → text[j]? ≠ some 0x20 := by
  induction k with
  | zero =>
    intro j h0 hk
    omega
  | succ k ih =>
    intro j h0 hj
    unfold lastBlank at h
    split at h
    · cases h
    · rename_i hne
      obtain rfl | hlt := Nat.eq_or_lt_of_le hj
      · exact hne
      · exact ih h j h0 (by omega)

theorem lastBlank_some {text : Text} {k i : ℕ} (h : lastBlank text k = some i) :
    0 < i ∧ text[i]? = some 0x20 ∧ ∀ j, i < j → j ≤ k → text[j]? ≠ some 0x20 := by
  induction k with
  | zero => cases h
  | succ k ih =>
    unfold lastBlank at h
    split at h
    · rename_i hb
      cases h
      exact ⟨Nat.succ_pos k, hb, fun j hj hk => by omega⟩
    · rename_i hne
      obtain ⟨h0, hb, hmax⟩ := ih h
      refine ⟨h0, hb, fun j hj hk => ?_⟩
      obtain rfl | hlt := Nat.eq_or_lt_of_le hk
      · exact hne
      · exact hmax j hj (by omega)

theorem cut_last {u v : Text} {c : Byte} (hv : c ∉ v) :
    (u ++ c :: v).rdropWhile (· ≠ c) = u ++ [c] ∧ (u ++ c :: v).rtakeWhile (· ≠ c) = v := by
  have hdrop : (u ++ c :: v).rdropWhile (· ≠ c) = u ++ [c] := by
    induction v using List.reverseRecOn with
    | nil => exact List.rdropWhile_concat_neg _ _ _ (by simp)
    | append_singleton v x ih =>
      rw [List.mem_append, List.mem_singleton, not_or] at hv
      rw [← List.cons_append, ← List.append_assoc, List.rdropWhile_concat_pos _ _ _ (by simpa using Ne.symm hv.2)]
      exact ih hv.1
  have hcut := List.rdropWhile_append_rtakeWhile (p := fun x : Byte => x ≠ c) (l := u ++ c :: v)
  rw [hdrop, List.append_assoc] at hcut
  exact ⟨hdrop, (List.cons.inj (List.append_cancel_left hcut)).2⟩

/-- **The argument** begins behind the blank that the scan finds. -/
theorem lastBlank_cut (text : Text) :
    lastBlank text text.length = none ∧ 0x20 ∉ text.tail ∨
      ∃ u v, text = u ++ 0x20 :: v ∧ lastBlank text text.length = some u.length ∧ 0x20 ∈ text.tail ∧
        text.rdropWhile (· ≠ 0x20) = u ++ [0x20] ∧ text.rtakeWhile (· ≠ 0x20) = v := by
  cases hb : lastBlank text text.length with
  | none =>
    refine .inl ⟨rfl, fun hmem => ?_⟩
    obtain ⟨j, hj⟩ := List.mem_iff_getElem?.1 hmem
    rw [List.getElem?_tail] at hj
    have hlt := (List.getElem?_eq_some_iff.1 hj).1
    exact lastBlank_none hb (j + 1) (Nat.succ_pos j) hlt.le hj
  | some i =>
    obtain ⟨h0, hi, hmax⟩ := lastBlank_some hb
    obtain ⟨hlt, hget⟩ := List.getElem?_eq_some_iff.1 hi
    have htext : text = text.take i ++ 0x20 :: text.drop (i + 1) := by
      rw [← hget, ← List.drop_eq_getElem_cons hlt, List.take_append_drop]
    have hv : (0x20 : Byte) ∉ text.drop (i + 1) := by
      intro hmem
      obtain ⟨j, hj⟩ := List.mem_iff_getElem?.1 hmem
      rw [List.getElem?_drop] at hj
      have hlt' := (List.getElem?_eq_some_iff.1 hj).1
      exact hmax _ (by omega) hlt'.le hj
    have hlen : (text.take i).length = i := List.length_take_of_le hlt.le
    have htail : (0x20 : Byte) ∈ text.tail := by
      obtain ⟨j, rfl⟩ : ∃ j, i = j + 1 := ⟨i - 1, by omega⟩
      rw [← List.getElem?_tail] at hi
      exact List.mem_of_getElem? hi
    have hcut := cut_last (u := text.take i) hv
    rw [← htext] at hcut
    refine .inr ⟨text.take i, text.drop (i + 1), htext, ?_, htail, hcut.1, hcut.2⟩
    rw [hlen]

/-! ## The line -/

theorem writeMatch_eq {acc : Option Text × ℕ} {c : Text} (h : Holds FINSH_CMD_SIZE line typed)
    (hle : typed.length ≤ c.length)
    (hacc : acc = (none, 0) ∧ c = typed ∨ ∃ name, acc = (some name, c.length) ∧ name.take c.length = c) :
    writeMatch line acc = if c.length ≤ FINSH_CMD_SIZE then some (pad FINSH_CMD_SIZE c) else none := by
  obtain ⟨rfl, rfl⟩ | ⟨name, rfl, hname⟩ := hacc
  · rw [if_pos h.short.le, writeMatch, ← h.eq]
  · have hlen : c.length ≤ name.length := by
      have := congrArg List.length hname
      rw [List.length_take] at this
      omega
    have hsrc : rtStrncpy name c.length = c := by
      rw [rtStrncpy, hname, Nat.sub_eq_zero_of_le hlen, List.replicate_zero, List.append_nil]
    rw [writeMatch, hsrc]
    have h' : Holds FINSH_CMD_SIZE line ([] ++ typed) := h
    split
    · rename_i hfit
      exact h'.overwrite hle (by simpa using hfit)
    · rename_i hfull
      apply blit_none
      rw [h.length]
      omega

/-- The line that holds a text, if it has room for the zero. -/
def lineOf (text : Text) : Option Text :=
  if text.length < FINSH_CMD_SIZE then some (pad FINSH_CMD_SIZE text) else none

theorem lineOf_self (h : Holds FINSH_CMD_SIZE line typed) : lineOf typed = some line := by
  rw [lineOf, if_pos h.short, ← h.eq]

/-- The new part of a path, and the zero behind it. -/
theorem writePart_eq {b part c : Text} (h : Holds FINSH_CMD_SIZE line (b ++ part)) (hle : part.length ≤ c.length)
    (hz : 0 ∉ c) :
    ((blit line b.length c).bind fun line => store line (b.length + c.length) 0) = lineOf (b ++ c) := by
  rw [lineOf, List.length_append]
  by_cases hroom : b.length + c.length ≤ FINSH_CMD_SIZE
  · rw [h.overwrite hle hroom, Option.bind_some]
    have hlen : (b ++ c).length ≤ FINSH_CMD_SIZE := by rwa [List.length_append]
    split
    · rename_i hfit
      have hbc : 0 ∉ b ++ c := by
        rw [List.mem_append, not_or]
        exact ⟨fun h0 => h.noZero (List.mem_append_left _ h0), hz⟩
      have := (holds_pad (n := FINSH_CMD_SIZE) (by rwa [List.length_append]) hbc).store_zero
      rwa [List.length_append] at this
    · rename_i hfull
      apply store_none
      rw [length_pad hlen]
      omega
  · rw [blit_none (by rw [h.length]; omega), if_neg (by omega)]
    rfl

/-- **The path** that begins behind `head`, in a line that it may overrun. -/
theorem mshAutoCompletePath_eq (env : Env) {head : Text} (h : Holds FINSH_CMD_SIZE line (head ++ typed)) :
    mshAutoCompletePath env line head.length = lineOf (head ++ Editor.completePath env typed) := by
  have hcut := List.rdropWhile_append_rtakeWhile (p := fun c : Byte => c ≠ 0x2f) (l := typed)
  have hstring : string line head.length = some typed := by
    rw [h.string (by simp), List.drop_left]
  have htake : typed.take (lastPart 0 0 typed) = typed.rdropWhile (· ≠ 0x2f) := by
    rw [lastPart_eq]
    exact (List.prefix_iff_eq_take.1 (List.rdropWhile_prefix _ _)).symm
  have hdrop : typed.drop (lastPart 0 0 typed) = typed.rtakeWhile (· ≠ 0x2f) := by
    apply List.append_cancel_left
    rw [hcut, ← htake, List.take_append_drop]
  simp only [mshAutoCompletePath, hstring, Option.bind_eq_bind, Option.bind_some, htake, hdrop, Editor.completePath]
  cases env.listing (typed.rdropWhile (· ≠ 0x2f)) with
  | none => exact (lineOf_self h).symm
  | some names =>
    dsimp only
    by_cases hpart : typed.rtakeWhile (· ≠ 0x2f) = []
    · rw [if_pos hpart, if_pos hpart]
      exact (lineOf_self h).symm
    · rw [if_neg hpart, if_neg hpart]
      have h' : Holds FINSH_CMD_SIZE line
          ((head ++ typed.rdropWhile (· ≠ 0x2f)) ++ typed.rtakeWhile (· ≠ 0x2f)) := by
        rw [List.append_assoc, hcut]
        exact h
      have hle := (le_complete (typed.rtakeWhile (· ≠ 0x2f)) (names.map (·.chars))).length_le
      obtain ⟨hm, hself⟩ | ⟨name, hm, hname⟩ := matchCommands_complete hpart (names.map (·.chars))
      · rw [hm, hself, hcut]
        exact (lineOf_self h).symm
      · have hz := noZero_complete (fun h0 => h'.noZero (List.mem_append_right _ h0)) (noZero_chars names)
        have hc0 : (complete (typed.rtakeWhile (· ≠ 0x2f)) (names.map (·.chars))).length ≠ 0 := by
          have := List.length_pos_iff.2 hpart
          omega
        have hat : head.length + lastPart 0 0 typed = (head ++ typed.rdropWhile (· ≠ 0x2f)).length := by
          rw [List.length_append, lastPart_eq]
        rw [hm]
        dsimp only
        rw [if_pos hc0, Option.getD_some, hname, hat, ← List.append_assoc]
        exact writePart_eq h' hle hz

/-- A text that is as long as its line. -/
theorem string_full (h : FINSH_CMD_SIZE ≤ typed.length) (hz : 0 ∉ typed) :
    string (pad FINSH_CMD_SIZE typed) 0 = none :=
  string_none (noZero_pad h hz)

/-- The last stage: the names, over the whole line. -/
theorem writeMatch_string {acc : Option Text × ℕ} {c : Text} (h : Holds FINSH_CMD_SIZE line typed)
    (hle : typed.length ≤ c.length) (hz : 0 ∉ c)
    (hacc : acc = (none, 0) ∧ c = typed ∨ ∃ name, acc = (some name, c.length) ∧ name.take c.length = c) :
    ((writeMatch line acc).bind fun line => (string line 0).map fun text => (line, text)) =
      (lineOf c).map fun line => (line, c) := by
  rw [writeMatch_eq h hle hacc, lineOf]
  by_cases hfit : c.length < FINSH_CMD_SIZE
  · rw [if_pos hfit.le, if_pos hfit, Option.bind_some, string_pad hfit hz]
    rfl
  · rw [if_neg hfit, Option.map_none]
    split
    · rw [Option.bind_some, string_full (by omega) hz]
      rfl
    · rfl

theorem completeBehindBlank_eq (h : Holds FINSH_CMD_SIZE line typed) :
    completeBehindBlank env line typed = lineOf (Editor.completeArgument env typed) := by
  unfold completeBehindBlank Editor.completeArgument
  obtain ⟨hb, hno⟩ | ⟨u, v, rfl, hb, hmem, hu, hv⟩ := lastBlank_cut typed
  · rw [hb, if_neg hno]
    exact (lineOf_self h).symm
  · rw [hb, if_pos hmem, hu, hv]
    rw [List.append_cons] at h
    have := mshAutoCompletePath_eq env h
    rwa [List.length_append, List.length_singleton] at this

theorem completeArgument_ne (h : typed ≠ []) : Editor.completeArgument env typed ≠ [] := by
  unfold Editor.completeArgument
  split
  · rename_i hmem
    obtain ⟨-, hno⟩ | ⟨u, v, -, -, -, hu, -⟩ := lastBlank_cut typed
    · exact absurd hmem hno
    · rw [hu]
      simp
  · exact h

/-- **Tab**, and what is read from the line afterwards. -/
theorem shellAutoComplete_string (env : Env) (h : Holds FINSH_CMD_SIZE line typed) :
    ((shellAutoComplete env line).bind fun line => (string line 0).map fun text => (line, text)) =
      (lineOf (Editor.completed env typed)).map fun line => (line, Editor.completed env typed) := by
  have hz := h.noZero
  have hstring : string line 0 = some typed := h.string (Nat.zero_le _)
  unfold shellAutoComplete Editor.completed
  by_cases hne : typed = []
  · subst hne
    simp [mshAutoComplete, listPrefix, hstring, lineOf_self h]
  · rw [if_neg hne]
    cases env.msh with
    | true =>
      simp only [if_true, mshAutoComplete, hstring, Option.bind_eq_bind, Option.bind_some, if_neg hne,
        completeBehindBlank_eq h]
      have hz' := noZero_completeArgument env hz
      generalize hc : complete (Editor.completeArgument env typed) env.commands = c
      have hle : (Editor.completeArgument env typed).length ≤ c.length := hc ▸ (le_complete _ _).length_le
      rw [lineOf]
      split
      · rename_i hfit
        have hmid := holds_pad hfit hz'
        rw [Option.bind_some, string_pad hfit hz', Option.bind_some]
        apply writeMatch_string hmid hle (hc ▸ noZero_complete hz' noZero_commands)
        rw [← hc]
        exact matchCommands_complete (completeArgument_ne hne) _
      · rename_i hfull
        -- the path has left the line, and so would the whole text
        rw [lineOf, if_neg (by omega)]
        rfl
    | false =>
      simp only [Bool.false_eq_true, if_false, listPrefix, hstring, Option.bind_eq_bind, Option.bind_some, if_neg hne]
      exact writeMatch_string h (le_complete _ _).length_le (noZero_complete hz noZero_symbols)
        (matchSymbols_complete hne _)

end RtThread.Shell
