import RtThread.Spec.DfsFs
import Mathlib.Data.List.Induction

/-!
# What `dfs_normalize_path` does

The string that has been written is a component and a slash for each level, behind the first slash; a path that leads
above the root loses that slash first (`form`).

* `dfsNormalizePath_eq`: **it returns where the path leads**, for every path.
-/

namespace RtThread.DfsFs

open Pathname

/-- What has been written at a place: the first slash, and a slash behind each component. -/
def form (place : Bool × List Text) : Text := (if place.1 = true then ['/'] else []) ++ place.2.flatMap (· ++ ['/'])

/-- What is returned for a place. -/
def outcome : Option (Bool × List Text) → Option (Option Text)
  | none => some none
  | some (true, stack) => some (some (render stack))
  | some (false, []) => none
  | some (false, stack) => some (some (stack.flatMap (· ++ ['/'])).dropLast)

variable {r : Bool} {stack init : List Text} {c : Text}

theorem form_append (r : Bool) (init : List Text) (c : Text) : form (r, init ++ [c]) = form (r, init) ++ c ++ ['/'] := by
  simp [form]

/-- What is written ends with a slash, unless there is nothing. -/
theorem form_end (place : Bool × List Text) : form place = [] ∨ (form place).getLast? = some '/' := by
  obtain ⟨r, stack⟩ := place
  induction stack using List.reverseRecOn with
  | nil => cases r <;> simp [form]
  | append_singleton init c =>
    right
    rw [form_append]
    simp

theorem form_true (init : List Text) (c : Text) : form (true, init) ++ c = render (init ++ [c]) := by
  have hbody : form (true, init) ++ c = body (init ++ [c]) := by
    induction init with
    | nil => simp [form, body]
    | cons d init ih =>
      simp only [form, body, if_true, List.flatMap_cons, List.cons_append, List.nil_append, List.append_assoc] at ih ⊢
      rw [← ih]
  rw [hbody, render, if_neg (by simp)]

theorem form_false (init : List Text) (c : Text) :
    form (false, init) ++ c = ((init ++ [c]).flatMap (· ++ ['/'])).dropLast := by
  have h := form_append false init c
  have hform : form (false, init ++ [c]) = (init ++ [c]).flatMap (· ++ ['/']) := by simp [form]
  rw [← hform, h, List.dropLast_concat]

theorem outcome_append (r : Bool) (init : List Text) (c : Text) :
    outcome (some (r, init ++ [c])) = some (some (form (r, init) ++ c)) := by
  cases r with
  | true => rw [outcome, form_true]
  | false =>
    rw [form_false]
    cases h : init ++ [c] with
    | nil => exact absurd h (by simp)
    | cons d ds => rfl

/-- The end of the loop, without a last component. -/
theorem finish_form (hstack : ∀ c ∈ stack, c ≠ []) : finish (form (r, stack)) = outcome (some (r, stack)) := by
  induction stack using List.reverseRecOn with
  | nil => cases r <;> rfl
  | append_singleton init c =>
    have hc : 0 < c.length := List.length_pos_iff.2 (hstack c (by simp))
    have hlen : (form (r, init) ++ c ++ ['/']).length ≠ 1 := by
      simp only [List.length_append, List.length_singleton]
      omega
    rw [outcome_append, form_append, finish, if_neg (by simp), if_pos ⟨hlen, by simp⟩, List.dropLast_concat]

/-- The end of the loop, with a last component. -/
theorem finish_last (hne : c ≠ []) (hc : '/' ∉ c) : finish (form (r, stack) ++ c) = outcome (some (r, stack ++ [c])) := by
  have hlast : (form (r, stack) ++ c).getLast? ≠ some '/' := by
    rw [List.getLast?_append_of_ne_nil _ hne]
    exact fun h => hc (List.mem_of_getLast? h)
  rw [outcome_append, finish, if_neg (by simp [hne]), if_neg fun h => hlast h.2]

/-- One level up. -/
theorem upOne_form (hstack : ∀ c ∈ stack, '/' ∉ c) :
    upOne (form (r, stack)) = (walkStep (r, stack) ['.', '.']).map form := by
  induction stack using List.reverseRecOn with
  | nil => cases r <;> rfl
  | append_singleton init c =>
    have hc : ∀ x ∈ c.reverse, decide (x ≠ '/') = true := by
      intro x hx
      apply decide_eq_true
      rintro rfl
      exact hstack c (by simp) (List.mem_reverse.1 hx)
    have hstop : (form (r, init)).reverse.dropWhile (· ≠ '/') = (form (r, init)).reverse := by
      obtain hnil | hend := form_end (r, init)
      · rw [hnil]
        rfl
      · rw [← List.head?_reverse] at hend
        obtain ⟨t, ht⟩ := List.head?_eq_some_iff.1 hend
        rw [ht]
        simp
    have hup : upOne (form (r, init ++ [c])) = some (form (r, init)) := by
      rw [form_append, upOne, if_neg (by simp), List.dropLast_concat, List.reverse_append,
        List.dropWhile_append_of_pos hc, hstop, List.reverse_reverse]
    rw [hup, walkStep]
    simp

/-! ## The loop -/

theorem splitOn_slash (hc : '/' ∉ c) (t : Text) : (c ++ '/' :: t).splitOn '/' = c :: t.splitOn '/' :=
  List.splitOn_append_cons_self_of_not_mem hc t

/-- Slashes that are skipped lead nowhere. -/
theorem walk_skip (place : Bool × List Text) (t : Text) :
    ((t.dropWhile (· = '/')).splitOn '/').foldlM walkStep place = (t.splitOn '/').foldlM walkStep place := by
  induction t with
  | nil => rfl
  | cons x t ih =>
    by_cases hx : x = '/'
    · subst hx
      have hsplit : ('/' :: t).splitOn '/' = [] :: t.splitOn '/' := splitOn_slash (c := []) (by simp) t
      rw [List.dropWhile_cons_of_pos (by simp), hsplit, List.foldlM_cons, ih]
      rfl
    · rw [List.dropWhile_cons_of_neg (by simpa using hx)]

theorem dropWhile_head (t : Text) : (t.dropWhile (· = '/')).head? ≠ some '/' := by
  intro h
  have hnot := List.head?_dropWhile_not (· = '/') t
  rw [h] at hnot
  simp at hnot

/-- A component goes up to the next slash. -/
theorem component_split (src : Text) : '/' ∉ src.takeWhile (· ≠ '/') ∧
    (src = src.takeWhile (· ≠ '/') ∧ src.dropWhile (· ≠ '/') = [] ∨
      ∃ t, src = src.takeWhile (· ≠ '/') ++ '/' :: t ∧ src.dropWhile (· ≠ '/') = '/' :: t) := by
  induction src with
  | nil => simp
  | cons x src ih =>
    by_cases hx : x = '/'
    · subst hx
      simp
    · have htake : (x :: src).takeWhile (· ≠ '/') = x :: src.takeWhile (· ≠ '/') :=
        List.takeWhile_cons_of_pos (by simpa using hx)
      have hdrop : (x :: src).dropWhile (· ≠ '/') = src.dropWhile (· ≠ '/') :=
        List.dropWhile_cons_of_pos (by simpa using hx)
      rw [htake, hdrop]
      refine ⟨fun hmem => ?_, ih.2.imp ?_ ?_⟩
      · obtain rfl | hmem := List.mem_cons.1 hmem
        · exact hx rfl
        · exact ih.1 hmem
      · exact fun h => ⟨congrArg _ h.1, h.2⟩
      · rintro ⟨t, ht, hrest⟩
        exact ⟨t, congrArg _ ht, hrest⟩

variable {n : ℕ} {place : Bool × List Text}

/-- The places that a path leads to. -/
def Stack (stack : List Text) : Prop := ∀ c ∈ stack, c ≠ [] ∧ '/' ∉ c

theorem Stack.step (hplace : Stack place.2) (hc : '/' ∉ c) {place' : Bool × List Text}
    (h : walkStep place c = some place') : Stack place'.2 := by
  unfold walkStep at h
  split at h
  · cases h
    exact hplace
  · rename_i hne
    split at h
    · split at h
      · cases h
        exact fun d hd => hplace d (List.dropLast_subset _ hd)
      · split at h
        · cases h
          exact nofun
        · cases h
    · cases h
      intro d hd
      obtain hd | hd := List.mem_append.1 hd
      · exact hplace d hd
      · rw [List.mem_singleton.1 hd]
        exact ⟨fun h => hne (.inl h), hc⟩

/-- **The loop returns where what is left leads.** -/
theorem normalizeLoop_eq {src : Text} (place : Bool × List Text) (hn : src.length < n) (hsrc : src.head? ≠ some '/') (hplace : Stack place.2) :
    normalizeLoop n src (form place) = outcome ((src.splitOn '/').foldlM walkStep place) := by
  induction n generalizing src place with
  | zero => exact absurd hn (Nat.not_lt_zero _)
  | succ n ih =>
    have hnil : finish (form place) = outcome (some place) := finish_form fun c hc => (hplace c hc).1
    have hup : upOne (form place) = (walkStep place ['.', '.']).map form := upOne_form fun c hc => (hplace c hc).2
    -- what is left behind a component
    have hskip : ∀ (t : Text) (place' : Bool × List Text), t.length < n → Stack place'.2 →
        normalizeLoop n (t.dropWhile (· = '/')) (form place') = outcome ((t.splitOn '/').foldlM walkStep place') := by
      intro t place' ht hplace'
      have hlen := (List.dropWhile_sublist (· = '/') (l := t)).length_le
      rw [ih place' (Nat.lt_of_le_of_lt hlen ht) (dropWhile_head t) hplace', walk_skip]
    unfold normalizeLoop
    split
    · -- `.` at the end
      exact hnil
    · -- `./`
      rename_i t
      have hsplit : ('.' :: '/' :: t).splitOn '/' = ['.'] :: t.splitOn '/' := splitOn_slash (c := ['.']) (by simp) t
      rw [hskip t place (by simp only [List.length_cons] at hn; omega) hplace, hsplit]
      rfl
    · -- `..` at the end
      have hsplit : ['.', '.'].splitOn '/' = [['.', '.']] := List.splitOn_eq_singleton (by simp)
      rw [hsplit, hup, List.foldlM_cons]
      cases hstep : walkStep place ['.', '.'] with
      | none => rfl
      | some place' =>
        exact hskip [] place' (by simp only [List.length_cons] at hn; simp; omega) (hplace.step (by simp) hstep)
    · -- `../`
      rename_i t
      have hsplit : ('.' :: '.' :: '/' :: t).splitOn '/' = ['.', '.'] :: t.splitOn '/' :=
        splitOn_slash (c := ['.', '.']) (by simp) t
      rw [hsplit, hup, List.foldlM_cons]
      cases hstep : walkStep place ['.', '.'] with
      | none => rfl
      | some place' =>
        exact hskip t place' (by simp only [List.length_cons] at hn; omega) (hplace.step (by simp) hstep)
    · -- another component
      rename_i hdot hdotSlash hdots hdotsSlash
      obtain ⟨hc, hsplit⟩ := component_split src
      set c := src.takeWhile (· ≠ '/') with hcdef
      obtain ⟨hsrc', hrest⟩ | ⟨t, hsrc', hrest⟩ := hsplit
      · -- the last one
        have hlast : src.splitOn '/' = [c] := by
          rw [hsrc']
          exact List.splitOn_eq_singleton hc
        rw [hrest, hlast]
        by_cases hne : c = []
        · rw [hne, List.append_nil]
          exact hnil
        · have hpush : walkStep place c = some (place.1, place.2 ++ [c]) := by
            rw [walkStep, if_neg, if_neg]
            · exact fun h => hdots (hsrc'.trans h)
            · rintro (h | h)
              · exact hne h
              · exact hdot (hsrc'.trans h)
          show finish (form place ++ c) = outcome ([c].foldlM walkStep place)
          rw [List.foldlM_cons, hpush]
          exact finish_last hne hc
      · have hne : c ≠ [] := by
          intro h
          rw [h] at hsrc'
          exact hsrc (by rw [hsrc']; rfl)
        have hpush : walkStep place c = some (place.1, place.2 ++ [c]) := by
          rw [walkStep, if_neg, if_neg]
          · exact fun h => hdotsSlash t (hsrc'.trans (by rw [h]; rfl))
          · rintro (h | h)
            · exact hne h
            · exact hdotSlash t (hsrc'.trans (by rw [h]; rfl))
        have hlen : t.length < n := by
          rw [hsrc', List.length_append, List.length_cons] at hn
          omega
        have hsplit : src.splitOn '/' = c :: t.splitOn '/' := by
          rw [hsrc']
          exact splitOn_slash hc t
        have hstack : Stack (place.2 ++ [c]) := hplace.step hc hpush
        rw [hrest, hsplit, List.foldlM_cons, hpush]
        have hdrop : ('/' :: t).dropWhile (· = '/') = t.dropWhile (· = '/') := List.dropWhile_cons_of_pos (by simp)
        show normalizeLoop n (('/' :: t).dropWhile (· = '/')) (form place ++ c ++ ['/']) = _
        have hform : form place ++ c ++ ['/'] = form (place.1, place.2 ++ [c]) := (form_append place.1 place.2 c).symm
        rw [hdrop, hform]
        exact hskip t (place.1, place.2 ++ [c]) hlen hstack

theorem fullName_head (cfg : Config) (path : Text) : ∃ t, fullName cfg.workdir path = '/' :: t := by
  unfold fullName
  split
  · rename_i h
    obtain ⟨t, ht⟩ := List.head?_eq_some_iff.1 h
    exact ⟨t, ht⟩
  · obtain ⟨t, ht⟩ := cfg.canonical.head
    rw [ht]
    exact ⟨_, rfl⟩

/-- **`dfs_normalize_path` returns where the path leads.** -/
theorem dfsNormalizePath_eq (cfg : Config) (path : Text) :
    dfsNormalizePath cfg.workdir path true = outcome (walk cfg path) := by
  obtain ⟨t, ht⟩ := fullName_head cfg path
  have hsplit : ('/' :: t).splitOn '/' = [] :: t.splitOn '/' := splitOn_slash (c := []) (by simp) t
  have hlen := (List.dropWhile_sublist (· = '/') (l := t)).length_le
  have hdrop : ('/' :: t).dropWhile (· = '/') = t.dropWhile (· = '/') := List.dropWhile_cons_of_pos (by simp)
  have hloop : normalizeLoop (t.length + 1) (('/' :: t).dropWhile (· = '/')) ['/'] =
      outcome ((t.splitOn '/').foldlM walkStep (true, [])) := by
    rw [hdrop, ← walk_skip]
    exact normalizeLoop_eq (true, []) (Nat.lt_succ_of_le hlen) (dropWhile_head t) nofun
  rw [dfsNormalizePath, if_pos rfl, walk, ht, hsplit, List.foldlM_cons]
  exact hloop

example : dfsNormalizePath ['/'] ['a', '/', '.', '/', 'b', '/', '.', '.', '/', 'c'] true =
    some (some ['/', 'a', '/', 'c']) := by decide

end RtThread.DfsFs
