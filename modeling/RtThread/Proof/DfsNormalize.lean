import RtThread.Spec.DfsNormalize
import RtThread.Proof.DfsPath

/-!
# `dfs_normalize_path` in its buffer

The cursors cut the allocated string into what has been written in front of `dst` and what is left from `src` on
(`At`); each function of the buffer is its function of `DfsFs` on these two texts.

* `dfsNormalizePath_eq`: **the function in its buffer is the function on texts**, for every name.
-/

namespace RtThread.DfsNormalize

open Pathname

variable {buf rest done : Text} {src dst n : ℕ}

/-- The cursors: `done` is in front of `dst`, and `rest` and the zero are from `src` on. -/
structure At (buf : Text) (src dst : ℕ) (rest done : Text) : Prop where
  front : buf.take dst = done
  back : buf.drop src = rest ++ [NUL]
  le : dst ≤ src

theorem At.read (h : At buf src dst rest done) (i : ℕ) : buf[src + i]? = (rest ++ [NUL])[i]? := by
  rw [← h.back, List.getElem?_drop]

theorem lt_length (h : buf.drop src = rest ++ [NUL]) : src < buf.length := by
  have hlen := congrArg List.length h
  simp only [List.length_drop, List.length_append, List.length_singleton] at hlen
  omega

theorem At.length (h : At buf src dst rest done) : done.length = dst := by
  rw [← h.front, List.length_take]
  exact Nat.min_eq_left (Nat.le_trans h.le (Nat.le_of_lt (lt_length h.back)))

/-! ## The inner loops -/

theorem skipSlashes_eq (h : buf.drop src = rest ++ [NUL]) (hn : rest.length < n) :
    ∃ src', skipSlashes buf n src = some src' ∧ src ≤ src' ∧ buf.drop src' = rest.dropWhile (· = '/') ++ [NUL] := by
  induction n generalizing src rest with
  | zero => exact absurd hn (Nat.not_lt_zero _)
  | succ n ih =>
    have hread : buf[src]? = (rest ++ [NUL])[0]? := by rw [← h, List.getElem?_drop, Nat.add_zero]
    unfold skipSlashes
    rw [hread]
    cases rest with
    | nil => exact ⟨src, rfl, Nat.le_refl src, h⟩
    | cons x rest =>
      by_cases hx : x = '/'
      · subst hx
        have htail : buf.drop (src + 1) = rest ++ [NUL] := by
          rw [← List.drop_drop, h]
          rfl
        obtain ⟨src', hrun, hle, hdrop⟩ := ih htail (Nat.lt_of_succ_lt_succ hn)
        exact ⟨src', hrun, Nat.le_of_succ_le hle, hdrop⟩
      · refine ⟨src, ?_, Nat.le_refl src, ?_⟩
        · simp [hx]
        · rw [List.dropWhile_cons_of_neg (by simpa using hx)]
          exact h

/-- A byte that is written behind what has been written, and in front of what is left. -/
theorem store_eq (hfront : buf.take dst = done) (hdrop : buf.drop src = rest) (hlt : dst < src) (hsrc : src ≤ buf.length)
    (c : Char) :
    ∃ buf', store buf dst c = some buf' ∧ buf'.take (dst + 1) = done ++ [c] ∧ buf'.drop src = rest ∧
      buf'.length = buf.length := by
  have hdst : dst < buf.length := Nat.lt_of_lt_of_le hlt hsrc
  refine ⟨buf.set dst c, if_pos hdst, ?_, ?_, List.length_set⟩
  · rw [List.take_add_one, List.take_set_of_le (Nat.le_refl dst), hfront, List.getElem?_set_self hdst]
    rfl
  · rw [List.drop_set_of_lt hlt, hdrop]

theorem copyUp_eq (h : At buf src dst rest done) (hnul : NUL ∉ rest) (hn : rest.length < n) :
    ∃ (c : Char) (buf' : Text) (src' dst' : ℕ), copyUp n buf src dst = some (c, buf', src', dst') ∧
      buf'.take dst' = done ++ rest.takeWhile (· ≠ '/') ∧ dst' < src' ∧ src' ≤ buf'.length ∧
      match rest.dropWhile (· ≠ '/') with
      | [] => c ≠ '/'
      | _ :: t => c = '/' ∧ buf'.drop src' = t ++ [NUL] := by
  induction n generalizing buf src dst rest done with
  | zero => exact absurd hn (Nat.not_lt_zero _)
  | succ n ih =>
    have hsrc := lt_length h.back
    have hread := h.read 0
    rw [Nat.add_zero] at hread
    unfold copyUp
    rw [hread]
    cases rest with
    | nil => exact ⟨NUL, buf, src + 1, dst, rfl, by simpa using h.front, Nat.lt_succ_of_le h.le, hsrc, show NUL ≠ '/' by decide⟩
    | cons x rest =>
      have hx : x ≠ NUL := fun hx => hnul (by rw [hx]; exact List.mem_cons_self)
      have htail : buf.drop (src + 1) = rest ++ [NUL] := by
        rw [← List.drop_drop, h.back]
        rfl
      by_cases hslash : x = '/'
      · subst hslash
        exact ⟨'/', buf, src + 1, dst, rfl, by simpa using h.front, Nat.lt_succ_of_le h.le, hsrc, rfl, htail⟩
      · obtain ⟨buf', hstore, hfront, hdrop, hlen⟩ :=
          store_eq h.front htail (Nat.lt_succ_of_le h.le) hsrc x
        obtain ⟨c, buf'', src', dst', hrun, htake, hlt, hle, hend⟩ :=
          ih ⟨hfront, hdrop, Nat.succ_le_succ h.le⟩ (fun hmem => hnul (List.mem_cons_of_mem _ hmem)) (Nat.lt_of_succ_lt_succ hn)
        have hcons : (x :: rest).takeWhile (· ≠ '/') = x :: rest.takeWhile (· ≠ '/') :=
          List.takeWhile_cons_of_pos (by simpa using hslash)
        have hconsDrop : (x :: rest).dropWhile (· ≠ '/') = rest.dropWhile (· ≠ '/') :=
          List.dropWhile_cons_of_pos (by simpa using hslash)
        refine ⟨c, buf'', src', dst', ?_, ?_, hlt, hle, ?_⟩
        · show (if x ≠ NUL ∧ x ≠ '/' then (store buf dst x).bind fun buf => copyUp n buf (src + 1) (dst + 1)
            else some (x, buf, src + 1, dst)) = _
          rw [if_pos ⟨hx, hslash⟩, hstore]
          exact hrun
        · rw [htake, hcons, List.append_assoc]
          rfl
        · rw [hconsDrop]
          exact hend

theorem back_eq (hdst : dst ≤ buf.length) : ∃ dst', back buf dst = some dst' ∧ dst' ≤ dst ∧
    buf.take dst' = ((buf.take dst).reverse.dropWhile (· ≠ '/')).reverse := by
  induction dst with
  | zero => exact ⟨0, rfl, Nat.le_refl 0, by simp⟩
  | succ dst ih =>
    have hlt : dst < buf.length := hdst
    have htake : (buf.take (dst + 1)).reverse = buf[dst] :: (buf.take dst).reverse := by
      rw [List.take_add_one, List.getElem?_eq_getElem hlt]
      simp
    unfold back
    rw [List.getElem?_eq_getElem hlt, htake]
    by_cases hslash : buf[dst] = '/'
    · refine ⟨dst + 1, by simp [hslash], Nat.le_refl _, ?_⟩
      rw [List.dropWhile_cons_of_neg (by simpa using hslash), ← htake, List.reverse_reverse]
    · obtain ⟨dst', hrun, hle, hback⟩ := ih (Nat.le_of_lt hlt)
      refine ⟨dst', ?_, Nat.le_succ_of_le hle, ?_⟩
      · rw [← hrun]
        exact if_pos hslash
      · rw [List.dropWhile_cons_of_pos (by simpa using hslash), hback]

/-! ## A round -/

/-- `up_one` on the texts. -/
theorem upOne_eq (h : At buf src dst rest done) :
    match DfsFs.upOne done with
    | none => dst = 0
    | some done' => dst ≠ 0 ∧ ∃ dst', back buf (dst - 1) = some dst' ∧ At buf src dst' rest done' := by
  have hlen := h.length
  by_cases hdone : done = []
  · subst hdone
    exact hlen.symm
  · have hdst : dst ≠ 0 := by
      rintro rfl
      exact hdone (List.length_eq_zero_iff.1 hlen)
    have hlt : dst - 1 ≤ buf.length := by
      have := lt_length h.back
      have := h.le
      omega
    obtain ⟨dst', hrun, hle, hback⟩ := back_eq hlt
    have htake : buf.take (dst - 1) = done.dropLast := by
      rw [List.dropLast_eq_take, hlen, ← h.front, List.take_take, Nat.min_eq_left (Nat.sub_le dst 1)]
    rw [DfsFs.upOne, if_neg hdone]
    exact ⟨hdst, dst', hrun, by rw [hback, htake], h.back, by have := h.le; omega⟩

/-- The string goes up to the first zero. -/
theorem str_append (hnul : NUL ∉ done) (u : Text) : str (done ++ NUL :: u) = done := by
  rw [str, List.takeWhile_append_of_pos, List.takeWhile_cons_of_neg (by simp), List.append_nil]
  intro x hx
  simp only [ne_eq, decide_not, Bool.not_eq_eq_eq_not, Bool.not_true, decide_eq_false_iff_not]
  rintro rfl
  exact hnul hx

/-- A string that is not empty is returned as it is. -/
theorem ending_rest (hne : done ≠ []) (hnul : NUL ∉ done) (u : Text) :
    ((if (done ++ NUL :: u)[0]? = some NUL then (store (done ++ NUL :: u) 0 '/').bind fun buf => store buf 1 NUL
      else some (done ++ NUL :: u)).map fun buf => some (str buf)) = some (some done) := by
  obtain ⟨x, t, rfl⟩ := List.exists_cons_of_ne_nil hne
  have hx : x ≠ NUL := fun hx => hnul (by rw [hx]; exact List.mem_cons_self)
  rw [if_neg (by simpa using hx), Option.map_some, str_append hnul]

/-- What follows the loop, on the texts. -/
theorem ending_eq (hfront : buf.take dst = done) (hdst : dst < buf.length) (hnul : NUL ∉ done) :
    (ending buf dst).map (fun buf => some (str buf)) = DfsFs.finish done := by
  have hlen : done.length = dst := by
    rw [← hfront, List.length_take]
    exact Nat.min_eq_left (Nat.le_of_lt hdst)
  have hbuf : buf.set dst NUL = done ++ NUL :: buf.drop (dst + 1) := by
    rw [List.set_eq_take_append_cons_drop, if_pos hdst, hfront]
  unfold ending
  rw [store, if_pos hdst]
  by_cases hdone : done = []
  · subst hdone
    obtain rfl : dst = 0 := hlen.symm
    rfl
  · have hzero : dst ≠ 0 := by
      rintro rfl
      exact hdone (List.length_eq_zero_iff.1 hlen)
    have hlast : (done ++ NUL :: buf.drop (dst + 1))[dst - 1]? = done.getLast? := by
      rw [List.getElem?_append_left (by omega), List.getLast?_eq_getElem?, hlen]
    rw [DfsFs.finish, if_neg hdone]
    simp only [hbuf, if_neg hzero, hlast]
    by_cases hslash : dst - 1 ≠ 0 ∧ done.getLast? = some '/'
    · -- a slash at the end becomes the terminating zero
      obtain ⟨init, rfl⟩ := List.getLast?_eq_some_iff.1 hslash.2
      rw [List.length_append, List.length_singleton] at hlen
      have hinit : init ≠ [] := by
        rintro rfl
        exact hslash.1 (by rw [← hlen]; rfl)
      have hset : ((init ++ ['/']) ++ NUL :: buf.drop (dst + 1)).set (dst - 1) NUL =
          init ++ NUL :: (NUL :: buf.drop (dst + 1)) := by
        rw [List.append_assoc, List.set_append_right _ _ (by omega), show dst - 1 - init.length = 0 by omega]
        rfl
      have hlong : (init ++ ['/']).length ≠ 1 := by
        have := List.length_pos_iff.2 hinit
        simp only [List.length_append, List.length_singleton]
        omega
      rw [if_pos hslash, store, if_pos (by simp only [List.length_append, List.length_singleton]; omega), hset,
        if_pos ⟨hlong, hslash.2⟩, List.dropLast_concat]
      exact ending_rest hinit (fun h => hnul (List.mem_append_left _ h)) _
    · rw [if_neg hslash, if_neg (by rw [hlen]; exact fun h => hslash ⟨by omega, h.2⟩)]
      exact ending_rest hdone hnul _

theorem branch_copy (h : At buf src dst rest done) (hnul : NUL ∉ rest) (hdot : rest ≠ ['.'])
    (hslash : ∀ t, rest ≠ '.' :: '/' :: t) (hdots : rest ≠ ['.', '.']) (hdotsSlash : ∀ t, rest ≠ '.' :: '.' :: '/' :: t) :
    branch buf src = some (.copy src) := by
  have h₀ := h.read 0
  have h₁ := h.read 1
  have h₂ := h.read 2
  rw [Nat.add_zero] at h₀
  unfold branch
  rw [h₀, h₁, h₂]
  match rest with
  | [] => rfl
  | [x] =>
    have hx : x ≠ '.' := fun hx => hdot (by rw [hx])
    exact if_pos hx
  | [x, y] =>
    have hy : y ≠ NUL := fun hy => hnul (by simp [hy])
    by_cases hx : x = '.'
    · subst hx
      have hyslash : y ≠ '/' := fun hy => hslash [] (by rw [hy])
      have hydot : y ≠ '.' := fun hy => hdots (by rw [hy])
      simp [hy, hyslash, hydot]
    · exact if_pos hx
  | x :: y :: z :: t =>
    have hy : y ≠ NUL := fun hy => hnul (by simp [hy])
    have hz : z ≠ NUL := fun hz => hnul (by simp [hz])
    by_cases hx : x = '.'
    · subst hx
      have hyslash : y ≠ '/' := fun hy => hslash (z :: t) (by rw [hy])
      by_cases hydot : y = '.'
      · subst hydot
        have hzslash : z ≠ '/' := fun hz => hdotsSlash t (by rw [hz])
        simp [hy, hz, hzslash]
      · simp [hy, hyslash, hydot]
    · exact if_pos hx

/-- The two loops agree for so many rounds. -/
def Agrees (n : ℕ) : Prop :=
  ∀ {buf rest done : Text} {src dst : ℕ}, At buf src dst rest done → NUL ∉ rest → NUL ∉ done →
    (normalizeLoop n buf src dst).map (Option.map str) = DfsFs.normalizeLoop n rest done

/-- A round that copies a component. -/
theorem round_copy (hn : Agrees n) {src₀ : ℕ} (hb : branch buf src₀ = some (.copy src)) (h : At buf src dst rest done)
    (hrest : NUL ∉ rest) (hdone : NUL ∉ done) :
    (normalizeLoop (n + 1) buf src₀ dst).map (Option.map str) =
      match rest.dropWhile (· ≠ '/') with
      | [] => DfsFs.finish (done ++ rest.takeWhile (· ≠ '/'))
      | left => DfsFs.normalizeLoop n (left.dropWhile (· = '/')) (done ++ rest.takeWhile (· ≠ '/') ++ ['/']) := by
  have hlen : rest.length < buf.length := by
    have := congrArg List.length h.back
    simp only [List.length_drop, List.length_append, List.length_singleton] at this
    omega
  obtain ⟨c, buf', src', dst', hcopy, hfront, hlt, hle, hend⟩ := copyUp_eq h hrest hlen
  have hdone' : NUL ∉ done ++ rest.takeWhile (· ≠ '/') := fun hmem =>
    (List.mem_append.1 hmem).elim hdone fun hmem => hrest ((List.takeWhile_sublist _).subset hmem)
  unfold normalizeLoop
  rw [hb]
  simp only [hcopy]
  cases hleft : rest.dropWhile (· ≠ '/') with
  | nil =>
    rw [hleft] at hend
    rw [if_neg hend, Option.map_map]
    exact ending_eq hfront (Nat.lt_of_lt_of_le hlt hle) hdone'
  | cons x t =>
    rw [hleft] at hend
    obtain ⟨rfl, hdrop⟩ := hend
    obtain rfl : x = '/' := by
      have := List.head?_dropWhile_not (· ≠ '/') rest
      rw [hleft] at this
      simpa using this
    have ht : NUL ∉ t := fun hmem => hrest ((List.dropWhile_sublist _).subset (by rw [hleft]; exact List.mem_cons_of_mem _ hmem))
    obtain ⟨buf'', hstore, hfront', hdrop', hlen'⟩ := store_eq hfront hdrop hlt hle '/'
    have hshort : t.length < buf''.length := by
      have := congrArg List.length hdrop'
      simp only [List.length_drop, List.length_append, List.length_singleton] at this
      omega
    obtain ⟨src'', hskip, hge, hback⟩ := skipSlashes_eq hdrop' hshort
    rw [if_pos rfl, hstore]
    simp only [hskip]
    rw [List.dropWhile_cons_of_pos (by simp)]
    refine hn ⟨hfront', hback, by omega⟩ (fun hmem => ht ((List.dropWhile_sublist _).subset hmem)) fun hmem => ?_
    obtain hmem | hmem := List.mem_append.1 hmem
    · exact hdone' hmem
    · exact absurd (List.mem_singleton.1 hmem) (by decide)

/-- A round that takes a component away. -/
theorem round_upOne (hn : Agrees n) {src₀ : ℕ} (hb : branch buf src₀ = some (.upOne src)) (h : At buf src dst rest done)
    (hrest : NUL ∉ rest) (hdone : NUL ∉ done) :
    (normalizeLoop (n + 1) buf src₀ dst).map (Option.map str) =
      match DfsFs.upOne done with
      | none => some none
      | some done => DfsFs.normalizeLoop n rest done := by
  have hup := upOne_eq h
  unfold normalizeLoop
  rw [hb]
  simp only
  cases hcase : DfsFs.upOne done with
  | none =>
    rw [hcase] at hup
    rw [if_pos hup]
    rfl
  | some done' =>
    rw [hcase] at hup
    obtain ⟨hdst, dst', hback, hat⟩ := hup
    rw [if_neg hdst, hback]
    refine hn hat hrest fun hmem => hdone ?_
    -- what is taken away is at the end
    have hsub : done' ⊆ done := by
      unfold DfsFs.upOne at hcase
      split at hcase
      · cases hcase
      · cases hcase
        intro x hx
        have hx := (List.dropWhile_sublist _).subset (List.mem_reverse.1 hx)
        exact List.dropLast_subset _ (List.mem_reverse.1 hx)
    exact hsub hmem

/-- The slashes behind dots are skipped. -/
theorem At.skip (h : At buf src dst rest done) {k : ℕ} {t : Text} (hrest : rest.drop k = t) (hk : k ≤ rest.length) :
    ∃ src', skipSlashes buf buf.length (src + k) = some src' ∧ At buf src' dst (t.dropWhile (· = '/')) done := by
  have hdrop : buf.drop (src + k) = t ++ [NUL] := by
    rw [← List.drop_drop, h.back, List.drop_append_of_le_length hk, hrest]
  have hlen : t.length < buf.length := by
    have := congrArg List.length hdrop
    simp only [List.length_drop, List.length_append, List.length_singleton] at this
    omega
  obtain ⟨src', hskip, hge, hback⟩ := skipSlashes_eq hdrop hlen
  exact ⟨src', hskip, h.front, hback, by have := h.le; omega⟩

/-- **The loop in the buffer is the loop on texts.** -/
theorem normalizeLoop_eq (n : ℕ) : Agrees n := by
  induction n with
  | zero => exact fun _ _ _ => rfl
  | succ n ih =>
    intro buf rest done src dst h hrest hdone
    have h₀ := h.read 0
    have h₁ := h.read 1
    have h₂ := h.read 2
    rw [Nat.add_zero] at h₀
    unfold DfsFs.normalizeLoop
    split
    · -- `.` at the end
      have hb : branch buf src = some (.copy (src + 1)) := by simp [branch, h₀, h₁]
      have hnext : At buf (src + 1) dst [] done := ⟨h.front, by rw [← List.drop_drop, h.back]; rfl, Nat.le_succ_of_le h.le⟩
      rw [round_copy ih hb hnext nofun hdone]
      simp
    · -- `./`
      rename_i t
      obtain ⟨src', hskip, hat⟩ := h.skip (k := 2) rfl (by simp)
      have hb : branch buf src = some (.next src') := by simp [branch, h₀, h₁, hskip, NUL]
      unfold normalizeLoop
      rw [hb]
      exact ih hat (fun hmem => hrest (by simp [(List.dropWhile_sublist _).subset hmem])) hdone
    · -- `..` at the end
      have hb : branch buf src = some (.upOne (src + 2)) := by simp [branch, h₀, h₁, h₂, NUL]
      have hnext : At buf (src + 2) dst [] done :=
        ⟨h.front, by rw [← List.drop_drop, h.back]; rfl, Nat.le_add_right_of_le h.le⟩
      exact round_upOne ih hb hnext nofun hdone
    · -- `../`
      rename_i t
      obtain ⟨src', hskip, hat⟩ := h.skip (k := 3) rfl (by simp)
      have hb : branch buf src = some (.upOne src') := by simp [branch, h₀, h₁, h₂, hskip, NUL]
      exact round_upOne ih hb hat (fun hmem => hrest (by simp [(List.dropWhile_sublist _).subset hmem])) hdone
    · rename_i hdot hslash hdots hdotsSlash
      have hb : branch buf src = some (.copy src) := branch_copy h hrest hdot hslash hdots hdotsSlash
      exact round_copy ih hb h hrest hdone

/-! ## The whole function -/

/-- **The function in its buffer is the function on texts.** -/
theorem dfsNormalizePath_eq {directory filename : Text} (hd : NUL ∉ directory) (hf : NUL ∉ filename) :
    dfsNormalizePath directory filename = DfsFs.dfsNormalizePath directory filename true := by
  have hname : NUL ∉ DfsFs.fullName directory filename := by
    unfold DfsFs.fullName
    split
    · exact hf
    · intro hmem
      obtain hmem | hmem := List.mem_append.1 hmem
      · exact hd hmem
      · obtain hmem | hmem := List.mem_cons.1 hmem
        · exact absurd hmem (by decide)
        · exact hf hmem
  have hat : At (DfsFs.fullName directory filename ++ [NUL]) 0 0 (DfsFs.fullName directory filename) [] :=
    ⟨rfl, rfl, Nat.le_refl 0⟩
  have hloop := normalizeLoop_eq ((DfsFs.fullName directory filename).length + 1) hat hname nofun
  rw [dfsNormalizePath, DfsFs.dfsNormalizePath, if_pos rfl, ← hloop, List.length_append, List.length_singleton]

end RtThread.DfsNormalize
