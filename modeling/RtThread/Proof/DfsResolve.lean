import RtThread.Proof.DfsFs
import RtThread.Proof.DfsNormalize

/-!
# What `dfs_normalize_path` returns for a file name

`up_one` takes the first slash away before it finds the root to be left: one `..` too many makes the path relative, and
only the next one is noticed.

* `walk_eq`: a file name leads where it is resolved to; where it is not, what follows the first `..` that leads above
  the root is resolved once more, without the slash.
* `normalizes_iff`: **a path is normalized, unless exactly one `..` leads above the root.**
-/

namespace RtThread.DfsNormalize

open Pathname

variable {directory : Directory} {filename c : Text} {stack stack' cs : List Text}

/-! ## Components -/

theorem climb_push (hnil : c ≠ []) (hdot : c ≠ ['.']) (hdots : c ≠ ['.', '.']) : climb stack c = some (stack ++ [c]) := by
  rw [climb, if_neg (by simp [hnil, hdot]), if_neg hdots]

/-- Components are put one behind the other. -/
theorem climb_components (h : ∀ c ∈ cs, Component c) : cs.foldlM climb stack = some (stack ++ cs) := by
  induction cs generalizing stack with
  | nil => simp
  | cons c cs ih =>
    obtain ⟨hc, hcs⟩ := List.forall_mem_cons.1 h
    rw [List.foldlM_cons, climb_push hc.nonempty hc.noDot hc.noDotDot]
    exact (ih hcs).trans (by rw [List.append_assoc]; rfl)

/-- What holds of the components that are put behind the others holds of all. -/
theorem climb_forall {P : Text → Prop} (hcs : ∀ c ∈ cs, c ≠ [] → c ≠ ['.'] → c ≠ ['.', '.'] → P c)
    (hstack : ∀ c ∈ stack, P c) (h : cs.foldlM climb stack = some stack') : ∀ c ∈ stack', P c := by
  induction cs generalizing stack with
  | nil =>
    cases h
    exact hstack
  | cons c cs ih =>
    obtain ⟨hc, hcs⟩ := List.forall_mem_cons.1 hcs
    rw [List.foldlM_cons] at h
    obtain ⟨next, hnext, h⟩ := Option.bind_eq_some_iff.1 h
    refine ih hcs ?_ h
    unfold climb at hnext
    split at hnext
    · cases hnext
      exact hstack
    · rename_i hdot
      split at hnext
      · split at hnext
        · cases hnext
        · cases hnext
          exact fun d hd => hstack d (List.dropLast_subset _ hd)
      · rename_i hdots
        cases hnext
        intro d hd
        obtain hd | hd := List.mem_append.1 hd
        · exact hstack d hd
        · rw [List.mem_singleton.1 hd]
          exact hc (fun h => hdot (.inl h)) (fun h => hdot (.inr h)) hdots

theorem subset_splitOn {t : Text} (hc : c ∈ t.splitOn '/') : c ⊆ t := by
  have hall : ∀ ls : List Text, c ∈ ls → c ⊆ ['/'].intercalate ls := by
    intro ls
    induction ls with
    | nil => exact nofun
    | cons d ls ih =>
      intro hmem
      cases ls with
      | nil =>
        rw [List.mem_singleton.1 hmem, List.intercalate_singleton]
        exact List.Subset.refl d
      | cons e ls =>
        rw [List.intercalate_cons_cons]
        obtain rfl | hmem := List.mem_cons.1 hmem
        · exact fun x hx => List.mem_append_left _ (List.mem_append_left _ hx)
        · exact fun x hx => List.mem_append_right _ (ih hmem hx)
  have h := hall _ hc
  rwa [List.intercalate_splitOn] at h

theorem splitOn_body (cs : List Text) (hcs : ∀ c ∈ cs, '/' ∉ c) (t : Text) :
    (body cs ++ '/' :: t).splitOn '/' = [] :: (cs ++ t.splitOn '/') := by
  induction cs with
  | nil => exact DfsFs.splitOn_slash (c := []) (by simp) t
  | cons c cs ih =>
    obtain ⟨hc, hcs⟩ := List.forall_mem_cons.1 hcs
    obtain ⟨u, hu⟩ : ∃ u, body cs ++ '/' :: t = '/' :: u := by
      cases cs with
      | nil => exact ⟨t, rfl⟩
      | cons d ds => exact ⟨_, rfl⟩
    have hnil : ('/' :: u).splitOn '/' = [] :: u.splitOn '/' := DfsFs.splitOn_slash (c := []) (by simp) u
    have htail : u.splitOn '/' = cs ++ t.splitOn '/' := by
      have h := ih hcs
      rw [hu, hnil] at h
      exact (List.cons.inj h).2
    have hcons : body (c :: cs) ++ '/' :: t = '/' :: (c ++ '/' :: u) := by
      rw [← hu]
      simp [body]
    have hfirst : ('/' :: (c ++ '/' :: u)).splitOn '/' = [] :: (c ++ '/' :: u).splitOn '/' :=
      DfsFs.splitOn_slash (c := []) (by simp) _
    rw [hcons, hfirst, DfsFs.splitOn_slash hc, htail]
    rfl

/-! ## Where a file name leads -/

theorem walk_lost : cs.foldlM DfsFs.walkStep (false, stack) = (cs.foldlM climb stack).map (false, ·) := by
  induction cs generalizing stack with
  | nil => rfl
  | cons c cs ih =>
    have hstep : DfsFs.walkStep (false, stack) c = (climb stack c).map (false, ·) := by
      unfold DfsFs.walkStep climb
      split
      · rfl
      · split
        · by_cases hnil : stack = [] <;> simp [hnil]
        · rfl
    rw [List.foldlM_cons, List.foldlM_cons, hstep]
    cases climb stack c with
    | none => rfl
    | some next => exact ih

theorem walkStep_kept (h : climb stack c = some stack') : DfsFs.walkStep (true, stack) c = some (true, stack') := by
  unfold climb at h
  unfold DfsFs.walkStep
  split at h
  · cases h
    rename_i hdot
    rw [if_pos hdot]
  · rename_i hdot
    rw [if_neg hdot]
    split at h
    · rename_i hdots
      split at h
      · cases h
      · rename_i hstack
        cases h
        rw [if_pos hdots, if_pos hstack]
    · rename_i hdots
      cases h
      rw [if_neg hdots]

theorem walk_kept (h : cs.foldlM climb stack = some stack') :
    cs.foldlM DfsFs.walkStep (true, stack) = some (true, stack') := by
  induction cs generalizing stack with
  | nil =>
    cases h
    rfl
  | cons c cs ih =>
    rw [List.foldlM_cons] at h
    obtain ⟨next, hnext, h⟩ := Option.bind_eq_some_iff.1 h
    rw [List.foldlM_cons, walkStep_kept hnext]
    exact ih h

/-- The first `..` that leads above the root. -/
theorem climb_none (h : cs.foldlM climb stack = none) :
    ∃ front rest, cs = front ++ ['.', '.'] :: rest ∧ front.foldlM climb stack = some [] := by
  induction cs generalizing stack with
  | nil => cases h
  | cons c cs ih =>
    rw [List.foldlM_cons] at h
    cases hnext : climb stack c with
    | none =>
      unfold climb at hnext
      split at hnext
      · cases hnext
      · split at hnext
        · rename_i hdots
          split at hnext
          · rename_i hstack
            exact ⟨[], cs, by rw [hdots]; rfl, by rw [hstack]; rfl⟩
          · cases hnext
        · cases hnext
    | some next =>
      rw [hnext] at h
      obtain ⟨front, rest, rfl, hfront⟩ := ih h
      refine ⟨c :: front, rest, rfl, ?_⟩
      rw [List.foldlM_cons, hnext]
      exact hfront

theorem walk_above {front : List Text} (h : front.foldlM climb stack = some []) (rest : List Text) :
    (front ++ ['.', '.'] :: rest).foldlM DfsFs.walkStep (true, stack) = (rest.foldlM climb []).map (false, ·) := by
  rw [List.foldlM_append, walk_kept h, ← walk_lost]
  rfl

theorem climb_above {front rest : List Text} (h : front.foldlM climb stack = some []) :
    (front ++ ['.', '.'] :: rest).foldlM climb stack = none := by
  rw [List.foldlM_append, h]
  rfl

/-! ## What is returned -/

theorem Directory.text_noNul (directory : Directory) : NUL ∉ directory.text := by
  intro hmem
  unfold Directory.text render at hmem
  split at hmem
  · exact absurd (List.mem_singleton.1 hmem) (by decide)
  · obtain ⟨c, hc, hmem⟩ := List.mem_flatMap.1 hmem
    obtain hmem | hmem := List.mem_cons.1 hmem
    · exact absurd hmem (by decide)
    · exact directory.noNul c hc hmem

/-- A name is looked at from where it starts. -/
theorem walk_origin (directory : Directory) (filename : Text) :
    ((DfsFs.fullName directory.text filename).splitOn '/').foldlM DfsFs.walkStep (true, []) =
      (filename.splitOn '/').foldlM DfsFs.walkStep (true, origin directory filename) := by
  unfold DfsFs.fullName origin
  split
  · rfl
  · have hslash : ∀ c ∈ directory.components, '/' ∉ c := fun c hc => (directory.valid c hc).noSlash
    have hcomponents : directory.components.foldlM DfsFs.walkStep (true, []) = some (true, directory.components) :=
      walk_kept (climb_components directory.valid)
    unfold Directory.text render
    split
    · rename_i hroot
      have hsplit : ('/' :: '/' :: filename).splitOn '/' = [] :: [] :: filename.splitOn '/' := by
        have h : ∀ t : Text, ('/' :: t).splitOn '/' = [] :: t.splitOn '/' := DfsFs.splitOn_slash (c := []) (by simp)
        rw [h, h]
      rw [hroot]
      show (('/' :: '/' :: filename).splitOn '/').foldlM _ _ = _
      rw [hsplit]
      rfl
    · rw [splitOn_body _ hslash, List.foldlM_cons]
      show (directory.components ++ filename.splitOn '/').foldlM _ (true, []) = _
      rw [List.foldlM_append, hcomponents]
      rfl

/-- **What is returned for a file name.** -/
theorem dfsNormalizePath_outcome (directory : Directory) (filename : Name) :
    dfsNormalizePath directory.text filename.text =
      DfsFs.outcome ((filename.text.splitOn '/').foldlM DfsFs.walkStep (true, origin directory filename.text)) := by
  have hcfg := DfsFs.dfsNormalizePath_eq
    ⟨directory.text, ⟨directory.components, directory.valid, rfl⟩, [], 0⟩ filename.text
  rw [dfsNormalizePath_eq directory.text_noNul filename.noNul, hcfg, DfsFs.walk, walk_origin]

theorem origin_forall (directory : Directory) (filename : Text) :
    ∀ c ∈ origin directory filename, Component c ∧ NUL ∉ c := by
  unfold origin
  split
  · exact fun c hc => absurd hc List.not_mem_nil
  · exact fun c hc => ⟨directory.valid c hc, directory.noNul c hc⟩

/-- A file name is resolved to a directory. -/
theorem resolve_forall {filename : Name} (h : resolve directory filename.text = some stack) :
    ∀ c ∈ stack, Component c ∧ NUL ∉ c := by
  refine climb_forall (fun c hc hnil hdot hdots => ?_) (origin_forall directory filename.text) h
  exact ⟨⟨hnil, DfsFs.notMem_splitOn hc, hdot, hdots⟩, fun hmem => filename.noNul (subset_splitOn hc hmem)⟩

theorem intercalate_body (c : Text) (cs : List Text) : ['/'].intercalate (c :: cs) = c ++ body cs := by
  induction cs generalizing c with
  | nil => rw [List.intercalate_singleton, body, List.flatMap_nil, List.append_nil]
  | cons d cs ih =>
    rw [List.intercalate_cons_cons, ih, List.append_assoc]
    rfl

/-- A canonical path is resolved to its own components. -/
theorem resolve_text (directory directory' : Directory) :
    resolve directory' directory.text = some directory.components := by
  have hhead : directory.text.head? = some '/' := by
    obtain ⟨t, ht⟩ := Canonical.head ⟨directory.components, directory.valid, rfl⟩
    exact congrArg List.head? ht
  have hslash : ∀ c ∈ directory.components, '/' ∉ c := fun c hc => (directory.valid c hc).noSlash
  rw [resolve, origin, if_pos hhead]
  unfold Directory.text render
  split
  · rename_i hroot
    rw [hroot]
    rfl
  · have hbody : ['/'].intercalate ([] :: directory.components) = body directory.components :=
      intercalate_body [] directory.components
    rw [← hbody, List.splitOn_intercalate '/' (List.forall_mem_cons.2 ⟨List.not_mem_nil, hslash⟩) (by simp),
      List.foldlM_cons]
    exact climb_components directory.valid

/-- A canonical path is normalized to itself. -/
theorem normalize_text (directory directory' : Directory) :
    dfsNormalizePath directory'.text directory.text = some (some directory.text) := by
  have hfix := dfsNormalizePath_outcome directory' ⟨directory.text, directory.text_noNul⟩
  rw [hfix, walk_kept (resolve_text directory directory')]
  rfl

/-- What is returned is canonical, unless it has lost its first slash. -/
theorem normalize_slash {filename : Name} {p : Text} (h : dfsNormalizePath directory.text filename.text = some (some p))
    (hp : p.head? = some '/') : ∃ place : Directory, p = place.text := by
  rw [dfsNormalizePath_outcome] at h
  cases hres : resolve directory filename.text with
  | some stack =>
    have hall := resolve_forall hres
    rw [walk_kept hres] at h
    cases h
    exact ⟨⟨stack, fun c hc => (hall c hc).1, fun c hc => (hall c hc).2⟩, rfl⟩
  | none =>
    obtain ⟨front, rest, hsplit, hfront⟩ := climb_none hres
    rw [hsplit, walk_above hfront] at h
    cases hrest : rest.foldlM climb [] with
    | none =>
      rw [hrest] at h
      cases h
    | some left =>
      have hleft : ∀ c ∈ left, Component c := by
        have hnone : ∀ c ∈ ([] : List Text), Component c := fun c hc => absurd hc List.not_mem_nil
        refine climb_forall (fun c hc hnil hdot hdots => ?_) hnone hrest
        have hmem : c ∈ filename.text.splitOn '/' := by
          rw [hsplit]
          simp [hc]
        exact ⟨hnil, DfsFs.notMem_splitOn hmem, hdot, hdots⟩
      rw [hrest] at h
      cases left with
      | nil => cases h
      | cons c left =>
        -- the first character is one of a component
        cases h
        have hc := hleft c List.mem_cons_self
        obtain ⟨x, t, rfl⟩ := List.exists_cons_of_ne_nil hc.nonempty
        have hlong : t ++ ['/'] ++ left.flatMap (· ++ ['/']) ≠ [] := by simp
        rw [List.flatMap_cons, List.cons_append, List.cons_append, List.dropLast_cons_of_ne_nil hlong] at hp
        cases hp
        exact absurd List.mem_cons_self hc.noSlash

/-- **A path is normalized, unless exactly one `..` leads above the root.** -/
theorem normalizes_iff (directory : Directory) (filename : Name) :
    Normalizes directory filename.text ↔ ¬ClimbsOnce directory filename.text := by
  have hout := dfsNormalizePath_outcome directory filename
  cases hres : resolve directory filename.text with
  | some stack =>
    have hall := resolve_forall hres
    let place : Directory := ⟨stack, fun c hc => (hall c hc).1, fun c hc => (hall c hc).2⟩
    have hpath : dfsNormalizePath directory.text filename.text = some (some place.text) := by
      rw [hout, walk_kept hres]
      rfl
    refine iff_of_true ⟨_, hpath, by simp [hres], ?_⟩ ?_
    · rintro p ⟨⟩
      refine ⟨⟨stack, place.valid, rfl⟩, by rw [hres]; rfl, normalize_text place⟩
    · rintro ⟨front, rest, hsplit, hfront, -⟩
      rw [resolve, hsplit, climb_above hfront] at hres
      cases hres
  | none =>
    obtain ⟨front, rest, hsplit, hfront⟩ := climb_none hres
    rw [hsplit, walk_above hfront] at hout
    cases hrest : rest.foldlM climb [] with
    | none =>
      -- the next `..` is noticed
      rw [hrest] at hout
      refine iff_of_true ⟨none, hout, by simp [hres], nofun⟩ ?_
      rintro ⟨front', rest', hsplit', hfront', hsome⟩
      have hwalk := walk_above hfront rest
      rw [← hsplit, hsplit', walk_above hfront', hrest] at hwalk
      rw [Option.map_eq_none_iff.1 hwalk] at hsome
      cases hsome
    | some left =>
      rw [hrest] at hout
      refine iff_of_false ?_ (not_not_intro ⟨front, rest, hsplit, hfront, by rw [hrest]; rfl⟩)
      rintro ⟨r, hr, hnull, -⟩
      rw [hnull.2 hres, hout] at hr
      cases left with
      | nil => cases hr
      | cons c left => cases hr

/-- The path loses its first slash. -/
theorem normalizes_above : ¬∀ (directory : Directory) (filename : Name), Normalizes directory filename.text := by
  intro h
  have hroot : dfsNormalizePath ['/'] ['/', '.', '.', '/', 'a'] = some (some ['a']) := by decide
  obtain ⟨r, hr, -, hpath⟩ := h ⟨[], (by simp), (by simp)⟩ ⟨['/', '.', '.', '/', 'a'], by decide⟩
  obtain rfl : some ['a'] = r := Option.some.inj (hroot.symm.trans hr)
  obtain ⟨t, ht⟩ := (hpath ['a'] rfl).1.head
  cases ht

end RtThread.DfsNormalize
