import RtThread.Proof.DfsPath

/-!
# The table of file systems

`dfs_mount` compares the paths in the table with the path as it is spelled, and not with the one that it enters.

* `step_cases`: what a call does; one that fails leaves the table as it was.
* `lookup_exact`: what `dfs_filesystem_lookup` finds in a consistent table.
* `mounts_consistent`: **the table is consistent** in the runs whose mounts are spelled so.
-/

namespace RtThread.DfsFs

open Pathname

variable {cfg : Config} {s s' : State} {a : Act} {path p : Text} {ok : Bool}

/-! ## Where a path leads -/

theorem notMem_splitOn {t c : Text} (hc : c ∈ t.splitOn '/') : '/' ∉ c := by
  induction t generalizing c with
  | nil =>
    rw [List.splitOn_nil, List.mem_singleton] at hc
    rw [hc]
    exact List.not_mem_nil
  | cons x t ih =>
    rw [List.splitOn_cons_eq_if_modifyHead] at hc
    split at hc
    · obtain rfl | hc := List.mem_cons.1 hc
      · exact List.not_mem_nil
      · exact ih hc
    · rename_i hx
      cases hsplit : t.splitOn '/' with
      | nil => exact absurd hsplit (List.splitOn_ne_nil _ _)
      | cons d ds =>
        rw [hsplit, List.modifyHead_cons] at hc
        rw [hsplit] at ih
        obtain rfl | hc := List.mem_cons.1 hc
        · intro hmem
          obtain rfl | hmem := List.mem_cons.1 hmem
          · exact hx (by simp)
          · exact ih List.mem_cons_self hmem
        · exact ih (List.mem_cons_of_mem _ hc)

theorem walkStep_components {place place' : Bool × List Text} {c : Text} (h : ∀ c ∈ place.2, Component c) (hc : '/' ∉ c)
    (hstep : walkStep place c = some place') : ∀ c ∈ place'.2, Component c := by
  unfold walkStep at hstep
  split at hstep
  · cases hstep
    exact h
  · rename_i hdot
    split at hstep
    · split at hstep
      · cases hstep
        exact fun d hd => h d (List.dropLast_subset _ hd)
      · split at hstep
        · cases hstep
          exact nofun
        · cases hstep
    · rename_i hdots
      cases hstep
      intro d hd
      obtain hd | hd := List.mem_append.1 hd
      · exact h d hd
      · rw [List.mem_singleton.1 hd]
        exact ⟨fun h => hdot (.inl h), hc, fun h => hdot (.inr h), hdots⟩

theorem walk_components {place : Bool × List Text} (h : walk cfg path = some place) : ∀ c ∈ place.2, Component c := by
  have hrun : ∀ (l : List Text) (start : Bool × List Text), (∀ c ∈ l, '/' ∉ c) → (∀ c ∈ start.2, Component c) →
      l.foldlM walkStep start = some place → ∀ c ∈ place.2, Component c := by
    intro l
    induction l with
    | nil =>
      intro start _ hstart hl
      cases hl
      exact hstart
    | cons c l ih =>
      intro start hslash hstart hl
      obtain ⟨hc, hslash⟩ := List.forall_mem_cons.1 hslash
      rw [List.foldlM_cons] at hl
      obtain ⟨next, hnext, hl⟩ := Option.bind_eq_some_iff.1 hl
      exact ih next hslash (walkStep_components hstart hc hnext) hl
  exact hrun _ (true, []) (fun c hc => notMem_splitOn hc) nofun h

/-- A path that does not lead above the root is normalized to a canonical one. -/
theorem normalize_canonical {memory : Bool} {fullpath : Text}
    (h : dfsNormalizePath cfg.workdir path memory = some (some fullpath))
    (hroot : ∀ place ∈ walk cfg path, place.1 = true) :
    ∃ place, walk cfg path = some place ∧ fullpath = render place.2 ∧ Canonical fullpath := by
  cases memory with
  | false => cases h
  | true =>
    rw [dfsNormalizePath_eq] at h
    cases hw : walk cfg path with
    | none =>
      rw [hw] at h
      cases h
    | some place =>
      obtain ⟨r, stack⟩ := place
      obtain rfl : r = true := hroot _ hw
      rw [hw] at h
      cases h
      exact ⟨_, rfl, rfl, stack, walk_components hw, rfl⟩

/-! ## The calls -/

/-- An entry is zero, or has a path and operations. -/
def Zeroed (s : State) : Prop := ∀ e ∈ s.table, e = .zero ∨ ∃ p ops, e.path = some p ∧ e.ops = some ops

theorem Zeroed.of_ops (h : Zeroed s) {e : Filesystem} (he : e ∈ s.table) (hops : e.ops = none) : e = .zero := by
  obtain rfl | ⟨p, ops, -, hsome⟩ := h e he
  · rfl
  · rw [hops] at hsome
    cases hsome

theorem Zeroed.ops (h : Zeroed s) {e : Filesystem} (he : e ∈ s.table) (hp : e.path = some p) : ∃ ops, e.ops = some ops := by
  obtain rfl | ⟨p, ops, -, hsome⟩ := h e he
  · cases hp
  · exact ⟨ops, hsome⟩

theorem mountEntry_cases (h : Zeroed s) (devId : Option ℕ) (path : Text) (ops : Ops) (fullpath : Text) (a : Answers) :
    s.mountEntry devId path ops fullpath a = (false, s) ∨
      ∃ i, s.table[i]? = some .zero ∧ ¬s.Mounted path ∧
        s.mountEntry devId path ops fullpath a = (true, ⟨s.table.set i ⟨some fullpath, some ops, devId⟩⟩) := by
  unfold State.mountEntry
  split
  · exact .inl rfl
  · rename_i hany
    cases hi : s.table.findIdx? (·.ops.isNone) with
    | none => exact .inl rfl
    | some i =>
      obtain ⟨hlt, hnone, -⟩ := List.findIdx?_eq_some_iff_getElem.1 hi
      have hzero : s.table[i] = .zero := h.of_ops (List.getElem_mem hlt) (Option.isNone_iff_eq_none.1 hnone)
      have hget : s.table[i]? = some .zero := by
        rw [List.getElem?_eq_getElem hlt, hzero]
      -- an entry that is cleared again is as it was
      have hback : (s.table.set i ⟨some fullpath, some ops, devId⟩).set i .zero = s.table := by
        rw [List.set_set, ← hzero, List.set_getElem_self]
      have hnot : ¬s.Mounted path := by
        rintro ⟨e, he, hp⟩
        obtain ⟨ops, hops⟩ := h.ops he hp
        apply hany
        rw [List.any_eq_true]
        exact ⟨e, he, by simp [hops, hp]⟩
      dsimp only
      split
      · rw [hback]
        exact .inl rfl
      · split
        · rw [hback]
          exact .inl rfl
        · exact .inr ⟨i, hget, hnot, rfl⟩

/-- A mount enters the path that its own has been normalized to, under a spelling that is not in the table. -/
def Enters (cfg : Config) (s : State) (a : Act) (s' : State) : Prop :=
  ∃ i device path type answers fullpath ops devId, a = .mount device path type answers ∧
    dfsNormalizePath cfg.workdir path answers.memory = some (some fullpath) ∧ s.table[i]? = some .zero ∧
      ¬s.Mounted path ∧ s' = ⟨s.table.set i ⟨some fullpath, some ops, devId⟩⟩

theorem mount_cases (h : Zeroed s) {device : Option (Option ℕ)} {type : Text} {answers : Answers}
    (hs : s.dfsMount cfg device path type answers = some (ok, s')) :
    (ok = false ∧ s' = s) ∨ (ok = true ∧ Enters cfg s (.mount device path type answers) s') := by
  unfold State.dfsMount at hs
  split at hs
  · cases hs
    exact .inl ⟨rfl, rfl⟩
  · split at hs
    · cases hs
      exact .inl ⟨rfl, rfl⟩
    · rename_i ops _
      split at hs
      · cases hs
        exact .inl ⟨rfl, rfl⟩
      · split at hs
        · cases hs
        · cases hs
          exact .inl ⟨rfl, rfl⟩
        · rename_i fullpath hfull
          have hentry : s.mountEntry device.join path ops fullpath answers = (ok, s') →
              (ok = false ∧ s' = s) ∨ (ok = true ∧ Enters cfg s (.mount device path type answers) s') := by
            intro hr
            obtain hres | ⟨i, hi, hnot, hres⟩ := mountEntry_cases h device.join path ops fullpath answers
            · rw [hres] at hr
              cases hr
              exact .inl ⟨rfl, rfl⟩
            · rw [hres] at hr
              cases hr
              exact .inr ⟨rfl, i, device, path, type, answers, fullpath, ops, device.join, rfl, hfull, hi, hnot, rfl⟩
          split at hs
          · exact hentry (Option.some.inj hs)
          · split at hs
            · cases hs
            · cases hs
              exact .inl ⟨rfl, rfl⟩
            · exact hentry (Option.some.inj hs)

theorem unmount_cases {memory unmounts : Bool} (hs : s.dfsUnmount cfg path memory unmounts = some (ok, s')) :
    (ok = false ∧ s' = s) ∨ (ok = true ∧ ∃ i, s' = ⟨s.table.set i .zero⟩) := by
  unfold State.dfsUnmount at hs
  split at hs
  · cases hs
  · cases hs
    exact .inl ⟨rfl, rfl⟩
  · split at hs
    · cases hs
      exact .inl ⟨rfl, rfl⟩
    · rename_i i _
      split at hs
      · cases hs
      · split at hs
        · cases hs
          exact .inl ⟨rfl, rfl⟩
        · cases hs
          exact .inr ⟨rfl, i, rfl⟩

/-- **What a call does**: it fails and leaves the table as it was; or it enters a path into an empty entry; or it
clears one. -/
theorem step_cases (h : Zeroed s) (hs : s.step cfg a = some (ok, s')) :
    (ok = false ∧ s' = s) ∨ (ok = true ∧ Enters cfg s a s') ∨ (ok = true ∧ ∃ i, s' = ⟨s.table.set i .zero⟩) := by
  cases a with
  | mount device path type answers => exact (mount_cases h hs).imp_right .inl
  | unmount specialfile memory unmounts => exact (unmount_cases hs).imp_right .inr

theorem zeroed_set (h : Zeroed s) (i : ℕ) {e : Filesystem} (he : e = .zero ∨ ∃ p ops, e.path = some p ∧ e.ops = some ops) :
    Zeroed ⟨s.table.set i e⟩ := by
  intro x hx
  obtain hx | rfl := List.mem_or_eq_of_mem_set hx
  · exact h x hx
  · exact he

theorem zeroed_step (h : Zeroed s) (hs : s.step cfg a = some (ok, s')) : Zeroed s' := by
  obtain ⟨-, rfl⟩ | ⟨-, i, _, _, _, _, fullpath, ops, _, -, -, -, -, rfl⟩ | ⟨-, i, rfl⟩ := step_cases h hs
  · exact h
  · exact zeroed_set h i (.inr ⟨fullpath, ops, rfl, rfl⟩)
  · exact zeroed_set h i (.inl rfl)

theorem zeroed_run {ok : State → Act → Prop} (h : Runs cfg ok s) : Zeroed s := by
  refine Run.Reach.inv (I := Zeroed) ?_ ?_ h
  · intro s hinit e he
    rw [hinit] at he
    exact .inl (List.eq_of_mem_replicate he)
  · intro s a s' hz _ hs
    obtain ⟨⟨ok, s''⟩, hstep, rfl⟩ := Option.map_eq_some_iff.1 hs
    exact zeroed_step hz hstep

/-! ## The invariant -/

theorem mounted_iff : s.Mounted p ↔ ∃ (i : ℕ) (e : Filesystem), s.table[i]? = some e ∧ e.path = some p := by
  constructor
  · rintro ⟨e, he, hp⟩
    obtain ⟨i, hi⟩ := List.mem_iff_getElem?.1 he
    exact ⟨i, e, hi, hp⟩
  · rintro ⟨i, e, hi, hp⟩
    exact ⟨e, List.mem_iff_getElem?.2 ⟨i, hi⟩, hp⟩

/-- What an entry of a table is of which one has been set. -/
theorem getElem?_set_cases {l : List Filesystem} {i j : ℕ} {x e : Filesystem} (h : (l.set i x)[j]? = some e) :
    (j = i ∧ e = x) ∨ j ≠ i ∧ l[j]? = some e := by
  by_cases hij : j = i
  · subst hij
    have hlt : j < l.length := by
      obtain ⟨hlt, -⟩ := List.getElem?_eq_some_iff.1 h
      rwa [List.length_set] at hlt
    rw [List.getElem?_set_self hlt] at h
    exact .inl ⟨rfl, (Option.some.inj h).symm⟩
  · rw [List.getElem?_set_ne (Ne.symm hij)] at h
    exact .inr ⟨hij, h⟩

/-- A path that has not been in the table is entered. -/
theorem consistent_enter (h : s.Consistent) {i : ℕ} {e : Filesystem} {fullpath : Text} (he : e.path = some fullpath)
    (hcanonical : Canonical fullpath) (hnew : ¬s.Mounted fullpath) : State.Consistent ⟨s.table.set i e⟩ := by
  refine ⟨fun p hp => ?_, fun j k x y p hx hy hxp hyp => ?_⟩
  · obtain ⟨j, x, hx, hxp⟩ := mounted_iff.1 hp
    obtain ⟨-, rfl⟩ | ⟨-, hx⟩ := getElem?_set_cases hx
    · rw [he] at hxp
      cases hxp
      exact hcanonical
    · exact h.canonical p (mounted_iff.2 ⟨j, x, hx, hxp⟩)
  · obtain ⟨rfl, rfl⟩ | ⟨-, hx'⟩ := getElem?_set_cases hx <;> obtain ⟨rfl, rfl⟩ | ⟨-, hy'⟩ := getElem?_set_cases hy
    · rfl
    · rw [he] at hxp
      cases hxp
      exact absurd (mounted_iff.2 ⟨k, y, hy', hyp⟩) hnew
    · rw [he] at hyp
      cases hyp
      exact absurd (mounted_iff.2 ⟨j, x, hx', hxp⟩) hnew
    · exact h.distinct j k x y p hx' hy' hxp hyp

theorem consistent_clear (h : s.Consistent) (i : ℕ) : State.Consistent ⟨s.table.set i .zero⟩ := by
  refine ⟨fun p hp => ?_, fun j k x y p hx hy hxp hyp => ?_⟩
  · obtain ⟨j, x, hx, hxp⟩ := mounted_iff.1 hp
    obtain ⟨-, rfl⟩ | ⟨-, hx⟩ := getElem?_set_cases hx
    · cases hxp
    · exact h.canonical p (mounted_iff.2 ⟨j, x, hx, hxp⟩)
  · obtain ⟨-, rfl⟩ | ⟨-, hx⟩ := getElem?_set_cases hx
    · cases hxp
    · obtain ⟨-, rfl⟩ | ⟨-, hy⟩ := getElem?_set_cases hy
      · cases hyp
      · exact h.distinct j k x y p hx hy hxp hyp

theorem consistent_step (hz : Zeroed s) (h : s.Consistent) (hok : KeepsTable cfg s a)
    (hs : s.step cfg a = some (ok, s')) : s'.Consistent := by
  obtain ⟨-, rfl⟩ | ⟨-, i, device, path, type, answers, fullpath, ops, devId, rfl, hfull, -, hnot, rfl⟩ | ⟨-, i, rfl⟩ :=
    step_cases hz hs
  · exact h
  · obtain ⟨place, hwalk, hrender, hcanonical⟩ := normalize_canonical hfull fun place hp => (hok place hp).1
    refine consistent_enter h rfl hcanonical fun hmounted => hnot ((hok place hwalk).2 ?_)
    rwa [← hrender]
  · exact consistent_clear h i

theorem consistent_run (h : Runs cfg (KeepsTable cfg) s) : s.Consistent := by
  refine Run.Reach.inv_of (I := State.Consistent) (J := Zeroed) (fun s hs => zeroed_run hs) ?_ ?_ h
  · intro s hinit
    have hnone : ∀ {i : ℕ} {e : Filesystem} {p : Text}, s.table[i]? = some e → e.path ≠ some p := by
      intro i e p he
      rw [hinit] at he
      rw [List.eq_of_mem_replicate (List.mem_iff_getElem?.2 ⟨i, he⟩)]
      nofun
    refine ⟨fun p hp => ?_, fun i j e e' p he _ hp _ => absurd hp (hnone he)⟩
    obtain ⟨i, e, he, hp⟩ := mounted_iff.1 hp
    exact absurd hp (hnone he)
  · intro s a s' h hz hok hs
    obtain ⟨⟨ok, s''⟩, hstep, rfl⟩ := Option.map_eq_some_iff.1 hs
    exact consistent_step hz h hok hstep

/-! ## Lookups -/

/-- The test of `dfs_filesystem_lookup`. -/
def Fits (p path : Text) : Prop :=
  p <+: path ∧ ¬(p.length > 1 ∧ path.length > p.length ∧ path[p.length]? ≠ some '/')

/-- **The test compares components.** -/
theorem fits_iff (hp : Canonical p) (hpath : Canonical path) : Fits p path ↔ Under p path := by
  obtain ⟨cs, hcs, rfl⟩ := hp
  obtain ⟨ds, hds, rfl⟩ := hpath
  have htest : Fits (render cs) (render ds) ↔ render cs <+: render ds ∧
      ((render cs).length ≤ 1 ∨ Slashed ((render ds).drop (render cs).length)) := by
    apply and_congr_right
    intro _
    unfold Slashed
    rw [List.head?_drop]
    cases hget : (render ds)[(render cs).length]? with
    | none =>
      have hle := List.getElem?_eq_none_iff.1 hget
      simp only [ne_eq, reduceCtorEq, not_false_eq_true, and_true, Option.not_mem_none, false_implies, implies_true,
        or_true, iff_true]
      omega
    | some c =>
      obtain ⟨hlt, -⟩ := List.getElem?_eq_some_iff.1 hget
      simp only [Option.mem_def, Option.some.injEq, forall_eq', ne_eq]
      constructor
      · intro h
        by_cases hlong : (render cs).length ≤ 1
        · exact .inl hlong
        · right
          by_contra hc
          exact h ⟨Nat.lt_of_not_le hlong, hlt, hc⟩
      · rintro (h | h) ⟨hlong, -, hc⟩
        · exact absurd hlong (Nat.not_lt.2 h)
        · exact hc h
  rw [htest, under_iff hcs hds]
  constructor
  · exact fun h => ⟨cs, ds, hcs, hds, rfl, rfl, h⟩
  · rintro ⟨cs', ds', hcs', hds', hc, hd, h⟩
    rwa [render_injective hcs hcs' hc, render_injective hds hds' hd]

/-- The longest path of the entries so far that fits. -/
def Best (path : Text) (l : List Filesystem) (r : Option ℕ × ℕ) : Prop :=
  (r = (none, 0) ∧ ∀ e ∈ l, ∀ p, e.path = some p → ¬Fits p path) ∨
    ∃ i e p, r = (some i, p.length) ∧ l[i]? = some e ∧ e.path = some p ∧ Fits p path ∧
      ∀ e' ∈ l, ∀ p', e'.path = some p' → Fits p' path → p'.length ≤ p.length

/-- A round of the lookup takes an entry that fits and is not shorter than the one so far. -/
theorem lookupStep_cases (path : Text) (r : Option ℕ × ℕ) (i : ℕ) {e : Filesystem}
    (he : e = .zero ∨ ∃ p ops, e.path = some p ∧ e.ops = some ops) :
    (State.lookupStep path r (e, i) = r ∧ ∀ p, e.path = some p → Fits p path → p.length < r.2) ∨
      ∃ p, e.path = some p ∧ Fits p path ∧ r.2 ≤ p.length ∧ State.lookupStep path r (e, i) = (some i, p.length) := by
  obtain rfl | ⟨p, ops, hp, hops⟩ := he
  · exact .inl ⟨rfl, nofun⟩
  · unfold State.lookupStep
    simp only [hp, hops, Option.some.injEq, forall_eq', exists_eq_left']
    by_cases hfits : Fits p path
    · by_cases hle : r.2 ≤ p.length
      · right
        refine ⟨hfits, hle, ?_⟩
        rw [if_neg, if_neg hfits.2]
        rintro (h | h)
        · omega
        · exact h hfits.1
      · left
        refine ⟨?_, fun _ => Nat.lt_of_not_le hle⟩
        rw [if_pos (.inl (Nat.lt_of_not_le hle))]
    · left
      refine ⟨?_, fun h => absurd h hfits⟩
      by_cases hbelow : p <+: path
      · split
        · rfl
        · rw [if_pos]
          by_contra h
          exact hfits ⟨hbelow, h⟩
      · rw [if_pos (.inr hbelow)]

theorem lookup_best (path : Text) {l : List Filesystem}
    (hl : ∀ e ∈ l, e = .zero ∨ ∃ p ops, e.path = some p ∧ e.ops = some ops) :
    Best path l (l.zipIdx.foldl (State.lookupStep path) (none, 0)) := by
  induction l using List.reverseRecOn with
  | nil => exact .inl ⟨rfl, nofun⟩
  | append_singleton l e ih =>
    have ih := ih fun e he => hl e (List.mem_append_left _ he)
    have hzip : [e].zipIdx (0 + l.length) = [(e, l.length)] := by simp
    rw [List.zipIdx_append, List.foldl_append, hzip, List.foldl_cons, List.foldl_nil]
    set r := l.zipIdx.foldl (State.lookupStep path) (none, 0)
    obtain ⟨hsame, hshort⟩ | ⟨p, hp, hfits, hle, htake⟩ := lookupStep_cases path r l.length (hl e (by simp))
    · rw [hsame]
      obtain ⟨hr, hnone⟩ | ⟨i, e₀, p₀, hr, hi, hp₀, hfits, hlong⟩ := ih
      · refine .inl ⟨hr, fun e' he' p hp hfits => ?_⟩
        obtain he' | he' := List.mem_append.1 he'
        · exact hnone e' he' p hp hfits
        · rw [List.mem_singleton.1 he'] at hp
          have hlt := hshort p hp hfits
          rw [hr] at hlt
          exact absurd hlt (Nat.not_lt_zero _)
      · obtain ⟨hlt, -⟩ := List.getElem?_eq_some_iff.1 hi
        refine .inr ⟨i, e₀, p₀, hr, (List.getElem?_append_left hlt).trans hi, hp₀, hfits, fun e' he' p hp hfits => ?_⟩
        obtain he' | he' := List.mem_append.1 he'
        · exact hlong e' he' p hp hfits
        · rw [List.mem_singleton.1 he'] at hp
          have hlt := hshort p hp hfits
          rw [hr] at hlt
          exact Nat.le_of_lt hlt
    · rw [htake]
      refine .inr ⟨l.length, e, p, rfl, by simp, hp, hfits, fun e' he' p' hp' hfits' => ?_⟩
      obtain he' | he' := List.mem_append.1 he'
      · obtain ⟨-, hnone⟩ | ⟨i, e₀, p₀, hr, -, -, -, hlong⟩ := ih
        · exact absurd hfits' (hnone e' he' p' hp')
        · rw [hr] at hle
          exact Nat.le_trans (hlong e' he' p' hp' hfits') hle
      · rw [List.mem_singleton.1 he', hp] at hp'
        cases hp'
        exact Nat.le_refl _

/-- **A lookup in a consistent table.** -/
theorem lookup_exact (hz : Zeroed s) (h : s.Consistent) : s.LookupExact := by
  intro path hpath
  have hunder : ∀ {i : ℕ} {e : Filesystem} {p : Text}, s.table[i]? = some e → e.path = some p →
      (Fits p path ↔ Under p path) := fun hi hp => fits_iff (h.canonical _ (mounted_iff.2 ⟨_, _, hi, hp⟩)) hpath
  have hbest := lookup_best path hz
  unfold State.dfsFilesystemLookup
  obtain ⟨hr, hnone⟩ | ⟨i, e, p, hr, hi, hp, hfits, hlong⟩ := hbest
  · rw [hr]
    rintro p ⟨e, he, hp⟩ hpath
    obtain ⟨i, hi⟩ := List.mem_iff_getElem?.1 he
    exact hnone e he p hp ((hunder hi hp).2 hpath)
  · rw [hr]
    refine ⟨e, p, hi, hp, (hunder hi hp).1 hfits, fun j e' p' hj hp' hpath => ?_⟩
    have hfits' := (hunder hj hp').2 hpath
    obtain hlt | heq := Nat.lt_or_eq_of_le (hlong e' (List.mem_iff_getElem?.2 ⟨j, hj⟩) p' hp' hfits')
    · exact .inr hlt
    · left
      have hsame : p' = p := (List.prefix_of_prefix_length_le hfits'.1 hfits.1 (by omega)).eq_of_length heq
      rw [hsame] at hp'
      exact h.distinct j i e' e p hj hi hp' hp

/-- **The table is consistent** in the runs in which a mount leads to an entry only under a spelling that is in the
table, and not above the root; and a lookup finds the longest path. A call that fails leaves the table as it was, in
every run. -/
theorem mounts_consistent (cfg : Config) :
    (∀ s, Runs cfg (KeepsTable cfg) s → s.Consistent ∧ s.LookupExact) ∧
      ∀ s a s', Runs cfg Run.Any s → s.step cfg a = some (false, s') → s' = s := by
  constructor
  · intro s h
    exact ⟨consistent_run h, lookup_exact (zeroed_run h) (consistent_run h)⟩
  · intro s a s' h hs
    obtain ⟨-, hsame⟩ | ⟨hok, -⟩ | ⟨hok, -⟩ := step_cases (zeroed_run h) hs
    · exact hsame
    · cases hok
    · cases hok

/-- One type of file systems, and four entries. -/
def romfs : Config := ⟨"/".toList, ⟨[], nofun, rfl⟩, [⟨"rom".toList, true, true⟩], 4⟩

/-- Everything succeeds. -/
def success : Answers := ⟨true, true, true, true, true⟩

def fresh : State := ⟨List.replicate 4 .zero⟩

theorem fresh_init : fresh.Init romfs := rfl

/-- The root and `/dev` are mounted. -/
theorem mounts_consistent_dev :
    ∃ s : State, s.Mounted "/".toList ∧ s.Mounted "/dev".toList ∧ s.Consistent ∧ s.LookupExact := by
  obtain ⟨s, hr, h⟩ := Run.Reach.exec_ok (fun s a => (s.step romfs a).map Prod.snd) (KeepsTable romfs) fresh_init
    [.mount none "/".toList "rom".toList success, .mount none "/dev".toList "rom".toList success]
    (fun s => decide (s.Mounted "/".toList) && decide (s.Mounted "/dev".toList)) (by decide)
  rw [Bool.and_eq_true, decide_eq_true_eq, decide_eq_true_eq] at h
  exact ⟨s, h.1, h.2, (mounts_consistent romfs).1 s hr⟩

/-- **The root is mounted twice**, the second time as `//`. -/
theorem root_mountedTwice : ¬∀ s, Runs romfs Run.Any s → s.Consistent := by
  intro h
  obtain ⟨s, hr, hs⟩ := Run.Reach.exec_ok (fun s a => (s.step romfs a).map Prod.snd) Run.Any fresh_init
    [.mount none "/".toList "rom".toList success, .mount none "//".toList "rom".toList success]
    (fun s => decide ((s.table[0]?.bind Filesystem.path) = some "/".toList) &&
      decide ((s.table[1]?.bind Filesystem.path) = some "/".toList)) (by decide)
  rw [Bool.and_eq_true, decide_eq_true_eq, decide_eq_true_eq] at hs
  obtain ⟨e, he, hp⟩ := Option.bind_eq_some_iff.1 hs.1
  obtain ⟨e', he', hp'⟩ := Option.bind_eq_some_iff.1 hs.2
  exact absurd ((h s hr).distinct 0 1 e e' _ he he' hp hp') (by decide)

end RtThread.DfsFs
