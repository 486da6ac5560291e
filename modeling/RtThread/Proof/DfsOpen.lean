import RtThread.Spec.DfsOpen
import RtThread.Proof.DfsResolve

/-!
# Open files

A descriptor keeps the path behind the mount point, with the first slash, or all of it; `fd_is_open` cuts the mount
point off, whatever has been kept.

* `stored_iff`: when what is kept is what `fd_is_open` compares it with.
* `Kept`: a descriptor keeps the path that it has been opened with, in this way.
* `recognised_iff`: **when an open file is recognised**, in every run whose paths are copied.
-/

namespace RtThread.DfsOpen

open Pathname DfsNormalize

variable {mounts : Mounts} {s s' : State} {p name full : Text} {fs : ℕ} {traits : Traits}

/-! ## The file system of a path -/

theorem lookup_entry (h : mounts.lookup full = some (fs, p, traits)) :
    ∃ e ops, mounts.table[fs]? = some e ∧ e.path = some p ∧ e.ops = some ops ∧ traits = mounts.traits ops := by
  unfold Mounts.lookup at h
  simp only [Option.bind_eq_some_iff, Option.map_eq_some_iff] at h
  obtain ⟨i, -, e, he, p', hp, ops, hops, heq⟩ := h
  cases heq
  exact ⟨e, ops, he, hp, hops, rfl⟩

/-- The path of the entry fits. -/
theorem lookup_fits (h : mounts.lookup full = some (fs, p, traits)) : Canonical p ∧ DfsFs.Fits p full := by
  obtain ⟨e, ops, he, hp, -⟩ := lookup_entry h
  have hfs : DfsFs.State.dfsFilesystemLookup ⟨mounts.table⟩ full = some fs := by
    unfold Mounts.lookup at h
    simp only [Option.bind_eq_some_iff, Option.map_eq_some_iff] at h
    obtain ⟨i, hi, e, -, p', -, ops, -, heq⟩ := h
    cases heq
    exact hi
  refine ⟨mounts.canonical e (List.mem_of_getElem? he) p hp, ?_⟩
  have hbest := DfsFs.lookup_best full mounts.zeroed
  unfold DfsFs.State.dfsFilesystemLookup at hfs
  obtain ⟨hr, -⟩ | ⟨i, e', p', hr, hi, hp', hfits, -⟩ := hbest
  · rw [hr] at hfs
    cases hfs
  · rw [hr] at hfs
    cases hfs
    obtain rfl : e = e' := Option.some.inj (he.symm.trans hi)
    obtain rfl : p = p' := Option.some.inj (hp.symm.trans hp')
    exact hfits

/-- Two paths on one file system have the same entry. -/
theorem lookup_same {p' : Text} {traits' : Traits} (h : mounts.lookup full = some (fs, p, traits))
    (h' : mounts.lookup name = some (fs, p', traits')) : p' = p ∧ traits' = traits := by
  obtain ⟨e, ops, he, hp, hops, rfl⟩ := lookup_entry h
  obtain ⟨e', ops', he', hp', hops', rfl⟩ := lookup_entry h'
  obtain rfl : e = e' := Option.some.inj (he.symm.trans he')
  obtain rfl : p = p' := Option.some.inj (hp.symm.trans hp')
  obtain rfl : ops = ops' := Option.some.inj (hops.symm.trans hops')
  exact ⟨rfl, rfl⟩

/-- A path that is on a file system is canonical. -/
theorem lookup_directory {directory : Directory} {filename : Name}
    (hname : dfsNormalizePath directory.text filename.text = some (some full))
    (h : mounts.lookup full = some (fs, p, traits)) : ∃ place : Directory, full = place.text := by
  obtain ⟨hp, hfits⟩ := lookup_fits h
  obtain ⟨t, rfl⟩ := hp.head
  obtain ⟨u, rfl⟩ := hfits.1
  exact normalize_slash hname rfl

/-! ## What is kept, and what it is compared with -/

theorem Directory.canonical (directory : Directory) : Canonical directory.text :=
  ⟨directory.components, directory.valid, rfl⟩

/-- Behind a mount point that is not the root, the components go on. -/
theorem fits_body (hp : Canonical p) (hfull : Canonical full) (hfits : DfsFs.Fits p full) (hroot : p ≠ ['/']) :
    ∃ es, (∀ c ∈ es, Component c) ∧ full = p ++ body es := by
  obtain ⟨cs, ds, hcs, hds, rfl, rfl, es, rfl⟩ := (DfsFs.fits_iff hp hfull).1 hfits
  have hne : cs ≠ [] := by
    rintro rfl
    exact hroot rfl
  refine ⟨es, fun c hc => hds c (List.mem_append_right _ hc), ?_⟩
  rw [render, if_neg (by simp [hne]), render, if_neg hne, body_append]

theorem body_head {es : List Text} (hne : es ≠ []) : ∃ t, body es = '/' :: t := by
  obtain ⟨c, es, rfl⟩ := List.exists_cons_of_ne_nil hne
  exact ⟨_, rfl⟩

/-- At the root all of the path is kept. -/
theorem stored_root (hfull : Canonical full) : stored ['/'] traits full = full := by
  unfold stored
  split
  · obtain ⟨ds, hds, rfl⟩ := hfull
    cases ds with
    | nil => rfl
    | cons c ds =>
      have hc := hds c List.mem_cons_self
      obtain ⟨x, t, rfl⟩ := List.exists_cons_of_ne_nil hc.nonempty
      have hx : x ≠ '/' := by
        rintro rfl
        exact hc.noSlash List.mem_cons_self
      have hrender : render ((x :: t) :: ds) = '/' :: x :: (t ++ body ds) := rfl
      rw [hrender, dfsSubdir, if_neg (by simp)]
      simp [hx]
  · rfl

/-- Elsewhere it is what is behind the mount point, or a slash. -/
theorem stored_mount {es : List Text} (hfull : full = p ++ body es) (hflag : traits.fullpath = false) :
    stored p traits full = if es = [] then ['/'] else body es := by
  subst hfull
  rw [stored, if_pos hflag, dfsSubdir]
  by_cases hes : es = []
  · subst hes
    simp [body]
  · obtain ⟨t, ht⟩ := body_head hes
    rw [if_neg (by simp [ht]), if_neg hes]
    simp [ht]

/-- **When what is kept is what it is compared with.** -/
theorem stored_iff (hp : Canonical p) (hname : Canonical name) (hfull : Canonical full)
    (hfits : DfsFs.Fits p name) (hfits' : DfsFs.Fits p full) :
    stored p traits name = mountpath p full ↔
      if p = ['/'] then name = full
      else if traits.fullpath = false then name = full ∧ full ≠ p
      else name = full.drop p.length := by
  unfold mountpath
  by_cases hroot : p = ['/']
  · subst hroot
    rw [if_pos rfl, if_pos rfl, stored_root hname]
  · obtain ⟨es, hes, hname'⟩ := fits_body hp hname hfits hroot
    obtain ⟨es', hes', hfull'⟩ := fits_body hp hfull hfits' hroot
    have hdrop : full.drop p.length = body es' := by rw [hfull', List.drop_left]
    rw [if_neg hroot, if_neg hroot]
    by_cases hflag : traits.fullpath = false
    · rw [if_pos hflag, stored_mount hname' hflag, hdrop]
      by_cases hnil : es = []
      · -- a slash is not what is behind a mount point
        subst hnil
        have hslash : ['/'] ≠ body es' := by
          intro h
          have hne : es' ≠ [] := by
            rintro rfl
            cases h
          have hlong := body_length hes' hne
          rw [← h] at hlong
          exact absurd hlong (by simp)
        refine iff_of_false hslash ?_
        rintro ⟨rfl, hne⟩
        exact hne (by rw [hname']; simp [body])
      · rw [if_neg hnil, hname', hfull', List.append_cancel_left_eq]
        refine ⟨fun h => ⟨h, fun hself => ?_⟩, And.left⟩
        obtain ⟨t, ht⟩ := body_head hnil
        rw [← h, ht] at hself
        exact absurd (congrArg List.length hself) (by simp)
    · rw [if_neg hflag, stored, if_neg hflag]

/-! ## The calls -/

/-- What a descriptor keeps of the path that it has been opened with. -/
structure Kept (mounts : Mounts) (e : Fd) (name : Text) : Prop where
  canonical : Canonical name
  stored : ∃ fs p traits, mounts.lookup name = some (fs, p, traits) ∧
    e = ⟨some fs, true, some (stored p traits name), some name⟩

/-- A descriptor that is open keeps its path, and another one keeps none. -/
def Sound (mounts : Mounts) (e : Fd) : Prop :=
  (∃ name, Kept mounts e name) ∨ e.path = none ∧ e.name = none

/-- What `dfs_file_open` leaves in a descriptor. -/
theorem open_sound {fd : Option ℕ} {path : Name} {a : Answers} {r : Result} (hcopied : a.strdup = true)
    (h : s.dfsFileOpen mounts fd path.text a = some (r, s')) :
    s' = s ∨ ∃ d e, fd = some d ∧ Sound mounts e ∧ s' = { s with mem := Function.update s.mem d e } := by
  unfold State.dfsFileOpen at h
  split at h
  · cases h
    exact .inl rfl
  · rename_i d
    split at h
    · cases h
    · cases h
      exact .inl rfl
    · rename_i fullpath hname
      split at h
      · cases h
        exact .inl rfl
      · rename_i fs p traits hlookup
        right
        simp only [hcopied, or_true, if_true] at h
        split at h
        · cases h
          exact ⟨d, _, rfl, .inr ⟨rfl, rfl⟩, rfl⟩
        · split at h
          · cases h
            exact ⟨d, _, rfl, .inr ⟨rfl, rfl⟩, rfl⟩
          · cases h
            have hnormal : dfsNormalizePath s.workdir.text path.text = some (some fullpath) := by
              unfold State.normalize at hname
              split at hname
              · exact hname
              · cases hname
            obtain ⟨place, rfl⟩ := lookup_directory hnormal hlookup
            exact ⟨d, _, rfl, .inl ⟨_, Directory.canonical place, fs, p, traits, hlookup, rfl⟩, rfl⟩

theorem update_sound {e : Fd} {d : ℕ} (h : ∀ d, Sound mounts (s.mem d)) (he : Sound mounts e) (d' : ℕ) :
    Sound mounts (Function.update s.mem d e d') := by
  by_cases hd : d' = d
  · subst hd
    rwa [Function.update_self]
  · rw [Function.update_of_ne hd]
    exact h d'

theorem step_sound {a : Act} (h : ∀ d, Sound mounts (s.mem d)) (hok : Copied s a) (hs : s.step mounts a = some s') :
    ∀ d, Sound mounts (s'.mem d) := by
  cases a with
  | chdir directory =>
    cases hs
    exact h
  | calloc d =>
    cases hs
    exact update_sound h (.inr ⟨rfl, rfl⟩)
  | table fds =>
    cases hs
    exact h
  | dfsFileOpen fd path a =>
    obtain ⟨⟨r, s''⟩, hopen, rfl⟩ := Option.map_eq_some_iff.1 hs
    obtain rfl | ⟨d, e, -, he, rfl⟩ := open_sound hok hopen
    · exact h
    · exact update_sound h he
  | dfsFileClose fd result =>
    cases hs
    unfold State.dfsFileClose
    split
    · exact h
    · split
      · exact h
      · exact update_sound h (.inr ⟨rfl, rfl⟩)

theorem run_sound (h : Runs mounts Copied s) : ∀ d, Sound mounts (s.mem d) := by
  refine h.inv (fun s hs => ?_) fun s a s' hs hok hstep => step_sound hs hok hstep
  intro d
  rw [hs.2]
  exact .inr ⟨rfl, rfl⟩

theorem name_kept (h : ∀ d, Sound mounts (s.mem d)) {d : ℕ} (hname : (s.mem d).name = some name) :
    Kept mounts (s.mem d) name := by
  obtain ⟨name', hkept⟩ | ⟨-, hnone⟩ := h d
  · obtain ⟨fs, p, traits, -, heq⟩ := hkept.stored
    rw [heq] at hname
    cases hname
    exact hkept
  · rw [hnone] at hname
    cases hname

/-! ## Which files are found -/

/-- A path that is open is on a file system. -/
theorem opened_lookup (h : ∀ d, Sound mounts (s.mem d)) (hopen : s.Opened name) :
    ∃ fs p traits, mounts.lookup name = some (fs, p, traits) := by
  obtain ⟨d, -, hname⟩ := hopen
  obtain ⟨fs, p, traits, hlookup, -⟩ := (name_kept h hname).stored
  exact ⟨fs, p, traits, hlookup⟩

/-- What the loop of `fd_is_open` finds. -/
def Found (s : State) (fs : ℕ) (path : Text) : Prop :=
  (s.fds.any fun fd => fd.any fun d =>
    (s.mem d).fops && decide ((s.mem d).fs = some fs) && decide ((s.mem d).path = some path)) = true

theorem found_iff (h : ∀ d, Sound mounts (s.mem d)) (hlookup : mounts.lookup full = some (fs, p, traits))
    (hfull : Canonical full) :
    Found s fs (mountpath p full) ↔
      if p = ['/'] then s.Opened full
      else if traits.fullpath = false then s.Opened full ∧ full ≠ p
      else s.OpenedOn mounts fs (full.drop p.length) := by
  obtain ⟨hp, hfits⟩ := lookup_fits hlookup
  -- the descriptors whose stored path compares equal
  have hdesc : Found s fs (mountpath p full) ↔ ∃ d name, some d ∈ s.fds ∧ (s.mem d).name = some name ∧
      (mounts.lookup name).map Prod.fst = some fs ∧ stored p traits name = mountpath p full := by
    unfold Found
    simp only [List.any_eq_true, Option.any_eq_true, Bool.and_eq_true, decide_eq_true_eq]
    constructor
    · rintro ⟨fd, hfd, d, rfl, ⟨-, hfs⟩, hpath⟩
      obtain ⟨name, hkept⟩ | ⟨hnone, -⟩ := h d
      · obtain ⟨fs', p', traits', hlookup', heq⟩ := hkept.stored
        rw [heq] at hfs hpath
        obtain rfl : fs' = fs := Option.some.inj hfs
        obtain ⟨rfl, rfl⟩ := lookup_same hlookup hlookup'
        exact ⟨d, name, hfd, by rw [heq], by rw [hlookup']; rfl, Option.some.inj hpath⟩
      · rw [hnone] at hpath
        cases hpath
    · rintro ⟨d, name, hfd, hname, hon, hstored⟩
      obtain ⟨fs', p', traits', hlookup', heq⟩ := (name_kept h hname).stored
      rw [hlookup'] at hon
      obtain rfl : fs' = fs := Option.some.inj hon
      obtain ⟨rfl, rfl⟩ := lookup_same hlookup hlookup'
      exact ⟨some d, hfd, d, rfl, ⟨by rw [heq], by rw [heq]⟩, by rw [heq, hstored]⟩
  have htest : Found s fs (mountpath p full) ↔ ∃ d name, some d ∈ s.fds ∧ (s.mem d).name = some name ∧
      (mounts.lookup name).map Prod.fst = some fs ∧
      if p = ['/'] then name = full
      else if traits.fullpath = false then name = full ∧ full ≠ p
      else name = full.drop p.length := by
    rw [hdesc]
    refine exists_congr fun d => exists_congr fun name => and_congr_right fun _ => and_congr_right fun hname =>
      and_congr_right fun hon => ?_
    obtain ⟨⟨fs', p', traits'⟩, hlookup', hfs⟩ := Option.map_eq_some_iff.1 hon
    obtain rfl : fs' = fs := hfs
    obtain ⟨rfl, rfl⟩ := lookup_same hlookup hlookup'
    exact stored_iff hp (name_kept h hname).canonical hfull (lookup_fits hlookup').2 hfits
  have hon : (mounts.lookup full).map Prod.fst = some fs := by rw [hlookup]; rfl
  rw [htest]
  split
  · exact ⟨fun ⟨d, name, hfd, hname, _, heq⟩ => ⟨d, hfd, heq ▸ hname⟩,
      fun ⟨d, hfd, hname⟩ => ⟨d, full, hfd, hname, hon, rfl⟩⟩
  · split
    · exact ⟨fun ⟨d, name, hfd, hname, _, heq, hne⟩ => ⟨⟨d, hfd, heq ▸ hname⟩, hne⟩,
        fun ⟨⟨d, hfd, hname⟩, hne⟩ => ⟨d, full, hfd, hname, hon, rfl, hne⟩⟩
    · constructor
      · rintro ⟨d, name, hfd, hname, hon, rfl⟩
        exact ⟨hon, d, hfd, hname⟩
      · rintro ⟨hon, d, hfd, hname⟩
        exact ⟨d, _, hfd, hname, hon, rfl⟩

/-- `fd_is_open` of a path on a file system. -/
theorem fdIsOpen_eq {filename : Text} (hname : s.normalize filename true = some (some full))
    (hlookup : mounts.lookup full = some (fs, p, traits)) :
    (Found s fs (mountpath p full) → s.fdIsOpen mounts filename true = some 0) ∧
      (¬Found s fs (mountpath p full) → s.fdIsOpen mounts filename true = some (-1)) := by
  unfold State.fdIsOpen Found
  rw [hname]
  simp only [hlookup]
  exact ⟨fun h => if_pos h, fun h => if_neg h⟩

/-- `dfs_file_unlink` refuses what `fd_is_open` finds. -/
theorem unlink_iff {filename : Text} (memoryOpen : Bool) (place : Directory) (hfull : full = place.text)
    (hname : s.normalize filename true = some (some full)) (hlookup : mounts.lookup full = some (fs, p, traits)) :
    s.dfsFileUnlink mounts filename true memoryOpen = some (.errno .ebusy) ↔
      memoryOpen = true ∧ Found s fs (mountpath p full) := by
  have hagain : s.normalize full true = some (some full) := by
    rw [hfull]
    exact normalize_text place s.workdir
  have hopen := fdIsOpen_eq hagain hlookup
  unfold State.dfsFileUnlink
  rw [hname]
  simp only [hlookup]
  cases memoryOpen with
  | false =>
    have hnone : s.fdIsOpen mounts full false = some (-1) := rfl
    rw [hnone]
    cases traits.unlinks <;> simp
  | true =>
    by_cases hfound : Found s fs (mountpath p full)
    · rw [hopen.1 hfound]
      simp [hfound]
    · rw [hopen.2 hfound]
      cases traits.unlinks <;> simp [hfound]

/-- **When an open file is recognised**: where the mount point does not stand in the way, and there is memory for the
second normalization in `dfs_file_unlink`. -/
theorem recognised_iff (h : Runs mounts Copied s) (filename : Name) (memoryOpen : Bool) :
    s.Recognised mounts filename.text memoryOpen ↔
      ∀ fullpath, s.normalize filename.text true = some (some fullpath) →
        s.Told mounts fullpath ∧ (memoryOpen = true ∨ ¬s.Opened fullpath) := by
  have hsound := run_sound h
  refine forall_congr' fun full => imp_congr_right fun hname => ?_
  unfold State.Told
  cases hlookup : mounts.lookup full with
  | none =>
    -- a path that is on no file system is not open
    have hclosed : ¬s.Opened full := by
      intro hopen
      obtain ⟨fs, p, traits, hsome⟩ := opened_lookup hsound hopen
      rw [hlookup] at hsome
      cases hsome
    refine iff_of_true ⟨fun hopen => absurd hopen hclosed, fun _ => ?_, ?_⟩ ⟨trivial, .inr hclosed⟩
    · unfold State.fdIsOpen
      rw [hname]
      simp only [hlookup]
    · refine iff_of_false ?_ hclosed
      unfold State.dfsFileUnlink
      rw [hname]
      simp [hlookup]
  | some entry =>
    obtain ⟨fs, p, traits⟩ := entry
    have hnormal : dfsNormalizePath s.workdir.text filename.text = some (some full) := hname
    obtain ⟨place, hplace⟩ := lookup_directory hnormal hlookup
    have hfull : Canonical full := hplace ▸ Directory.canonical place
    have hfound := found_iff hsound hlookup hfull
    obtain ⟨hzero, hminus⟩ := fdIsOpen_eq hname hlookup
    have hunlink := unlink_iff memoryOpen place hplace hname hlookup
    -- the answer is right if what is found is what is open
    have hright : (s.Opened full → s.fdIsOpen mounts filename.text true = some 0) ∧
        (¬s.Opened full → s.fdIsOpen mounts filename.text true = some (-1)) ↔
          (Found s fs (mountpath p full) ↔ s.Opened full) := by
      by_cases hf : Found s fs (mountpath p full) <;> by_cases ho : s.Opened full <;> simp [hf, ho, hzero, hminus]
    rw [← and_assoc, hright, hunlink]
    have htold : (Found s fs (mountpath p full) ↔ s.Opened full) ↔
        (p = ['/'] ∨ if traits.fullpath = false then ¬(full = p ∧ s.Opened p)
          else (s.Opened full ↔ s.OpenedOn mounts fs (full.drop p.length))) := by
      rw [hfound]
      by_cases hroot : p = ['/']
      · simp [hroot]
      · by_cases hflag : traits.fullpath = false
        · rw [if_neg hroot, if_pos hflag, if_pos hflag]
          by_cases hself : full = p
          · subst hself
            simp [hroot]
          · simp [hroot, hself]
        · rw [if_neg hroot, if_neg hflag, if_neg hflag, or_iff_right hroot]
          exact iff_comm
    show _ ↔ (p = ['/'] ∨ _) ∧ _
    rw [← htold]
    refine and_congr_right fun hsame => ?_
    rw [hsame, and_iff_right_iff_imp, imp_iff_or_not]

/-- A file system at the root, and one with `DFS_FS_FLAG_FULLPATH` at `/mnt`. -/
def uffs : Mounts where
  table := [⟨some ['/'], some ⟨"rom".toList, true, true⟩, none⟩,
    ⟨some ['/', 'm', 'n', 't'], some ⟨"uffs".toList, true, true⟩, none⟩]
  zeroed := by
    intro e he
    simp only [List.mem_cons, List.not_mem_nil, or_false] at he
    obtain rfl | rfl := he
    · exact .inr ⟨_, _, rfl, rfl⟩
    · exact .inr ⟨_, _, rfl, rfl⟩
  canonical := by
    have hmnt : Component ['m', 'n', 't'] := ⟨by decide, by decide, by decide, by decide⟩
    intro e he p hp
    simp only [List.mem_cons, List.not_mem_nil, or_false] at he
    obtain rfl | rfl := he
    · cases hp
      exact ⟨[], nofun, rfl⟩
    · cases hp
      exact ⟨[['m', 'n', 't']], fun c hc => List.mem_singleton.1 hc ▸ hmnt, rfl⟩
  traits ops := ⟨decide (ops.name = "uffs".toList), true, true⟩

def boot : State := ⟨⟨[], nofun, nofun⟩, [], fun _ => .zero⟩

theorem boot_init : boot.Init := ⟨rfl, rfl⟩

def rootFile : Name := ⟨['/', 'a'], by decide⟩

def mountFile : Name := ⟨['/', 'm', 'n', 't', '/', 'a'], by decide⟩

/-- A file is opened, and its descriptor is in the table. -/
def opening (filename : Name) : List Act :=
  [.calloc 0, .table [some 0], .dfsFileOpen (some 0) filename ⟨true, true, 0⟩]

/-- A file on the file system at the root is recognised. -/
theorem recognised_root :
    ∃ s, Runs uffs Copied s ∧ s.Opened rootFile.text ∧ s.Recognised uffs rootFile.text true := by
  obtain ⟨s, hr, h⟩ := Run.Reach.exec_ok (fun s a => s.step uffs a) Copied boot_init (opening rootFile)
    (fun s => decide (s.fds = [some 0]) && decide ((s.mem 0).name = some ['/', 'a']) &&
      decide (s.normalize ['/', 'a'] true = some (some ['/', 'a']))) (by decide)
  simp only [Bool.and_eq_true, decide_eq_true_eq] at h
  obtain ⟨⟨hfds, hname⟩, hnormal⟩ := h
  refine ⟨s, hr, ⟨0, by rw [hfds]; exact List.mem_cons_self, hname⟩, (recognised_iff hr rootFile true).2 ?_⟩
  intro full hfull
  obtain rfl : ['/', 'a'] = full := Option.some.inj (Option.some.inj (hnormal.symm.trans hfull))
  have hlookup : uffs.lookup ['/', 'a'] = some (0, ['/'], ⟨false, true, true⟩) := by decide
  refine ⟨?_, .inl rfl⟩
  unfold State.Told
  rw [hlookup]
  exact .inl rfl

/-- A file on the other one is not: what is stored begins with the mount point. -/
theorem recognised_mount : ¬∀ s, Runs uffs Copied s → ∀ filename : Name, s.Recognised uffs filename.text true := by
  intro hall
  obtain ⟨s, hr, h⟩ := Run.Reach.exec_ok (fun s a => s.step uffs a) Copied boot_init (opening mountFile)
    (fun s => decide (s.fds = [some 0]) && decide ((s.mem 0).name = some mountFile.text) &&
      decide (s.normalize mountFile.text true = some (some mountFile.text)) &&
      decide (s.fdIsOpen uffs mountFile.text true = some (-1))) (by decide)
  simp only [Bool.and_eq_true, decide_eq_true_eq] at h
  obtain ⟨⟨⟨hfds, hname⟩, hnormal⟩, hminus⟩ := h
  have hopen : s.Opened mountFile.text := ⟨0, by rw [hfds]; exact List.mem_cons_self, hname⟩
  have hzero := (hall s hr mountFile _ hnormal).1 hopen
  rw [hminus] at hzero
  exact absurd hzero (by decide)

end RtThread.DfsOpen
