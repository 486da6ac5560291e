import RtThread.Spec.DfsFd
import Mathlib.Data.List.Basic
import Mathlib.Tactic.SetLike

/-!
# The references of file descriptors

`close` puts an entry twice where `dfs_file_close` succeeds, and so does `open` where `dfs_file_open` fails. Nothing
keeps two calls from doing so with one entry.

* `Table.fdNew_cases`, `Table.fdGet_cases`, `Table.fdPut_cases`: what the three functions do to a table.
* `Inv`, `inv_step`: **the invariant** of the runs in which each opening ends once.
* `references_balanced`: what it says of the references.
-/

namespace RtThread.DfsFd

namespace Table

/-- **A table**: an entry is listed once and in memory, and what is in memory has references. -/
structure Inv (tab : Table) : Prop where
  nodup : ∀ {i j d : ℕ}, tab.fds[i]? = some (some d) → tab.fds[j]? = some (some d) → i = j
  live : ∀ {i d : ℕ}, tab.fds[i]? = some (some d) → ∃ e, tab.mem d = some e
  listed : ∀ {d : ℕ} {e : Fd}, tab.mem d = some e → some d ∈ tab.fds
  magic : ∀ {d : ℕ} {e : Fd}, tab.mem d = some e → e.magic = DFS_FD_MAGIC
  pos : ∀ {d : ℕ} {e : Fd}, tab.mem d = some e → 0 < e.refCount
  fresh : ∀ {d : ℕ} {e : Fd}, tab.mem d = some e → d < tab.next

variable {cfg : Config} {tab tab' : Table} {fd : ℤ} {d idx : ℕ} {e : Fd} {realloc calloc : Bool}

theorem entry_eq_some :
    tab.entry cfg fd = some d ↔ 0 ≤ index cfg fd ∧ tab.fds[(index cfg fd).toNat]? = some (some d) := by
  unfold entry maxfd
  by_cases hin : index cfg fd < 0 ∨ (tab.fds.length : ℤ) ≤ index cfg fd
  · rw [if_pos hin]
    constructor
    · nofun
    · rintro ⟨hpos, hget⟩
      obtain ⟨hlt, -⟩ := List.getElem?_eq_some_iff.1 hget
      omega
  · rw [if_neg hin, Option.join_eq_some_iff]
    exact ⟨fun h => ⟨by omega, h⟩, fun h => h.2⟩

/-- A table that lists what another one does, at the same places. -/
def Keeps (tab tab' : Table) : Prop := ∀ {i d : ℕ}, tab.fds[i]? = some (some d) → tab'.fds[i]? = some (some d)

theorem Keeps.entry (h : tab.Keeps tab') (hd : tab.entry cfg fd = some d) : tab'.entry cfg fd = some d := by
  rw [entry_eq_some] at hd ⊢
  exact ⟨hd.1, h hd.2⟩

theorem Inv.empty_iff (h : tab.Inv) {x : Option ℕ} (hx : x ∈ tab.fds) : tab.empty x = true ↔ x = none := by
  cases x with
  | none => simp [empty]
  | some d =>
    obtain ⟨i, hi⟩ := List.mem_iff_getElem?.1 hx
    obtain ⟨e, he⟩ := h.live hi
    have hpos := h.pos he
    simp only [empty, he, Option.any_some, decide_eq_true_eq, reduceCtorEq, iff_false]
    omega

/-- More entries, which are empty. -/
theorem Inv.grow (h : tab.Inv) (k : ℕ) : ({ tab with fds := tab.fds ++ List.replicate k none } : Table).Inv ∧
    tab.Keeps { tab with fds := tab.fds ++ List.replicate k none } := by
  have hback : ∀ {i d : ℕ}, (tab.fds ++ List.replicate k none)[i]? = some (some d) → tab.fds[i]? = some (some d) := by
    intro i d hi
    by_cases hlt : i < tab.fds.length
    · rwa [List.getElem?_append_left hlt] at hi
    · rw [List.getElem?_append_right (Nat.not_lt.1 hlt), List.getElem?_replicate] at hi
      split at hi
      · cases hi
      · cases hi
  refine ⟨?_, fun {i d} hi => ?_⟩
  · exact {
      nodup := fun hi hj => h.nodup (hback hi) (hback hj)
      live := fun hi => h.live (hback hi)
      listed := fun he => List.mem_append_left _ (h.listed he)
      magic := h.magic
      pos := h.pos
      fresh := h.fresh }
  · obtain ⟨hlt, -⟩ := List.getElem?_eq_some_iff.1 hi
    exact (List.getElem?_append_left hlt).trans hi

/-- A new entry with one reference. -/
def made (tab : Table) (idx : ℕ) : Table where
  fds := tab.fds.set idx (some tab.next)
  mem := Function.update tab.mem tab.next (some ⟨DFS_FD_MAGIC, 1⟩)
  next := tab.next + 1

theorem Inv.next_free (h : tab.Inv) : tab.mem tab.next = none := by
  cases hm : tab.mem tab.next with
  | none => rfl
  | some e => exact absurd (h.fresh hm) (Nat.lt_irrefl _)

theorem made_mem {d : ℕ} {e : Fd} (he : (tab.made idx).mem d = some e) :
    (d = tab.next ∧ e = ⟨DFS_FD_MAGIC, 1⟩) ∨ d ≠ tab.next ∧ tab.mem d = some e := by
  change Function.update tab.mem tab.next _ d = some e at he
  by_cases hd : d = tab.next
  · rw [hd, Function.update_self] at he
    cases he
    exact .inl ⟨hd, rfl⟩
  · rw [Function.update_of_ne hd] at he
    exact .inr ⟨hd, he⟩

theorem Inv.made (h : tab.Inv) (hidx : tab.fds[idx]? = some none) :
    (tab.made idx).Inv ∧ tab.Keeps (tab.made idx) := by
  obtain ⟨hlt, -⟩ := List.getElem?_eq_some_iff.1 hidx
  have hget : ∀ {i d : ℕ}, (tab.made idx).fds[i]? = some (some d) →
      (i = idx ∧ d = tab.next) ∨ i ≠ idx ∧ d ≠ tab.next ∧ tab.fds[i]? = some (some d) := by
    intro i d hi
    change (tab.fds.set idx (some tab.next))[i]? = some (some d) at hi
    by_cases hne : i = idx
    · rw [hne, List.getElem?_set_self hlt] at hi
      cases hi
      exact .inl ⟨hne, rfl⟩
    · rw [List.getElem?_set_ne (Ne.symm hne)] at hi
      refine .inr ⟨hne, ?_, hi⟩
      rintro rfl
      obtain ⟨e, he⟩ := h.live hi
      rw [h.next_free] at he
      cases he
  have hmem : ∀ {d : ℕ}, d ≠ tab.next → (tab.made idx).mem d = tab.mem d := fun hd => Function.update_of_ne hd _ _
  refine ⟨?_, fun {i d} hi => ?_⟩
  · refine ⟨fun {i j d} hi hj => ?_, fun {i d} hi => ?_, fun {d e} he => ?_, fun {d e} he => ?_, fun {d e} he => ?_,
      fun {d e} he => ?_⟩
    · obtain ⟨rfl, rfl⟩ | ⟨-, hd, hi⟩ := hget hi <;> obtain ⟨rfl, hd'⟩ | ⟨-, hd', hj⟩ := hget hj
      · rfl
      · exact absurd rfl hd'
      · exact absurd hd' hd
      · exact h.nodup hi hj
    · obtain ⟨rfl, rfl⟩ | ⟨-, hd, hi⟩ := hget hi
      · exact ⟨_, Function.update_self _ _ _⟩
      · rw [hmem hd]
        exact h.live hi
    · obtain ⟨rfl, -⟩ | ⟨hd, he⟩ := made_mem he
      · exact List.mem_iff_getElem?.2 ⟨idx, List.getElem?_set_self hlt⟩
      · obtain ⟨i, hi⟩ := List.mem_iff_getElem?.1 (h.listed he)
        refine List.mem_iff_getElem?.2 ⟨i, (List.getElem?_set_ne ?_).trans hi⟩
        rintro rfl
        rw [hidx] at hi
        cases hi
    · obtain ⟨-, rfl⟩ | ⟨-, he⟩ := made_mem he
      · rfl
      · exact h.magic he
    · obtain ⟨-, rfl⟩ | ⟨-, he⟩ := made_mem he
      · exact Int.one_pos
      · exact h.pos he
    · obtain ⟨rfl, -⟩ | ⟨-, he⟩ := made_mem he
      · exact Nat.lt_succ_self _
      · exact Nat.lt_succ_of_lt (h.fresh he)
  · refine (List.getElem?_set_ne ?_).trans hi
    rintro rfl
    rw [hidx] at hi
    cases hi

/-- `allocate` finds no memory, or puts a new entry where there was none. -/
theorem allocate_cases (tab : Table) (hidx : tab.fds[idx]? = some none ∨ idx = tab.maxfd) (calloc : Bool) :
    tab.allocate idx calloc = (tab.maxfd, tab) ∨
      tab.fds[idx]? = some none ∧ tab.allocate idx calloc =
        (idx, ⟨tab.fds.set idx (some tab.next), Function.update tab.mem tab.next (some ⟨0, 0⟩), tab.next + 1⟩) := by
  unfold allocate
  by_cases hnone : tab.fds[idx]? = some none
  · rw [if_pos hnone]
    cases calloc with
    | true => exact .inr ⟨hnone, rfl⟩
    | false => exact .inl rfl
  · rw [if_neg hnone, hidx.resolve_left hnone]
    exact .inl rfl

/-- `fd_alloc` may add empty entries first. -/
theorem fdAlloc_cases (cfg : Config) (h : tab.Inv) (realloc calloc : Bool) : ∃ tab₁ idx, tab₁.Inv ∧ tab.Keeps tab₁ ∧
    tab₁.mem = tab.mem ∧ tab₁.next = tab.next ∧ (tab₁.fds[idx]? = some none ∨ idx = tab₁.maxfd) ∧
      (tab.fdAlloc cfg realloc calloc = tab₁.allocate idx calloc ∨
        tab.fdAlloc cfg realloc calloc = (tab₁.maxfd, tab₁)) := by
  unfold fdAlloc
  dsimp only
  have hle : tab.fds.findIdx tab.empty ≤ tab.maxfd := List.findIdx_le_length
  split
  · rename_i hfull
    obtain ⟨hend, hroom⟩ := hfull
    split
    · set k := min (tab.maxfd + 4) cfg.fdMax - tab.maxfd with hk
      obtain ⟨hinv, hkeeps⟩ := h.grow k
      refine ⟨_, _, hinv, hkeeps, rfl, rfl, .inl ?_, .inl rfl⟩
      change (tab.fds ++ List.replicate k none)[tab.fds.findIdx tab.empty]? = some none
      rw [hend, maxfd, List.getElem?_append_right (le_refl _), Nat.sub_self, List.getElem?_replicate,
        if_pos (by unfold maxfd at hroom hk; omega)]
    · exact ⟨tab, tab.maxfd, h, fun hi => hi, rfl, rfl, .inr rfl, .inr (by rw [hend])⟩
  · refine ⟨tab, _, h, fun hi => hi, rfl, rfl, ?_, .inl rfl⟩
    obtain hlt | heq := Nat.lt_or_eq_of_le hle
    · left
      have hempty : tab.empty (tab.fds[tab.fds.findIdx tab.empty]) = true := List.findIdx_getElem
      rw [List.getElem?_eq_getElem hlt, (h.empty_iff (List.getElem_mem hlt)).1 hempty]
    · exact .inr heq

theorem index_number (cfg : Config) (idx : ℕ) : index cfg (idx + DFS_FD_OFFSET) = idx := by
  unfold index DFS_FD_OFFSET
  rw [if_neg (by omega)]
  omega

/-- **What `fd_new` does**: nothing that is seen, or an entry of its own under the number that it returns. -/
theorem fdNew_cases (h : tab.Inv) (hr : tab.fdNew cfg realloc calloc = some (fd, tab')) :
    tab'.Inv ∧ tab.Keeps tab' ∧
      ((fd < 0 ∧ tab'.mem = tab.mem) ∨
        0 ≤ fd ∧ tab'.entry cfg fd = some tab.next ∧
          tab'.mem = Function.update tab.mem tab.next (some ⟨DFS_FD_MAGIC, 1⟩)) := by
  obtain ⟨tab₁, idx, h₁, hkeeps, hmem, hnext, hidx, hres⟩ := fdAlloc_cases cfg h realloc calloc
  have hcases : tab.fdAlloc cfg realloc calloc = (tab₁.maxfd, tab₁) ∨ tab₁.fds[idx]? = some none ∧
      tab.fdAlloc cfg realloc calloc =
        (idx, ⟨tab₁.fds.set idx (some tab₁.next), Function.update tab₁.mem tab₁.next (some ⟨0, 0⟩), tab₁.next + 1⟩) := by
    obtain hres | hres := hres
    · rw [hres]
      exact allocate_cases tab₁ hidx calloc
    · exact .inl hres
  unfold fdNew at hr
  obtain hres | ⟨hnone, hres⟩ := hcases
  · rw [hres] at hr
    simp only [if_true] at hr
    cases hr
    exact ⟨h₁, hkeeps, .inl ⟨by decide, hmem⟩⟩
  · obtain ⟨hlt, -⟩ := List.getElem?_eq_some_iff.1 hnone
    have hget : (tab₁.fds.set idx (some tab₁.next))[idx]? = some (some tab₁.next) := List.getElem?_set_self hlt
    have hne : idx ≠ (tab₁.fds.set idx (some tab₁.next)).length := by
      rw [List.length_set]
      exact hlt.ne
    rw [hres] at hr
    simp only [maxfd, if_neg hne, hget] at hr
    cases hr
    obtain ⟨hinv, hkeeps₁⟩ := h₁.made hnone
    have hmade : Function.update (Function.update tab₁.mem tab₁.next (some ⟨0, 0⟩)) tab₁.next (some ⟨DFS_FD_MAGIC, 1⟩) =
        (tab₁.made idx).mem := Function.update_idem _ _ _
    rw [hmade]
    refine ⟨hinv, fun hi => hkeeps₁ (hkeeps hi), .inr ⟨?_, ?_, ?_⟩⟩
    · unfold DFS_FD_OFFSET
      omega
    · rw [entry_eq_some, index_number]
      refine ⟨Int.natCast_nonneg _, ?_⟩
      rw [Int.toNat_natCast, ← hnext]
      exact hget
    · rw [← hmem, ← hnext]
      rfl

/-- **What `fd_get` does**: it finds nothing, or adds a reference to the entry of the number. -/
theorem fdGet_cases (h : tab.Inv) {r : Option ℕ} (hr : tab.fdGet cfg fd = some (r, tab')) :
    (r = none ∧ tab.entry cfg fd = none ∧ tab' = tab) ∨
      ∃ d e, r = some d ∧ tab.entry cfg fd = some d ∧ tab.mem d = some e ∧
        tab' = { tab with mem := Function.update tab.mem d (some { e with refCount := e.refCount + 1 }) } := by
  unfold fdGet at hr
  cases hd : tab.entry cfg fd with
  | none =>
    rw [hd] at hr
    cases hr
    exact .inl ⟨rfl, rfl, rfl⟩
  | some d =>
    obtain ⟨e, he⟩ := h.live (entry_eq_some.1 hd).2
    rw [hd] at hr
    simp only [he] at hr
    rw [if_pos (h.magic he)] at hr
    cases hr
    exact .inr ⟨d, e, rfl, rfl, he, rfl⟩

/-- Other references to an entry. -/
theorem Inv.setCount (h : tab.Inv) (he : tab.mem d = some e) {n : ℤ} (hn : 0 < n) :
    ({ tab with mem := Function.update tab.mem d (some { e with refCount := n }) } : Table).Inv := by
  have hmem : ∀ {d' : ℕ} {e' : Fd}, Function.update tab.mem d (some { e with refCount := n }) d' = some e' →
      (d' = d ∧ e' = { e with refCount := n }) ∨ tab.mem d' = some e' := by
    intro d' e' he'
    by_cases hd : d' = d
    · rw [hd, Function.update_self] at he'
      cases he'
      exact .inl ⟨hd, rfl⟩
    · rw [Function.update_of_ne hd] at he'
      exact .inr he'
  refine ⟨h.nodup, fun {i d'} hi => ?_, fun {d' e'} he' => ?_, fun {d' e'} he' => ?_, fun {d' e'} he' => ?_,
    fun {d' e'} he' => ?_⟩
  · show ∃ e', Function.update tab.mem d _ d' = some e'
    by_cases hd : d' = d
    · rw [hd, Function.update_self]
      exact ⟨_, rfl⟩
    · rw [Function.update_of_ne hd]
      exact h.live hi
  · obtain ⟨rfl, -⟩ | he' := hmem he'
    · exact h.listed he
    · exact h.listed he'
  · obtain ⟨-, rfl⟩ | he' := hmem he'
    · show e.magic = DFS_FD_MAGIC
      exact h.magic he
    · exact h.magic he'
  · obtain ⟨-, rfl⟩ | he' := hmem he'
    · exact hn
    · exact h.pos he'
  · obtain ⟨rfl, -⟩ | he' := hmem he'
    · exact h.fresh he
    · exact h.fresh he'

/-- An entry that is freed. -/
theorem Inv.freed (h : tab.Inv) (hi : tab.fds[idx]? = some (some d)) :
    ({ tab with fds := tab.fds.set idx none, mem := Function.update tab.mem d none } : Table).Inv := by
  have hget : ∀ {j d' : ℕ}, (tab.fds.set idx none)[j]? = some (some d') → d' ≠ d ∧ tab.fds[j]? = some (some d') := by
    intro j d' hj
    by_cases hne : j = idx
    · obtain ⟨hlt, -⟩ := List.getElem?_eq_some_iff.1 hi
      rw [hne, List.getElem?_set_self hlt] at hj
      cases hj
    · rw [List.getElem?_set_ne (Ne.symm hne)] at hj
      refine ⟨?_, hj⟩
      rintro rfl
      exact hne (h.nodup hj hi)
  have hmem : ∀ {d' : ℕ} {e' : Fd}, Function.update tab.mem d none d' = some e' → d' ≠ d ∧ tab.mem d' = some e' := by
    intro d' e' he'
    by_cases hd : d' = d
    · rw [hd, Function.update_self] at he'
      cases he'
    · rw [Function.update_of_ne hd] at he'
      exact ⟨hd, he'⟩
  refine ⟨fun {i j d'} hi' hj => h.nodup (hget hi').2 (hget hj).2, fun {i d'} hi' => ?_, fun {d' e'} he' => ?_,
    fun {d' e'} he' => h.magic (hmem he').2, fun {d' e'} he' => h.pos (hmem he').2,
    fun {d' e'} he' => h.fresh (hmem he').2⟩
  · obtain ⟨hd, hi'⟩ := hget hi'
    show ∃ e', Function.update tab.mem d none d' = some e'
    rw [Function.update_of_ne hd]
    exact h.live hi'
  · obtain ⟨hd, he'⟩ := hmem he'
    obtain ⟨j, hj⟩ := List.mem_iff_getElem?.1 (h.listed he')
    refine List.mem_iff_getElem?.2 ⟨j, (List.getElem?_set_ne ?_).trans hj⟩
    rintro rfl
    rw [hi] at hj
    cases hj
    exact hd rfl

/-- **What `fd_put` does**: it takes a reference away, and frees the entry with the last one. -/
theorem fdPut_cases (h : tab.Inv) (hr : tab.fdPut (some d) = some tab') :
    ∃ e, tab.mem d = some e ∧ tab'.Inv ∧ (∀ d', d' ≠ d → tab'.mem d' = tab.mem d') ∧
      (∀ e', tab'.mem d = some e' → e'.refCount = e.refCount - 1) ∧ (tab'.mem d = none → e.refCount = 1) ∧
      ∀ {cfg fd d'}, (d' = d → tab'.mem d ≠ none) → tab.entry cfg fd = some d' → tab'.entry cfg fd = some d' := by
  simp only [fdPut] at hr
  cases he : tab.mem d with
  | none =>
    rw [he] at hr
    cases hr
  | some e =>
    have hpos := h.pos he
    have hlisted := h.listed he
    simp only [he] at hr
    refine ⟨e, rfl, ?_⟩
    by_cases hlast : e.refCount = 1
    · rw [if_pos ⟨by omega, hlisted⟩] at hr
      cases hr
      have hidx : tab.fds[tab.fds.idxOf (some d)]? = some (some d) := by
        rw [List.getElem?_eq_getElem (List.idxOf_lt_length_iff.2 hlisted), List.getElem_idxOf]
      refine ⟨h.freed hidx, fun d' hd' => Function.update_of_ne hd' _ _, fun e' he' => ?_, fun _ => hlast,
        fun {cfg fd d'} hne hd' => ?_⟩
      · simp only [Function.update_self] at he'
        cases he'
      · rw [entry_eq_some] at hd' ⊢
        refine ⟨hd'.1, (List.getElem?_set_ne ?_).trans hd'.2⟩
        intro heq
        rw [← heq, hidx] at hd'
        cases hd'.2
        exact hne rfl (Function.update_self _ _ _)
    · rw [if_neg (by omega)] at hr
      cases hr
      refine ⟨h.setCount he (by omega), fun d' hd' => Function.update_of_ne hd' _ _, fun e' he' => ?_, fun hnone => ?_,
        fun _ hd' => hd'⟩
      · simp only [Function.update_self] at he'
        cases he'
        rfl
      · simp only [Function.update_self] at hnone
        cases hnone

end Table

variable {T : Type} {cfg : Config} {s s' : State T} {g g' : Log T} {t t' : T} {tab' : Table} {fd : ℤ} {d : ℕ} {x : Pc}

/-! ## Holders -/

/-- The thread holds entry `d`. -/
def Pc.has (pc : Pc) (d : ℕ) : Prop := pc.holds.any (·.2 = d) = true

instance (pc : Pc) (d : ℕ) : Decidable (pc.has d) := by
  unfold Pc.has
  infer_instance

theorem Pc.has_iff {pc : Pc} : pc.has d ↔ ∃ fd, pc.holds = some (fd, d) := by
  unfold Pc.has
  cases pc.holds with
  | none => simp
  | some h => simp [Prod.ext_iff]

section

variable [Fintype T]

/-- The threads that hold entry `d`. -/
def holders (pc : T → Pc) (d : ℕ) : Finset T := Finset.univ.filter fun t => (pc t).has d

theorem mem_holders {pc : T → Pc} : t ∈ holders pc d ↔ (pc t).has d := by
  simp [holders]

theorem card_holders_update [DecidableEq T] (pc : T → Pc) (t : T) (x : Pc) (d : ℕ) :
    (holders (Function.update pc t x) d).card + (if (pc t).has d then 1 else 0) =
      (holders pc d).card + (if x.has d then 1 else 0) := by
  have herase : (holders (Function.update pc t x) d).erase t = (holders pc d).erase t := by
    ext t'
    rw [Finset.mem_erase, Finset.mem_erase, mem_holders, mem_holders]
    by_cases ht : t' = t
    · simp [ht]
    · rw [Function.update_of_ne ht]
  have hself : t ∈ holders (Function.update pc t x) d ↔ x.has d := by
    rw [mem_holders, Function.update_self]
  have hcard := congrArg Finset.card herase
  rw [Finset.card_erase_eq_ite, Finset.card_erase_eq_ite] at hcard
  simp only [hself, mem_holders] at hcard
  have hpos : x.has d → 0 < (holders (Function.update pc t x) d).card := fun h => Finset.card_pos.2 ⟨t, hself.2 h⟩
  have hpos' : (pc t).has d → 0 < (holders pc d).card := fun h => Finset.card_pos.2 ⟨t, mem_holders.2 h⟩
  split_ifs at hcard ⊢ with h₁ h₂ <;> grind

end

/-! ## The invariant -/

/-- No null pointers. -/
def Pc.named : Pc → Prop
  | .inOpen _ d => d ≠ none
  | .put _ d _ => d ≠ none
  | .again _ d => d ≠ none
  | _ => True

variable (cfg) in
/-- What is known of a thread where it is. -/
structure Fits (tab : Table) (g : Log T) (t : T) (pc : Pc) : Prop where
  kept : ∀ fd d, pc.holds = some (fd, d) → tab.entry cfg fd = some d
  ends : ∀ d, pc.ends = some d → g.isOpen d = true ∧ g.ended d = true
  named : pc.named
  made : ∀ fd, pc = .opening fd → ∃ d, g.made t = some d

theorem Fits.idle (tab : Table) (g : Log T) (t : T) : Fits cfg tab g t .idle :=
  ⟨nofun, nofun, trivial, nofun⟩

variable [Fintype T]

variable (cfg) in
/-- **The invariant of the runs in which each opening ends once.** -/
structure Inv (s : State T) (g : Log T) : Prop where
  table : s.table.Inv
  counts : ∀ d e, s.table.mem d = some e → e.refCount = (if g.isOpen d = true then 1 else 0) + (holders s.pc d).card
  fits : ∀ t, Fits cfg s.table g t (s.pc t)
  once : ∀ t t' d, (s.pc t).ends = some d → (s.pc t').ends = some d → t = t'
  isLive : ∀ d, g.isOpen d = true → ∃ e, s.table.mem d = some e
  begun : ∀ d e, s.table.mem d = some e → g.ended d = false → g.isOpen d = true

/-- A thread that holds an entry keeps it alive. -/
theorem Inv.held_live (h : Inv cfg s g) (hd : (s.pc t).has d) : ∃ e, s.table.mem d = some e := by
  obtain ⟨fd, hfd⟩ := Pc.has_iff.1 hd
  exact h.table.live (Table.entry_eq_some.1 ((h.fits t).kept fd d hfd)).2

theorem Inv.balanced (h : Inv cfg s g) : Balanced cfg (s, g) where
  counts := by
    intro i d hi
    obtain ⟨e, he⟩ := h.table.live hi
    refine ⟨e, he, ?_⟩
    rw [h.counts d e he]
    rfl
  puts := by
    intro t x hx
    have hfits := h.fits t
    cases hpc : s.pc t with
    | put fd y again =>
      rw [hpc] at hx hfits
      cases hx
      obtain ⟨d, rfl⟩ := Option.ne_none_iff_exists'.1 hfits.named
      obtain ⟨e, he⟩ := h.held_live (t := t) (d := d) (by rw [hpc]; exact Pc.has_iff.2 ⟨fd, rfl⟩)
      exact ⟨d, e, rfl, he⟩
    | again fd y =>
      rw [hpc] at hx hfits
      cases hx
      obtain ⟨d, rfl⟩ := Option.ne_none_iff_exists'.1 hfits.named
      obtain ⟨e, he⟩ := h.isLive d (hfits.ends d rfl).1
      exact ⟨d, e, rfl, he⟩
    | _ =>
      rw [hpc] at hx
      cases hx
  kept := fun t fd d hd => (h.fits t).kept fd d hd

/-! ## The steps -/

section

variable [DecidableEq T]

omit [Fintype T] in
/-- What is known of the threads, when `t` goes on at `x`. -/
theorem fits_update (hx : Fits cfg tab' g' t x) (hothers : ∀ t', t' ≠ t → Fits cfg tab' g' t' (s.pc t')) (t' : T) :
    Fits cfg tab' g' t' (Function.update s.pc t x t') := by
  by_cases ht : t' = t
  · rw [ht, Function.update_self]
    exact hx
  · rw [Function.update_of_ne ht]
    exact hothers t' ht

omit [Fintype T] in
theorem once_update (h : ∀ t t' d, (s.pc t).ends = some d → (s.pc t').ends = some d → t = t')
    (hx : ∀ d, x.ends = some d → ∀ t', t' ≠ t → (s.pc t').ends ≠ some d) (t₁ t₂ : T) (d : ℕ)
    (h₁ : (Function.update s.pc t x t₁).ends = some d) (h₂ : (Function.update s.pc t x t₂).ends = some d) : t₁ = t₂ := by
  by_cases ht₁ : t₁ = t <;> by_cases ht₂ : t₂ = t
  · rw [ht₁, ht₂]
  · rw [ht₁, Function.update_self] at h₁
    rw [Function.update_of_ne ht₂] at h₂
    exact absurd h₂ (hx d h₁ t₂ ht₂)
  · rw [ht₂, Function.update_self] at h₂
    rw [Function.update_of_ne ht₁] at h₁
    exact absurd h₁ (hx d h₂ t₁ ht₁)
  · rw [Function.update_of_ne ht₁] at h₁
    rw [Function.update_of_ne ht₂] at h₂
    exact h t₁ t₂ d h₁ h₂

/-- A step that opens and ends nothing: what `t` takes and gives is counted. -/
theorem Inv.move (h : Inv cfg s g) (htab : tab'.Inv)
    (hentry : ∀ fd d, s.table.entry cfg fd = some d → tab'.entry cfg fd = some d)
    (hmem : ∀ d e, tab'.mem d = some e → ∃ e₀, s.table.mem d = some e₀ ∧
      e.refCount + (if (s.pc t).has d then 1 else 0) = e₀.refCount + (if x.has d then 1 else 0))
    (hback : ∀ d e, s.table.mem d = some e → ∃ e', tab'.mem d = some e')
    (hx : Fits cfg tab' g t x) (hends : ∀ d, x.ends = some d → (s.pc t).ends = some d) :
    Inv cfg ⟨tab', Function.update s.pc t x⟩ g where
  table := htab
  counts := by
    intro d e he
    obtain ⟨e₀, he₀, hcount⟩ := hmem d e he
    have hcard := card_holders_update s.pc t x d
    have h₀ := h.counts d e₀ he₀
    show e.refCount = _ + ((holders (Function.update s.pc t x) d).card : ℤ)
    split_ifs at hcount hcard <;> omega
  fits := fits_update hx fun t' _ =>
    ⟨fun fd d hd => hentry fd d ((h.fits t').kept fd d hd), (h.fits t').ends, (h.fits t').named, (h.fits t').made⟩
  once := once_update h.once fun d hd t' ht' hd' => ht' (h.once t' t d hd' (hends d hd))
  isLive := by
    intro d hd
    obtain ⟨e, he⟩ := h.isLive d hd
    exact hback d e he
  begun := by
    intro d e he hended
    obtain ⟨e₀, he₀, -⟩ := hmem d e he
    exact h.begun d e₀ he₀ hended

/-- `fd_new`. -/
theorem inv_fdNew {realloc calloc : Bool} (h : Inv cfg s g)
    (hs : s.step cfg (.fdNew t realloc calloc) = some s') :
    Inv cfg s' (log cfg s (.fdNew t realloc calloc) s' g) := by
  simp only [State.step] at hs
  split at hs
  · rename_i hpc
    obtain ⟨⟨fd, tab'⟩, hr, rfl⟩ := Option.map_eq_some_iff.1 hs
    obtain ⟨htab, hkeeps, ⟨hneg, hmem⟩ | ⟨hpos, hentry, hmem⟩⟩ := Table.fdNew_cases h.table hr
    · simp only [log, if_pos hneg, Function.update_self]
      refine h.move htab (fun fd d hd => hkeeps.entry hd) (fun d e he => ?_) (fun d e he => ?_) (.idle _ _ _) nofun
      · rw [hmem] at he
        refine ⟨e, he, ?_⟩
        rw [hpc]
      · rw [hmem]
        exact ⟨e, he⟩
    · simp only [log, if_neg (not_lt.2 hpos), Function.update_self, hentry]
      have hfree := h.table.next_free
      -- nothing is known of the new entry yet
      have hclosed : ∀ d, g.isOpen d = true → d ≠ s.table.next := by
        rintro d hd rfl
        obtain ⟨e, he⟩ := h.isLive _ hd
        rw [hfree] at he
        cases he
      have hempty : holders s.pc s.table.next = ∅ := by
        apply Finset.eq_empty_of_forall_notMem
        intro t' ht'
        obtain ⟨e, he⟩ := h.held_live (mem_holders.1 ht')
        rw [hfree] at he
        cases he
      have hcard : ∀ d, (holders (Function.update s.pc t (.opening fd)) d).card = (holders s.pc d).card := by
        intro d
        have hc := card_holders_update s.pc t (.opening fd) d
        rw [hpc] at hc
        exact hc
      have hmem' : ∀ d, d ≠ s.table.next → tab'.mem d = s.table.mem d := by
        intro d hd
        rw [hmem, Function.update_of_ne hd]
      refine ⟨htab, fun d e he => ?_, fits_update ⟨nofun, nofun, trivial, fun _ _ => ?_⟩ fun t' ht' => ?_,
        once_update h.once nofun, fun d hd => ?_, fun d e he hended => ?_⟩
      · show e.refCount = (if Function.update g.isOpen s.table.next true d = true then 1 else 0) +
          ((holders (Function.update s.pc t (.opening fd)) d).card : ℤ)
        rw [hcard]
        by_cases hd : d = s.table.next
        · simp only at he
          rw [hd, hmem, Function.update_self] at he
          cases he
          rw [hd, hempty, Function.update_self]
          rfl
        · simp only [hmem' d hd] at he
          rw [Function.update_of_ne hd]
          exact h.counts d e he
      · exact ⟨_, Function.update_self _ _ _⟩
      · have hfits := h.fits t'
        refine ⟨fun fd d hd => hkeeps.entry (hfits.kept fd d hd), fun d hd => ?_, hfits.named, fun fd hfd => ?_⟩
        · have hne := hclosed d (hfits.ends d hd).1
          show Function.update g.isOpen s.table.next true d = true ∧ Function.update g.ended s.table.next false d = true
          rw [Function.update_of_ne hne, Function.update_of_ne hne]
          exact hfits.ends d hd
        · obtain ⟨d, hd⟩ := hfits.made fd hfd
          exact ⟨d, (Function.update_of_ne ht' _ _).trans hd⟩
      · by_cases hne : d = s.table.next
        · refine ⟨⟨DFS_FD_MAGIC, 1⟩, ?_⟩
          show tab'.mem d = _
          rw [hne, hmem, Function.update_self]
        · simp only [Function.update_of_ne hne] at hd
          simp only [hmem' d hne]
          exact h.isLive d hd
      · by_cases hne : d = s.table.next
        · simp only [hne, Function.update_self]
        · simp only [Function.update_of_ne hne] at hended ⊢
          simp only [hmem' d hne] at he
          exact h.begun d e he hended
  · cases hs

/-- A reference is taken by `t`, which held none. -/
theorem Inv.get (h : Inv cfg s g) {d : ℕ} {e : Fd} (he : s.table.mem d = some e) (hnone : (s.pc t).holds = none)
    (hx : x.holds = some (fd, d)) (hentry : s.table.entry cfg fd = some d) (hends : x.ends = none) (hnamed : x.named)
    (hmade : ∀ fd, x ≠ .opening fd) :
    Inv cfg ⟨{ s.table with mem := Function.update s.table.mem d (some { e with refCount := e.refCount + 1 }) },
      Function.update s.pc t x⟩ g := by
  have hpos := h.table.pos he
  have hhas : ∀ d', x.has d' ↔ d' = d := by
    intro d'
    rw [Pc.has_iff, hx]
    simp [eq_comm]
  have hnot : ∀ d', ¬(s.pc t).has d' := by
    intro d'
    rw [Pc.has_iff, hnone]
    nofun
  refine h.move (h.table.setCount he (by omega)) (fun fd d hd => hd) (fun d' e' he' => ?_) (fun d' e' he' => ?_)
    ⟨fun fd' d' hd' => ?_, fun d' hd' => ?_, hnamed, fun fd' hfd' => absurd hfd' (hmade fd')⟩ fun d' hd' => ?_
  · simp only [hhas, if_neg (hnot d'), Int.add_zero]
    by_cases hd : d' = d
    · subst hd
      simp only [Function.update_self] at he'
      cases he'
      exact ⟨e, he, by simp⟩
    · simp only [Function.update_of_ne hd] at he'
      exact ⟨e', he', by simp [hd]⟩
  · by_cases hd : d' = d
    · subst hd
      exact ⟨_, Function.update_self _ _ _⟩
    · exact ⟨e', (Function.update_of_ne hd _ _).trans he'⟩
  · rw [hx] at hd'
    cases hd'
    exact hentry
  · rw [hends] at hd'
    cases hd'
  · rw [hends] at hd'
    cases hd'

/-- `fd_get` in `open`: the entry is there. -/
theorem inv_fdGet (h : Inv cfg s g) (hok : EndsOnce cfg (s, g) (.fdGet t)) (hs : s.step cfg (.fdGet t) = some s') :
    Inv cfg s' g := by
  simp only [State.step] at hs
  split at hs
  · rename_i fd hpc
    obtain ⟨⟨r, tab'⟩, hr, rfl⟩ := Option.map_eq_some_iff.1 hs
    obtain ⟨d₀, hmade⟩ := (h.fits t).made fd hpc
    have hentry : s.table.entry cfg fd = some d₀ := by
      simp only [EndsOnce, hpc] at hok
      exact hok.trans hmade
    obtain ⟨-, hnone, -⟩ | ⟨d, e, rfl, hd, he, rfl⟩ := Table.fdGet_cases h.table hr
    · rw [hentry] at hnone
      cases hnone
    · exact h.get he (by rw [hpc]; rfl) rfl hd rfl nofun nofun
  · cases hs

/-- `fd_get` in another call. -/
theorem inv_call {call : Call} (h : Inv cfg s g) (hs : s.step cfg (.call t call fd) = some s') : Inv cfg s' g := by
  simp only [State.step] at hs
  split at hs
  · rename_i hpc
    obtain ⟨⟨r, tab'⟩, hr, rfl⟩ := Option.map_eq_some_iff.1 hs
    obtain ⟨rfl, -, rfl⟩ | ⟨d, e, rfl, hd, he, rfl⟩ := Table.fdGet_cases h.table hr
    · refine h.move h.table (fun _ _ hd => hd) (fun d e he => ⟨e, he, ?_⟩) (fun d e he => ⟨e, he⟩) (.idle _ _ _) nofun
      rw [hpc]
    · exact h.get he (by rw [hpc]; rfl) rfl hd rfl trivial nofun
  · cases hs

/-- A function of `dfs_file.c` returns, and does not end the opening. -/
theorem Inv.ret (h : Inv cfg s g) (hholds : (s.pc t).holds = some (fd, d)) :
    Inv cfg (s.goto t (.put fd (some d) false)) g := by
  have hhas : ∀ d', (s.pc t).has d' ↔ (Pc.put fd (some d) false).has d' := by
    intro d'
    rw [Pc.has_iff, Pc.has_iff, hholds]
    rfl
  refine h.move h.table (fun _ _ hd => hd) (fun d' e he => ⟨e, he, ?_⟩) (fun d' e he => ⟨e, he⟩)
    ⟨fun fd' d' hd' => ?_, nofun, nofun, nofun⟩ nofun
  · simp only [hhas]
  · exact (h.fits t).kept fd' d' (hholds.trans hd')

/-- A function of `dfs_file.c` returns, and ends the opening. -/
theorem Inv.retEnds (h : Inv cfg s g) (hholds : (s.pc t).holds = some (fd, d)) (hended : g.ended d = false) :
    Inv cfg (s.goto t (.put fd (some d) true)) { g with ended := Function.update g.ended d true } := by
  have hhas : ∀ d', (s.pc t).has d' ↔ (Pc.put fd (some d) true).has d' := by
    intro d'
    rw [Pc.has_iff, Pc.has_iff, hholds]
    rfl
  have hcard : ∀ d', (holders (Function.update s.pc t (.put fd (some d) true)) d').card = (holders s.pc d').card := by
    intro d'
    have hc := card_holders_update s.pc t (.put fd (some d) true) d'
    simp only [hhas] at hc
    exact Nat.add_right_cancel hc
  obtain ⟨e, he⟩ := h.held_live (Pc.has_iff.2 ⟨fd, hholds⟩)
  have hopen := h.begun d e he hended
  have hends : ∀ d', g.ended d' = true → Function.update g.ended d true d' = true := by
    intro d' hd'
    by_cases hne : d' = d
    · rw [hne, Function.update_self]
    · rwa [Function.update_of_ne hne]
  refine ⟨h.table, fun d' e' he' => ?_, fits_update ⟨fun fd' d' hd' => ?_, fun d' hd' => ?_, nofun, nofun⟩
    fun t' _ => ?_, once_update h.once fun d' hd' t' ht' hd'' => ?_, h.isLive, fun d' e' he' hend => ?_⟩
  · show e'.refCount = _ + ((holders (Function.update s.pc t (.put fd (some d) true)) d').card : ℤ)
    rw [hcard]
    exact h.counts d' e' he'
  · exact (h.fits t).kept fd' d' (hholds.trans hd')
  · cases hd'
    exact ⟨hopen, Function.update_self _ _ _⟩
  · have hfits := h.fits t'
    exact ⟨hfits.kept, fun d' hd' => ⟨(hfits.ends d' hd').1, hends d' (hfits.ends d' hd').2⟩, hfits.named, hfits.made⟩
  · cases hd'
    have hbefore := ((h.fits t').ends d hd'').2
    rw [hended] at hbefore
    cases hbefore
  · by_cases hne : d' = d
    · rw [hne] at hend
      simp only [Function.update_self] at hend
      cases hend
    · simp only [Function.update_of_ne hne] at hend
      exact h.begun d' e' he' hend

theorem inv_ret {ok : Bool} (h : Inv cfg s g) (hok : EndsOnce cfg (s, g) (.ret t ok))
    (hs : s.step cfg (.ret t ok) = some s') : Inv cfg s' (log cfg s (.ret t ok) s' g) := by
  simp only [State.step] at hs
  simp only [EndsOnce] at hok
  split at hs
  · rename_i fd hpc
    have hnamed := (h.fits t).named
    rw [hpc] at hnamed
    exact absurd rfl hnamed
  · rename_i fd d hpc
    cases hs
    rw [hpc] at hok
    simp only [log, State.goto, Function.update_self]
    cases ok with
    | true => exact h.ret (by rw [hpc]; rfl)
    | false => exact h.retEnds (by rw [hpc]; rfl) hok
  · rename_i call fd d hpc
    cases hs
    rw [hpc] at hok
    simp only [log, State.goto, Function.update_self]
    by_cases hclose : ok = true ∧ call = .close
    · obtain ⟨rfl, rfl⟩ := hclose
      exact h.retEnds (by rw [hpc]; rfl) hok
    · have hfalse : (ok && decide (call = .close)) = false := by simpa using hclose
      rw [hfalse]
      exact h.ret (by rw [hpc]; rfl)
  · cases hs

/-- The `fd_put` of an entry that the thread holds. -/
theorem Inv.put (h : Inv cfg s g) {again : Bool} (hpc : s.pc t = .put fd (some d) again)
    (hr : s.table.fdPut (some d) = some tab') (hx : x.holds = none) (hends : x.ends = (s.pc t).ends) (hnamed : x.named)
    (hmade : ∀ fd, x ≠ .opening fd) : Inv cfg ⟨tab', Function.update s.pc t x⟩ g := by
  obtain ⟨e, he, htab, hmem, hcount, hfreed, hentry⟩ := Table.fdPut_cases h.table hr
  have hhas : ∀ d', (s.pc t).has d' ↔ d' = d := by
    intro d'
    rw [hpc, Pc.has_iff]
    simp [Pc.holds, eq_comm]
  have hnot : ∀ d', ¬x.has d' := by
    intro d'
    rw [Pc.has_iff, hx]
    nofun
  have hrefs := h.counts d e he
  have hcard : ∀ d', (holders (Function.update s.pc t x) d').card + (if d' = d then 1 else 0) =
      (holders s.pc d').card := by
    intro d'
    have hc := card_holders_update s.pc t x d'
    simpa only [hhas, if_neg (hnot d'), Nat.add_zero] using hc
  have hself := hcard d
  rw [if_pos rfl] at hself
  -- an entry that is freed is not open, and nobody else holds it
  have hclosed : tab'.mem d = none → g.isOpen d = false ∧ holders (Function.update s.pc t x) d = ∅ := by
    intro hnone
    have hone := hfreed hnone
    rw [← Finset.card_eq_zero, ← Bool.not_eq_true]
    constructor
    · intro hopen
      rw [if_pos hopen] at hrefs
      omega
    · split_ifs at hrefs <;> omega
  refine ⟨htab, fun d' e' he' => ?_, fits_update ⟨fun fd' d' hd' => ?_, fun d' hd' => ?_, hnamed,
    fun fd' hfd' => absurd hfd' (hmade fd')⟩ fun t' ht' => ?_, once_update h.once fun d' hd' t' ht' hd'' => ?_,
    fun d' hd' => ?_, fun d' e' he' hend => ?_⟩
  · have hc := hcard d'
    show e'.refCount = _ + ((holders (Function.update s.pc t x) d').card : ℤ)
    by_cases hd : d' = d
    · subst hd
      have hdown := hcount e' he'
      omega
    · simp only [hmem d' hd] at he'
      rw [if_neg hd] at hc
      rw [h.counts d' e' he', ← hc]
      rfl
  · rw [hx] at hd'
    cases hd'
  · exact (h.fits t).ends d' (hends ▸ hd')
  · have hfits := h.fits t'
    refine ⟨fun fd' d' hd' => hentry ?_ (hfits.kept fd' d' hd'), hfits.ends, hfits.named, hfits.made⟩
    rintro rfl hnone
    have hin : t' ∈ holders (Function.update s.pc t x) d' := by
      rw [mem_holders, Function.update_of_ne ht']
      exact Pc.has_iff.2 ⟨fd', hd'⟩
    rw [(hclosed hnone).2] at hin
    exact absurd hin (Finset.notMem_empty _)
  · exact ht' (h.once t' t d' hd'' (hends ▸ hd'))
  · by_cases hd : d' = d
    · subst hd
      cases hm : tab'.mem d' with
      | none =>
        rw [(hclosed hm).1] at hd'
        cases hd'
      | some e' => exact ⟨e', rfl⟩
    · obtain ⟨e', he'⟩ := h.isLive d' hd'
      exact ⟨e', (hmem d' hd).trans he'⟩
  · by_cases hd : d' = d
    · subst hd
      exact h.begun d' e he hend
    · simp only [hmem d' hd] at he'
      exact h.begun d' e' he' hend

/-- The second `fd_put` of a call that ends an opening. -/
theorem Inv.again (h : Inv cfg s g) (hpc : s.pc t = .again fd (some d)) (hr : s.table.fdPut (some d) = some tab') :
    Inv cfg ⟨tab', Function.update s.pc t .idle⟩ { g with isOpen := Function.update g.isOpen d false } := by
  obtain ⟨e, he, htab, hmem, hcount, hfreed, hentry⟩ := Table.fdPut_cases h.table hr
  have hends : (s.pc t).ends = some d := by rw [hpc]; rfl
  obtain ⟨hopen, hended⟩ := (h.fits t).ends d hends
  have hrefs := h.counts d e he
  rw [if_pos hopen] at hrefs
  have hcard : ∀ d', (holders (Function.update s.pc t .idle) d').card = (holders s.pc d').card := by
    intro d'
    have hc := card_holders_update s.pc t .idle d'
    rw [hpc] at hc
    exact hc
  have hothers : ∀ d', d' ≠ d → Function.update g.isOpen d false d' = g.isOpen d' := fun d' hd' =>
    Function.update_of_ne hd' _ _
  refine ⟨htab, fun d' e' he' => ?_, fits_update (.idle _ _ _) fun t' ht' => ?_, once_update h.once nofun,
    fun d' hd' => ?_, fun d' e' he' hend => ?_⟩
  · show e'.refCount = (if Function.update g.isOpen d false d' = true then 1 else 0) +
      ((holders (Function.update s.pc t .idle) d').card : ℤ)
    rw [hcard]
    by_cases hd : d' = d
    · subst hd
      have hdown := hcount e' he'
      rw [Function.update_self, if_neg Bool.false_ne_true]
      omega
    · simp only [hmem d' hd] at he'
      rw [hothers d' hd]
      exact h.counts d' e' he'
  · have hfits := h.fits t'
    refine ⟨fun fd' d' hd' => hentry ?_ (hfits.kept fd' d' hd'), fun d' hd' => ?_, hfits.named, hfits.made⟩
    · rintro rfl hnone
      have hone := hfreed hnone
      have hin : 0 < (holders s.pc d').card := Finset.card_pos.2 ⟨t', mem_holders.2 (Pc.has_iff.2 ⟨fd', hd'⟩)⟩
      omega
    · have hne : d' ≠ d := by
        rintro rfl
        exact ht' (h.once t' t d' hd' hends)
      simp only [hothers d' hne]
      exact hfits.ends d' hd'
  · by_cases hd : d' = d
    · rw [hd] at hd'
      simp only [Function.update_self] at hd'
      cases hd'
    · simp only [hothers d' hd] at hd'
      obtain ⟨e', he'⟩ := h.isLive d' hd'
      exact ⟨e', (hmem d' hd).trans he'⟩
  · by_cases hd : d' = d
    · rw [hd, hended] at hend
      cases hend
    · simp only [hmem d' hd] at he'
      simp only [hothers d' hd]
      exact h.begun d' e' he' hend

theorem inv_fdPut (h : Inv cfg s g) (hs : s.step cfg (.fdPut t) = some s') :
    Inv cfg s' (log cfg s (.fdPut t) s' g) := by
  have hnamed := (h.fits t).named
  simp only [State.step] at hs
  split at hs
  · rename_i fd x again hpc
    rw [hpc] at hnamed
    obtain ⟨d, rfl⟩ := Option.ne_none_iff_exists'.1 hnamed
    obtain ⟨tab', hr, rfl⟩ := Option.map_eq_some_iff.1 hs
    simp only [log, hpc]
    cases again with
    | true => exact h.put hpc hr rfl (by rw [hpc]; rfl) nofun nofun
    | false => exact h.put hpc hr rfl (by rw [hpc]; rfl) trivial nofun
  · rename_i fd x hpc
    rw [hpc] at hnamed
    obtain ⟨d, rfl⟩ := Option.ne_none_iff_exists'.1 hnamed
    obtain ⟨tab', hr, rfl⟩ := Option.map_eq_some_iff.1 hs
    simp only [log, hpc]
    exact h.again hpc hr
  · cases hs

theorem inv_step {a : Act T} (h : Inv cfg s g) (hok : EndsOnce cfg (s, g) a) (hs : s.step cfg a = some s') :
    Inv cfg s' (log cfg s a s' g) := by
  cases a with
  | fdNew t realloc calloc => exact inv_fdNew h hs
  | fdGet t => exact inv_fdGet h hok hs
  | call t call fd => exact inv_call h hs
  | ret t ok => exact inv_ret h hok hs
  | fdPut t => exact inv_fdPut h hs

omit [DecidableEq T] in
theorem init_inv (h : s.Init) : Inv cfg s (Log.start s) := by
  obtain ⟨hfds, hmem, hpc⟩ := h
  have hlist : ∀ {i d : ℕ}, s.table.fds[i]? ≠ some (some d) := by
    intro i d
    rw [hfds]
    nofun
  have hnone : ∀ {d : ℕ} {e : Fd}, s.table.mem d ≠ some e := by
    intro d e
    rw [hmem]
    nofun
  refine ⟨⟨fun hi => absurd hi hlist, fun hi => absurd hi hlist, fun he => absurd he hnone, fun he => absurd he hnone,
    fun he => absurd he hnone, fun he => absurd he hnone⟩, fun d e he => absurd he hnone, fun t => ?_, fun t t' d ht => ?_,
    nofun, fun d e he => absurd he hnone⟩
  · rw [hpc]
    exact .idle _ _ _
  · rw [hpc] at ht
    cases ht

end

/-- 32 descriptors, and no console. -/
def standard : Config := ⟨32, -1⟩

/-- No file has been opened yet. -/
def fresh (T : Type) : State T := ⟨⟨[], fun _ => none, 0⟩, fun _ => .idle⟩

theorem fresh_init (T : Type) : (fresh T).Init := ⟨rfl, fun _ => rfl, fun _ => rfl⟩

instance [DecidableEq T] (cfg : Config) (p : State T × Log T) (a : Act T) : Decidable (EndsOnce cfg p a) := by
  unfold EndsOnce
  split
  · split <;> infer_instance
  · split <;> infer_instance
  · infer_instance

end RtThread.DfsFd
