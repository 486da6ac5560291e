import RtThread.Spec.PosixSem
import Mathlib.Data.List.Nodup

/-!
# Named semaphores are a reference-counted name table

* `find_eq`: where the bytes that are compared read as names, `posix_sem_find` finds the bound semaphore.
* `call_abs`: a call does what the table says, if the code gets it right.
* `sem_refines`: so it does in every run of such calls.
* `sem_notFound`: a name that was created is not found, and memory of a user is freed.
-/

namespace RtThread.NamedSem

variable {s s' : State} {t t' : Table} {c : Call} {q : PosixSem} {l : List PosixSem} {name : Name}
  {behind : Addr → List UInt8} {p : Addr}

/-- The entry of a structure in the table. -/
def PosixSem.abs (q : PosixSem) : Entry :=
  ⟨q.psem, if q.unamed then .static q.sem.value else .named q.sem.name (!q.unlinked) q.refcount⟩

def State.abs (s : State) : Table := ⟨s.posixSemList.map PosixSem.abs⟩

/-- A count fits its field, and a semaphore of `sem_init` has a kernel object and is never unlinked. -/
def PosixSem.Fits (q : PosixSem) : Prop :=
  q.refcount < 2 ^ 16 ∧ (q.unamed = true → q.unlinked = false ∧ q.sem.addr ≠ 0)

/-- The structures are distinct. -/
structure WellFormed (s : State) : Prop where
  distinct : (s.posixSemList.map PosixSem.psem).Nodup
  fits : ∀ q ∈ s.posixSemList, q.Fits

theorem find_eq (h : Reads behind name l) : posixSemFind behind name l = l.find? (PosixSem.bound name) := by
  induction l with
  | nil => rfl
  | cons q l ih =>
    obtain ⟨hq, hl⟩ := h
    rw [posixSemFind, hq, List.find?_cons]
    cases hb : q.bound name with
    | true => rfl
    | false => exact ih (hl hb)

theorem binds_abs (q : PosixSem) (name : Name) : q.abs.binds name = q.bound name := by
  unfold PosixSem.abs PosixSem.bound Entry.binds
  cases q.unamed <;> simp

theorem lookup_abs (s : State) (name : Name) :
    s.abs.lookup name = (s.posixSemList.find? (PosixSem.bound name)).map PosixSem.abs := by
  unfold Table.lookup State.abs
  rw [List.find?_map]
  congr 2
  funext q
  exact binds_abs q name

theorem get_abs (s : State) (p : Addr) : s.abs.get p = (s.get p).map PosixSem.abs := by
  unfold Table.get State.get State.abs
  rw [List.find?_map]
  rfl

theorem set_abs (s : State) (q : PosixSem) : (s.set q).abs = s.abs.set q.psem q.abs.kind := by
  unfold State.set Table.set State.abs
  simp only [List.map_map]
  congr 2
  funext r
  by_cases hr : r.psem = q.psem
  · simp only [Function.comp_apply, if_pos hr]
    rw [if_pos (show r.abs.psem = q.psem from hr)]
    rfl
  · simp only [Function.comp_apply, if_neg hr]
    rw [if_neg (show ¬r.abs.psem = q.psem from hr)]

theorem delete_abs (s : State) (p : Addr) : (s.posixSemDelete p).abs = s.abs.remove p := by
  unfold State.posixSemDelete Table.remove State.abs
  rw [List.eraseP_map]
  rfl

theorem insert_abs (s : State) (q : PosixSem) : (s.posixSemInsert q).abs = s.abs.add q.abs := rfl

theorem abs_named (h : q.unamed = false) : q.abs = ⟨q.psem, .named q.sem.name (!q.unlinked) q.refcount⟩ := by
  rw [PosixSem.abs, h]
  rfl

theorem abs_static (h : q.unamed = true) : q.abs = ⟨q.psem, .static q.sem.value⟩ := by
  rw [PosixSem.abs, h]
  rfl

theorem bound_iff : q.bound name = true ↔ q.unamed = false ∧ q.unlinked = false ∧ q.sem.name = name := by
  unfold PosixSem.bound
  simp [and_assoc]

/-- What a call of the code and of the table have in common. -/
def Agree (x : Option (Out × State)) (y : Option (Out × Table)) : Prop :=
  ∃ out s', x = some (out, s') ∧ y = some (out, s'.abs) ∧ WellFormed s'

theorem set_psem (s : State) (q : PosixSem) :
    (s.set q).posixSemList.map PosixSem.psem = s.posixSemList.map PosixSem.psem := by
  unfold State.set
  rw [List.map_map]
  apply List.map_congr_left
  intro r _
  by_cases hr : r.psem = q.psem
  · rw [Function.comp_apply, if_pos hr, hr]
  · rw [Function.comp_apply, if_neg hr]

theorem WellFormed.set (h : WellFormed s) (hq : q.Fits) :
    WellFormed (s.set q) := by
  refine ⟨(set_psem s q).symm ▸ h.distinct, ?_⟩
  intro r hr
  obtain ⟨r', hr', rfl⟩ := List.mem_map.1 hr
  split
  · exact hq
  · exact h.fits r' hr'

theorem WellFormed.delete (h : WellFormed s) (p : Addr) : WellFormed (s.posixSemDelete p) := by
  refine ⟨h.distinct.sublist (List.eraseP_sublist.map _), ?_⟩
  intro r hr
  exact h.fits r (List.mem_of_mem_eraseP hr)

theorem get_none (h : s.abs.get q.psem = none) : q.psem ∉ s.posixSemList.map PosixSem.psem := by
  intro hmem
  obtain ⟨r, hr, hrq⟩ := List.mem_map.1 hmem
  rw [get_abs, Option.map_eq_none_iff] at h
  have hno := List.find?_eq_none.1 h r hr
  exact hno (decide_eq_true hrq)

theorem WellFormed.insert (h : WellFormed s) (hq : q.Fits)
    (hnew : s.abs.get q.psem = none) : WellFormed (s.posixSemInsert q) := by
  refine ⟨List.nodup_cons.2 ⟨get_none hnew, h.distinct⟩, ?_⟩
  intro r hr
  rcases List.mem_cons.1 hr with rfl | hr
  · exact hq
  · exact h.fits r hr

/-- A change that the table does not see. -/
theorem WellFormed.set_abs (h : WellFormed s) {q' : PosixSem} (hq : q ∈ s.posixSemList) (hp : q'.psem = q.psem)
    (ha : q'.abs = q.abs) : (s.set q').abs = s.abs := by
  unfold State.set State.abs
  rw [List.map_map]
  congr 1
  apply List.map_congr_left
  intro r hr
  by_cases hrq : r.psem = q'.psem
  · have heq : r = q := List.inj_on_of_nodup_map h.distinct hr hq (hrq.trans hp)
    simp only [Function.comp_apply, if_pos hrq]
    rw [ha, heq]
  · simp only [Function.comp_apply, if_neg hrq]
/-- A semaphore is created, if there is memory for it. -/
theorem create_abs {excl : Bool} {value : ℕ} {mem : Option Addr} {obj : Addr} (hw : WellFormed s)
    (hfind : (excl = true ∧ (posixSemFind behind name s.posixSemList).isSome = true) = False)
    (hlookup : s.posixSemList.find? (PosixSem.bound name) = none) (hnew : ∀ p ∈ mem, s.abs.get p = none) :
    Agree (s.call (.semOpen name true excl value mem obj behind))
      (s.abs.call (.semOpen name true excl value mem obj behind)) := by
  unfold Agree
  simp only [State.call, State.semOpen, Table.call, lookup_abs, hlookup, hfind, Option.map_none, if_true, if_false]
  cases mem with
  | none => exact ⟨_, s, rfl, rfl, hw⟩
  | some p =>
    by_cases hobj : obj = 0
    · simp only [if_pos hobj]
      exact ⟨_, s, rfl, rfl, hw⟩
    · simp only [if_neg hobj]
      exact ⟨_, _, rfl, rfl, hw.insert ⟨Nat.one_lt_two_pow (by decide), nofun⟩ (hnew p rfl)⟩

theorem open_abs {creat excl : Bool} {value : ℕ} {mem : Option Addr} {obj : Addr} (hw : WellFormed s)
    (hnew : ∀ p ∈ mem, s.abs.get p = none) (hm : Meets s (.semOpen name creat excl value mem obj behind)) :
    Agree (s.call (.semOpen name creat excl value mem obj behind))
      (s.abs.call (.semOpen name creat excl value mem obj behind)) := by
  cases creat with
  | true =>
    cases excl with
    | true =>
      have hfind := find_eq (show Reads behind name s.posixSemList from hm)
      cases hl : s.posixSemList.find? (PosixSem.bound name) with
      | none => exact create_abs hw (by simp [hfind, hl]) hl hnew
      | some q =>
        obtain ⟨hn, -, -⟩ := bound_iff.1 (List.find?_some hl)
        refine ⟨⟨.null .EEXIST, []⟩, s, ?_, ?_, hw⟩
        · simp [State.call, State.semOpen, hfind, hl]
        · simp [Table.call, lookup_abs, hl, abs_named hn]
    | false =>
      have hl : s.posixSemList.find? (PosixSem.bound name) = none := by
        rw [List.find?_eq_none]
        intro q hq
        rw [(show ∀ q ∈ s.posixSemList, q.bound name = false from hm) q hq]
        exact Bool.false_ne_true
      exact create_abs hw (by simp) hl hnew
  | false =>
    obtain ⟨hreads, hcount⟩ := (show Reads behind name s.posixSemList ∧
      ∀ q ∈ s.posixSemList, q.bound name = true → q.refcount + 1 < 2 ^ 16 from hm)
    have hfind := find_eq hreads
    cases hl : s.posixSemList.find? (PosixSem.bound name) with
    | none =>
      refine ⟨⟨.null .ENOENT, []⟩, s, ?_, ?_, hw⟩
      · simp [State.call, State.semOpen, hfind, hl]
      · simp [Table.call, lookup_abs, hl]
    | some q =>
      have hmem := List.mem_of_find?_eq_some hl
      obtain ⟨hn, -, -⟩ := bound_iff.1 (List.find?_some hl)
      have hlt := hcount q hmem (List.find?_some hl)
      have hmod : (q.refcount + 1) % 2 ^ 16 = q.refcount + 1 := Nat.mod_eq_of_lt hlt
      refine ⟨⟨.sem q.psem, []⟩, s.set { q with refcount := q.refcount + 1 }, ?_, ?_, hw.set ⟨hlt, ?_⟩⟩
      · simp only [State.call, State.semOpen, hfind, hl, hmod]
        rfl
      · rw [set_abs]
        simp [Table.call, lookup_abs, hl, Table.update, PosixSem.abs, hn]
      · exact (hw.fits q hmem).2

/-- A structure after a change of its count or its name: without either it is freed. -/
def State.settle (s : State) (q : PosixSem) (r : Ret) : Out × State :=
  if q.refcount = 0 ∧ q.unlinked = true then (⟨r, [q.psem]⟩, s.posixSemDelete q.psem) else (⟨r, []⟩, s.set q)

theorem update_abs (hw : WellFormed s) (hn : q.unamed = false) (hlt : q.refcount < 2 ^ 16) (r : Ret) :
    s.abs.update q.psem q.sem.name (!q.unlinked) q.refcount r = ((s.settle q r).1, (s.settle q r).2.abs) ∧
      WellFormed (s.settle q r).2 := by
  unfold State.settle Table.update
  by_cases hfree : q.refcount = 0 ∧ q.unlinked = true
  · rw [if_pos ⟨hfree.1, by rw [hfree.2]; rfl⟩, if_pos hfree, delete_abs]
    exact ⟨rfl, hw.delete _⟩
  · rw [if_neg (fun h => hfree ⟨h.1, by simpa using h.2⟩), if_neg hfree, set_abs, abs_named hn]
    exact ⟨rfl, hw.set ⟨hlt, fun h => by rw [hn] at h; cases h⟩⟩

theorem close_abs (hw : WellFormed s) (hlegal : s.abs.Legal (.semClose p)) :
    Agree (s.call (.semClose p)) (s.abs.call (.semClose p)) := by
  have hcl : (s.abs.get p).any Entry.closable = true := hlegal
  rw [get_abs] at hcl
  cases hg : s.get p with
  | none =>
    rw [hg] at hcl
    cases hcl
  | some q =>
    rw [hg] at hcl
    have hmem := List.mem_of_find?_eq_some hg
    have hp : q.psem = p := by simpa using List.find?_some hg
    subst hp
    obtain ⟨hlt, hun⟩ := hw.fits q hmem
    cases hn : q.unamed with
    | true =>
      have hnot : ¬((q.refcount + (2 ^ 16 - 1)) % 2 ^ 16 = 0 ∧ q.unlinked = true) := by
        rw [(hun hn).1]
        exact fun h => Bool.false_ne_true h.2
      refine ⟨⟨.ok, []⟩, s.set { q with refcount := (q.refcount + (2 ^ 16 - 1)) % 2 ^ 16 }, ?_, ?_, ?_⟩
      · simp only [State.call, State.semClose, hg, Option.map_some, if_neg hnot]
      · have habs : ∀ n, PosixSem.abs { q with refcount := n } = q.abs := by
          intro n
          rw [abs_static hn]
          exact abs_static hn
        have hsame : (s.set { q with refcount := (q.refcount + (2 ^ 16 - 1)) % 2 ^ 16 }).abs = s.abs :=
          hw.set_abs hmem rfl (habs _)
        rw [hsame]
        simp [Table.call, get_abs, hg, abs_static hn]
      · exact hw.set ⟨Nat.mod_lt _ (by decide), hun⟩
    | false =>
      have hpos : 0 < q.refcount := by simpa [abs_named hn, Entry.closable] using hcl
      have hmod : (q.refcount + (2 ^ 16 - 1)) % 2 ^ 16 = q.refcount - 1 := by omega
      obtain ⟨hupd, hwf⟩ := update_abs (q := { q with refcount := q.refcount - 1 }) hw hn
        (show q.refcount - 1 < 2 ^ 16 by omega) .ok
      refine ⟨(s.settle { q with refcount := q.refcount - 1 } .ok).1, _, ?_, ?_, hwf⟩
      · simp only [State.call, State.semClose, hg, Option.map_some, hmod, State.settle]
      · simp only [Table.call, get_abs, hg, Option.map_some, abs_named hn]
        exact congrArg some hupd

theorem unlink_abs (hw : WellFormed s) (hm : Reads behind name s.posixSemList) :
    Agree (s.call (.semUnlink name behind)) (s.abs.call (.semUnlink name behind)) := by
  have hfind := find_eq hm
  cases hl : s.posixSemList.find? (PosixSem.bound name) with
  | none =>
    refine ⟨⟨.error .ENOENT, []⟩, s, ?_, ?_, hw⟩
    · simp [State.call, State.semUnlink, hfind, hl]
    · simp [Table.call, lookup_abs, hl]
  | some q =>
    have hmem := List.mem_of_find?_eq_some hl
    obtain ⟨hn, -, -⟩ := bound_iff.1 (List.find?_some hl)
    obtain ⟨hupd, hwf⟩ := update_abs (q := { q with unlinked := true }) hw hn (hw.fits q hmem).1 .ok
    refine ⟨(s.settle { q with unlinked := true } .ok).1, _, ?_, ?_, hwf⟩
    · simp only [State.call, State.semUnlink, hfind, hl, State.settle, and_true]
    · simp only [Table.call, lookup_abs, hl, Option.map_some, abs_named hn]
      exact congrArg some hupd

theorem init_abs {value : ℕ} {obj : Addr} (hw : WellFormed s) (hlegal : s.abs.get p = none) (hobj : obj ≠ 0) :
    Agree (s.call (.semInit p value obj)) (s.abs.call (.semInit p value obj)) := by
  refine ⟨⟨.ok, []⟩, _, rfl, ?_, hw.insert ⟨Nat.one_lt_two_pow (by decide), fun _ => ⟨rfl, hobj⟩⟩ hlegal⟩
  simp only [Table.call, if_neg hobj]
  rfl

theorem destroy_abs (hw : WellFormed s) (hlegal : (s.abs.get p).isSome = true) (hm : Meets s (.semDestroy p)) :
    Agree (s.call (.semDestroy p)) (s.abs.call (.semDestroy p)) := by
  cases hg : s.get p with
  | none =>
    rw [get_abs, hg] at hlegal
    cases hlegal
  | some q =>
    have hmem := List.mem_of_find?_eq_some hg
    have hp : q.psem = p := by simpa using List.find?_some hg
    cases hn : q.unamed with
    | true =>
      have hv : q.sem.value = 0 := hm q hmem hp hn
      have hobj : q.sem.addr ≠ 0 := ((hw.fits q hmem).2 hn).2
      refine ⟨⟨.error .EBUSY, []⟩, s, ?_, ?_, hw⟩
      · simp [State.call, State.semDestroy, hg, hn, hv, hobj]
      · simp [Table.call, get_abs, hg, abs_static hn, hv]
    | false =>
      refine ⟨⟨.error .EINVAL, []⟩, s, ?_, ?_, hw⟩
      · simp [State.call, State.semDestroy, hg, hn]
      · simp [Table.call, get_abs, hg, abs_named hn]

/-- **A call does what the table says**, if the code gets it right. -/
theorem call_abs (hw : WellFormed s) (hlegal : s.abs.Legal c) (hm : Meets s c) : Agree (s.call c) (s.abs.call c) := by
  cases c with
  | semOpen name creat excl value mem obj behind =>
    have hnew : ∀ p ∈ mem, s.abs.get p = none := by
      intro p hp
      have hbind := hlegal.2.2
      rw [hp] at hbind
      exact hbind
    exact open_abs hw hnew hm
  | semClose p => exact close_abs hw hlegal
  | semUnlink name behind => exact unlink_abs hw hm
  | semInit p value obj => exact init_abs hw hlegal hm
  | semDestroy p => exact destroy_abs hw hlegal hm

theorem initial : Initial (⟨[]⟩, ⟨[]⟩) := rfl

theorem runs_abs {r : State × Table} (h : Runs (fun r c => Meets r.1 c) r) : r.2 = r.1.abs ∧ WellFormed r.1 := by
  refine Run.Reach.inv (I := fun r => r.2 = r.1.abs ∧ WellFormed r.1) ?_ ?_ h
  · rintro r rfl
    exact ⟨rfl, List.nodup_nil, nofun⟩
  · rintro ⟨s, t⟩ c r' ⟨ht, hw⟩ hm hs
    have ht : t = s.abs := ht
    subst ht
    unfold step at hs
    split at hs
    · rename_i hlegal
      obtain ⟨out, s₁, hc, ht, hw'⟩ := call_abs hw hlegal hm
      simp only [hc, ht] at hs
      cases hs
      exact ⟨rfl, hw'⟩
    · cases hs

/-- **Named semaphores form a reference-counted name table**, in every run of calls that the code gets right. -/
theorem sem_refines (r : State × Table) (h : Runs (fun r c => Meets r.1 c) r) (c : Call) (hlegal : r.2.Legal c)
    (hm : Meets r.1 c) : Refines r c := by
  obtain ⟨habs, hw⟩ := runs_abs h
  rw [habs] at hlegal
  obtain ⟨out, s', hc, ht, -⟩ := call_abs hw hlegal hm
  refine ⟨out, s', s'.abs, hc, ?_⟩
  rw [habs]
  exact ht

/-- A pointer whose bytes read as the name is taken for it. -/
example : posixSemFind (fun _ => []) [97] [⟨8, 1, false, false, ⟨97, [97], 0⟩⟩] =
    some ⟨8, 1, false, false, ⟨97, [97], 0⟩⟩ := by decide

/-- The kernel object of a semaphore called `a` is at address 97, whose bytes are the name: the semaphore is created,
found by another thread, unlinked, and freed with its last reference. -/
theorem sem_refines_one : ∃ r : State × Table, r.2.Legal (.semClose 8) ∧
    (r.1.call (.semClose 8)).map Prod.fst = some ⟨.ok, [8]⟩ ∧ Refines r (.semClose 8) := by
  obtain ⟨r, hr, hP⟩ := Run.Reach.exec_ok step (fun r c => Meets r.1 c) initial
    [.semOpen [97] true true 0 (some 8) 97 fun _ => [], .semOpen [97] false false 0 none 0 fun _ => [],
      .semClose 8, .semUnlink [97] fun _ => []]
    (fun r => decide (r.2.Legal (.semClose 8) ∧ (r.1.call (.semClose 8)).map Prod.fst = some ⟨.ok, [8]⟩))
    (by decide)
  obtain ⟨hlegal, hcall⟩ := of_decide_eq_true hP
  exact ⟨r, hlegal, hcall, sem_refines r hr (.semClose 8) hlegal trivial⟩

/-- **A name that was created is not found, and memory of a user is freed**: `sem_open` of a name that is bound returns
`NULL`, and `sem_destroy` frees the `sem_t` that `sem_init` was given. -/
theorem sem_notFound : ∃ r : State × Table, Runs Run.Any r ∧
    r.2.Legal (.semOpen [97] false false 0 none 0 fun _ => []) ∧
    ¬Refines r (.semOpen [97] false false 0 none 0 fun _ => []) ∧ r.2.Legal (.semDestroy 12) ∧
      ¬Refines r (.semDestroy 12) := by
  obtain ⟨r, hr, hP⟩ := Run.Reach.exec_ok step Run.Any initial
    [.semOpen [97] true true 1 (some 8) 0x20001000 fun _ => [], .semInit 12 1 0x20002000]
    (fun r => decide (r.2.Legal (.semOpen [97] false false 0 none 0 fun _ => []) ∧ r.2.Legal (.semDestroy 12) ∧
      (r.1.call (.semOpen [97] false false 0 none 0 fun _ => [])).map Prod.fst = some ⟨.null .ENOENT, []⟩ ∧
      (r.2.call (.semOpen [97] false false 0 none 0 fun _ => [])).map Prod.fst = some ⟨.sem 8, []⟩ ∧
      (r.1.call (.semDestroy 12)).map Prod.fst = some ⟨.ok, [12]⟩ ∧
      (r.2.call (.semDestroy 12)).map Prod.fst = some ⟨.ok, []⟩))
    (by decide)
  obtain ⟨hopen, hdestroy, hs, ht, hs', ht'⟩ := of_decide_eq_true hP
  refine ⟨r, hr, hopen, ?_, hdestroy, ?_⟩
  · rintro ⟨out, s, t, hc, hd⟩
    rw [hc] at hs
    rw [hd] at ht
    cases hs.symm.trans ht
  · rintro ⟨out, s, t, hc, hd⟩
    rw [hc] at hs'
    rw [hd] at ht'
    cases hs'.symm.trans ht'

end RtThread.NamedSem
