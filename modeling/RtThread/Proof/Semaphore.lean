import RtThread.Proof.Waiting

/-!
# Semaphores conserve their tokens

* `rtSemTake_ok`, `rtSemRelease_ok`: the two calls.
* `SemInv`, `sem_step`: the tokens taken and those left are the initial ones and the released ones.
* `sem_conserved`: **in every run without signals whose releases find room in the 16-bit value**, tokens
  are conserved, and no thread waits beside a token.
-/

namespace RtThread.Ipc

open Sched Kernel

variable {T O : Type} [DecidableEq T] [DecidableEq O] {cfg : Config} {s s' : Kernel T O} {c u : T}
  {r : Kernel T O × Next O} {idle : T} {o : O} {a : Act T O} {g : SemLog T}

theorem rtSemTake_ok {time : Time} (hi : s.sched.Inv cfg) (hc : s.sched.current = some c)
    (h : s.rtSemTake cfg c o time = some r) :
    (0 < (s.sem o).value ∧ r = (s.setSem o { s.sem o with value := (s.sem o).value - 1 }, .ret .eok .none)) ∨
      (s.sem o).value = 0 ∧ (r = (s, .ret .etimeout .none) ∨ time ≠ 0 ∧ Waits s c (.sem o) (.semTake o) r) := by
  unfold rtSemTake at h
  simp only at h
  split at h
  · rename_i hv
    cases h
    exact .inl ⟨hv, rfl⟩
  · rename_i hv
    have hv : (s.sem o).value = 0 := by simpa [BitVec.not_lt] using hv
    split at h
    · cases h
      exact .inr ⟨hv, .inl rfl⟩
    · rename_i ht
      exact .inr ⟨hv, .inr ⟨ht, suspendOn_waits hi hc h⟩⟩

theorem rtSemRelease_ok (hi : s.sched.Inv cfg) (h : s.rtSemRelease cfg o = some r) :
    (∃ t, Wakes s t (.sem o) (.ret .eok .none) r) ∨ s.waiting (.sem o) = [] ∧
      r = (s.setSem o { s.sem o with value := (s.sem o).value + 1 }, .ret .eok .none) := by
  unfold rtSemRelease at h
  simp only at h
  split at h
  · exact .inl (resumeFirst_wakes hi h)
  · rename_i hw
    cases h
    exact .inr ⟨not_not.1 hw, rfl⟩

/-- A release that finds no waiter finds room in the value. -/
def SemRoom (o : O) (s : Kernel T O) : Act T O → Prop
  | .call (.semRelease o') | .isr (.semRelease o') =>
    o' = o → s.waiting (.sem o) = [] → (s.sem o).value ≠ 0xffff#16
  | _ => True

/-- The tokens of semaphore `o` are conserved. -/
structure SemInv (o : O) (s : Kernel T O) (g : SemLog T) : Prop where
  count : g.taken + g.resumed.length + (s.sem o).value.toNat = g.initial + g.released
  free : 0 < (s.sem o).value → s.waiting (.sem o) = []
  resumed : ∀ u, u ∈ g.resumed ↔ Granted s (.sem o) u
  nodup : g.resumed.Nodup
  error : ∀ u ∈ s.waiting (.sem o), (s.thread u).error = .eok

omit [DecidableEq T] [DecidableEq O] in
theorem SemInv.of_init (h : s.Init cfg) : SemInv o s (semStart o s) where
  count := by simp [semStart]
  free := by
    intro _
    obtain ⟨th, -, hs⟩ := h.sched
    unfold Kernel.waiting
    rw [hs]
    rfl
  resumed := by
    intro u
    refine iff_of_false List.not_mem_nil ?_
    rintro ⟨hu, -⟩
    rw [h.pc] at hu
    cases hu
  nodup := List.nodup_nil
  error := by
    intro u hu
    obtain ⟨th, -, hs⟩ := h.sched
    unfold Kernel.waiting at hu
    rw [hs] at hu
    cases hu

omit [DecidableEq O] in
/-- A thread that is not on its way back from the semaphore goes on. -/
theorem SemInv.setPc {p : Pc O} (h : SemInv o s g) (hp : p.waits = none) (hc : (s.pc c).waits = none) :
    SemInv o (s.setPc c p) g where
  count := h.count
  free := h.free
  resumed := by
    intro u
    rw [h.resumed, granted_setPc hp]
    refine ⟨fun hu => ⟨?_, hu⟩, And.right⟩
    rintro rfl
    rw [hu.1] at hc
    cases hc
  nodup := h.nodup
  error := h.error

omit [DecidableEq T] [DecidableEq O] in
/-- Steps on other objects. -/
theorem SemInv.away (h : SemInv o s g) (hsem : s'.sem o = s.sem o) (ha : Away s s' (.sem o)) :
    SemInv o s' g where
  count := by rw [hsem]; exact h.count
  free := by
    intro hv
    rw [hsem] at hv
    rw [ha.waiting, h.free hv]
    rfl
  resumed := fun u => (h.resumed u).trans (ha.granted u).symm
  nodup := h.nodup
  error := by
    intro u hu
    have hu' := hu
    rw [ha.waiting] at hu'
    exact (congrArg Prod.fst (ha.info u hu)).trans (h.error u (List.mem_filter.1 hu').1)

theorem semLog_away (h : .sem o ∉ a.lists s) : semLog cfg o s a s' g = g := by
  cases a with
  | call b =>
    cases b with
    | semTake o' | semRelease o' =>
      refine if_neg ?_
      rintro ⟨rfl, -⟩
      exact h List.mem_cons_self
    | _ => rfl
  | isr i =>
    cases i with
    | semTrytake o' | semRelease o' =>
      refine if_neg ?_
      rintro ⟨rfl, -⟩
      exact h List.mem_cons_self
    | _ => rfl
  | cont elapsed =>
    simp only [semLog]
    split
    · rename_i c hc
      split
      · rename_i o' hpc
        refine if_neg ?_
        rintro rfl
        rw [Act.lists_cont hc hpc] at h
        exact h List.mem_cons_self
      · rfl
    · rfl
  | _ => rfl

omit [DecidableEq T] in
/-- A token is taken from the value. -/
theorem SemInv.take (h : SemInv o s g) (hv : 0 < (s.sem o).value) :
    SemInv o (s.setSem o { s.sem o with value := (s.sem o).value - 1 }) { g with taken := g.taken + 1 } where
  count := by
    have hsem : ((s.sem o).value - 1).toNat + 1 = (s.sem o).value.toNat := by bv_omega
    have := h.count
    simp only [Kernel.setSem, Function.update_self]
    omega
  free := fun _ => h.free hv
  resumed := h.resumed
  nodup := h.nodup
  error := h.error

omit [DecidableEq T] in
/-- A token is released with no thread to take it. -/
theorem SemInv.store (h : SemInv o s g) (hw : s.waiting (.sem o) = []) (hv : (s.sem o).value ≠ 0xffff#16) :
    SemInv o (s.setSem o { s.sem o with value := (s.sem o).value + 1 })
      { g with released := g.released + 1 } where
  count := by
    have hsem : ((s.sem o).value + 1).toNat = (s.sem o).value.toNat + 1 := by bv_omega
    have := h.count
    simp only [Kernel.setSem, Function.update_self]
    omega
  free := fun _ => hw
  resumed := h.resumed
  nodup := h.nodup
  error := h.error

/-- A token is released and handed to the first waiter. -/
theorem SemInv.wake {t : T} {k : Cont O} (hl : Live cfg idle s) (h : SemInv o s g)
    (hw : Wakes s t (.sem o) k r) :
    SemInv o r.1 { g with
      released := g.released + 1
      resumed := (s.waiting (.sem o)).filter (· ∉ r.1.waiting (.sem o)) ++ g.resumed } := by
  obtain ⟨l, hlist, hwait⟩ := hw.list
  have hnd : (t :: l).Nodup := hlist ▸ hl.inv.nodup _
  have hl' : r.1.waiting (.sem o) = l := by rw [hwait, Function.update_self]
  have hmem : t ∈ s.waiting (.sem o) := hlist ▸ List.mem_cons_self
  have hfilter : (s.waiting (.sem o)).filter (· ∉ r.1.waiting (.sem o)) = [t] := by
    rw [hl', hlist, List.filter_cons_of_pos (by simpa using (List.nodup_cons.1 hnd).1)]
    refine congrArg (t :: ·) (List.filter_eq_nil_iff.2 fun u hu => by simpa using hu)
  have hsem : r.1.sem o = s.sem o := by rw [hw.same]
  have hgr : ∀ u, Granted r.1 (.sem o) u ↔ u = t ∨ Granted s (.sem o) u := fun u => by
    rw [hw.granted hl (h.error t hmem)]
    simp
  refine { count := ?_, free := fun hv => ?_, resumed := fun u => ?_, nodup := ?_, error := fun u hu => ?_ }
  · have := h.count
    rw [hfilter, hsem]
    simp only [List.length_append, List.length_singleton]
    omega
  · rw [hsem] at hv
    have := h.free hv
    rw [hlist] at this
    cases this
  · rw [hgr, hfilter, ← h.resumed]
    simp
  · rw [hfilter]
    refine List.nodup_cons.2 ⟨fun ht => ?_, h.nodup⟩
    exact ((h.resumed t).1 ht).2.1 hmem
  · rw [show (r.1.thread u).error = (s.thread u).error from congrArg Prod.fst (hw.info u)]
    refine h.error u ?_
    rw [hl'] at hu
    rw [hlist]
    exact List.mem_cons_of_mem _ hu

/-- The caller waits. -/
theorem SemInv.wait {k : Cont O} (h : SemInv o s g) (hv : (s.sem o).value = 0) (hc : (s.pc c).waits = none)
    (hk : k.waits = some (.sem o)) (hw : Waits s c (.sem o) k r) : SemInv o (after c r) g := by
  obtain ⟨l, hl, hlist⟩ := hw.list
  have hsem : (after c r).sem o = s.sem o := by
    show r.1.sem o = _
    rw [hw.same]
  refine { count := by rw [hsem]; exact h.count, free := fun hv' => ?_, resumed := fun u => ?_,
           nodup := h.nodup, error := fun u hu => ?_ }
  · rw [hsem, hv] at hv'
    exact absurd hv' (by decide)
  · rw [hw.granted hk, h.resumed]
    refine ⟨fun hu => ⟨?_, hu⟩, And.right⟩
    rintro rfl
    rw [hu.1] at hc
    cases hc
  · by_cases huc : u = c
    · rw [huc]
      exact hw.error
    · change u ∈ r.1.waiting _ at hu
      rw [hlist, Function.update_self, hl.mem_iff] at hu
      show (r.1.thread u).error = _
      rw [hw.other u huc]
      exact h.error u ((List.mem_cons.1 hu).resolve_left huc)

/-- `rt_sem_release` returns `RT_EOK`, and its token is in the value or with a waiter. -/
theorem SemInv.release (hl : Live cfg idle s) (h : SemInv o s g)
    (hroom : s.waiting (.sem o) = [] → (s.sem o).value ≠ 0xffff#16) (hr : s.rtSemRelease cfg o = some r) :
    r.2.result = some (.eok, .none) ∧ r.1.pc = s.pc ∧ SemInv o r.1 { g with
      released := g.released + 1
      resumed := (s.waiting (.sem o)).filter (· ∉ r.1.waiting (.sem o)) ++ g.resumed } := by
  obtain ⟨t, hw⟩ | ⟨hw, rfl⟩ := rtSemRelease_ok hl.inv hr
  · exact ⟨by rw [hw.next]; rfl, by rw [hw.same], h.wake hl hw⟩
  · rw [hw]
    exact ⟨rfl, rfl, h.store hw (hroom hw)⟩

omit [DecidableEq O] in
/-- A take returns: of a waiter that a release resumed, or of one that gave up. -/
theorem SemInv.back {e : Err} {out : Out} (h : SemInv o s g) (hpc : s.pc c = .cont (.semTake o))
    (hw : c ∉ s.waiting (.sem o)) :
    SemInv o (s.setPc c (.user e out)) { g with
      taken := if (s.thread c).error = .eok then g.taken + 1 else g.taken
      resumed := g.resumed.erase c } where
  count := by
    have hgr : c ∈ g.resumed ↔ (s.thread c).error = .eok := by
      rw [h.resumed]
      exact ⟨fun hg => hg.2.2, fun he => ⟨by rw [hpc]; rfl, hw, he⟩⟩
    have := h.count
    simp only [show (s.setPc c (.user e out)).sem o = s.sem o from rfl]
    by_cases he : (s.thread c).error = .eok
    · have hmem := hgr.2 he
      have hpos := List.length_pos_of_mem hmem
      rw [if_pos he, List.length_erase_of_mem hmem]
      omega
    · rw [if_neg he, List.erase_of_not_mem fun hm => he (hgr.1 hm)]
      exact this
  free := h.free
  resumed := by
    intro u
    rw [granted_setPc rfl, h.nodup.mem_erase_iff, h.resumed]
  nodup := h.nodup.erase c
  error := h.error

/-- **Every step keeps the tokens.** -/
theorem sem_step (hq : Quiet cfg idle s) (ha : a.quiet = true) (hroom : SemRoom o s a)
    (hs : s.step cfg idle a = some s') (h : SemInv o s g) : SemInv o s' (semLog cfg o s a s' g) := by
  by_cases hW : .sem o ∈ a.lists s
  swap
  · rw [semLog_away hW]
    exact h.away ((objects_step hq.toSound hs).sem o hW) (away_step hq ha hs hW)
  cases step_cases hq.inv hq.user hs with
  | @call a c e out r hc hh hidle hpc hr hcd =>
    have hout : s.outcome cfg (.call a) = r.2.result := by simp [outcome, ran, hc, hr]
    have hpcw : (s.pc c).waits = none := by rw [hpc]; rfl
    cases a with
    | semTake o' time =>
      obtain rfl : o = o' := by simpa [Act.lists, Call.lists] using hW
      simp only [semLog, hout, true_and]
      obtain ⟨hv, rfl⟩ | ⟨hv, rfl | ⟨-, hw⟩⟩ := rtSemTake_ok hq.inv hc hr
      · exact (h.take hv).setPc rfl hpcw
      · exact h.setPc rfl hpcw
      · rw [hw.next, if_neg (by simp [Next.result])]
        exact h.wait hv hpcw rfl hw
    | semRelease o' =>
      obtain rfl : o = o' := by simpa [Act.lists, Call.lists] using hW
      obtain ⟨hres, hpc', h'⟩ := h.release hq.toLive (hroom rfl) hr
      simp only [semLog, hout, hres, and_self, if_true]
      exact h'.setPc (Next.waits_of_result hres) (by rw [hpc']; exact hpcw)
    | _ => exact absurd hW (by simp [Act.lists, Call.lists])
  | @cont c k elapsed r hc hh hidle hpc hr hf =>
    have hW' := hW
    rw [Act.lists_cont hc hpc] at hW'
    cases k with
    | semTake o' =>
      obtain rfl : o = o' := by simpa [Cont.lists] using hW'
      have hrun := hq.running hc (by rw [hpc]; simp)
      have hout : s.outcome cfg (.cont elapsed) = r.2.result := by simp [outcome, ran, hc, hpc, hr]
      cases hr
      simp only [semLog, hc, hpc, if_true, hout, Next.result, Option.some.injEq, Prod.mk.injEq, and_true]
      exact h.back hpc (hq.not_waiting hrun _)
    | _ => exact absurd hW' (by simp [Cont.lists])
  | @isr i c r hc ht hr hf =>
    have hout : s.outcome cfg (.isr i) = r.2.result := by simp [outcome, ran, hc, hr]
    cases i with
    | semTrytake o' =>
      obtain rfl : o = o' := by simpa [Act.lists, Isr.lists] using hW
      simp only [semLog, hout, true_and]
      obtain ⟨hv, rfl⟩ | ⟨hv, rfl | ⟨ht, -⟩⟩ := rtSemTake_ok hq.inv hc hr
      · exact h.take hv
      · exact h
      · exact absurd rfl ht
    | semRelease o' =>
      obtain rfl : o = o' := by simpa [Act.lists, Isr.lists] using hW
      obtain ⟨hres, -, h'⟩ := h.release hq.toLive (hroom rfl) hr
      obtain ⟨l, hl⟩ := handled_eq r
      simp only [semLog, hout, hres, and_self, if_true, hl]
      exact { h' with }
    | _ => exact absurd hW (by simp [Act.lists, Isr.lists])
  | timeout => exact absurd hW (by simp [Act.lists, Isr.lists])
  | isrSchedule hh => exact absurd hW (by simp [Act.lists_isrCont hh, Next.lists, Cont.lists])
  | @isrCont handlers k r hh hr hf =>
    rw [Act.lists_isrCont hh] at hW
    cases k with
    | semTake => cases hr
    | _ => exact absurd hW (by simp [Next.lists, Cont.lists])
  | _ => exact absurd hW (by simp [Act.lists])

/-- **A semaphore conserves its tokens**: in every run without signals in which each release that finds
no waiter finds room in the value. -/
theorem sem_conserved {p : Kernel T O × SemLog T}
    (h : LogRuns cfg idle (fun s a => a.quiet = true ∧ SemRoom o s a) (semStart o) (semLog cfg o) p) :
    p.2.taken + p.2.resumed.length + (p.1.sem o).value.toNat = p.2.initial + p.2.released ∧
      (0 < (p.1.sem o).value → p.1.waiting (.sem o) = []) := by
  have hinv : SemInv o p.1 p.2 := h.inv (fun _ _ hok => hok.1) (fun _ hs => .of_init hs)
    fun _ _ _ _ hq hg hok hs => sem_step hq hok.1 hok.2 hs hg
  exact ⟨hinv.count, hinv.free⟩

def semRoom (o : O) (s : Kernel T O) : Act T O → Bool
  | .call (.semRelease o') | .isr (.semRelease o') =>
    o' = o → s.waiting (.sem o) = [] → (s.sem o).value ≠ 0xffff#16
  | _ => true

omit [DecidableEq T] in
theorem semRoom_iff : semRoom o s a = true ↔ SemRoom o s a := by
  unfold semRoom SemRoom
  split
  · exact decide_eq_true_iff
  · exact decide_eq_true_iff
  · exact iff_of_true rfl trivial

instance : Decidable (SemRoom o s a) := decidable_of_iff _ semRoom_iff

/-- A thread waits for a token, and another one and an interrupt handler release one each. -/
theorem sem_conserved_two : ∃ p : Kernel ℕ Unit × SemLog ℕ,
    (p.2.released = 2 ∧ p.2.resumed = [1]) ∧
      (p.2.taken + p.2.resumed.length + (p.1.sem ()).value.toNat = p.2.initial + p.2.released ∧
        (0 < (p.1.sem ()).value → p.1.waiting (.sem ()) = [])) := by
  obtain ⟨p, hp, h⟩ := Run.Reach.exec_logged (fun s a => s.step board 255 a) (semStart ())
    (semLog board ()) (fun s a => a.quiet = true ∧ SemRoom () s a)
    (Kernel.onBoard_init Unit)
    [.boot 255, .boot 1, .boot 2, .start, .call (.semTake () 10), .schedule, .call (.semRelease ()),
      .isr (.semRelease ())]
    (fun p => decide (p.2.released = 2 ∧ p.2.resumed = [1])) (by decide)
  exact ⟨p, of_decide_eq_true h, sem_conserved hp⟩

/-- **A release is lost** where the value is full: it wraps to 0. -/
theorem sem_wraps : ∃ p : Kernel ℕ Unit × SemLog ℕ,
    LogRuns board 255 (fun _ a => a.quiet = true) (semStart ()) (semLog board ()) p ∧
      p.2.taken + p.2.resumed.length + (p.1.sem ()).value.toNat ≠ p.2.initial + p.2.released := by
  have h0 : ((Kernel.onBoard Unit).setSem () { flag := .fifo, value := 0xffff#16 }).Init board :=
    { Kernel.onBoard_init Unit with }
  obtain ⟨p, hp, h⟩ := Run.Reach.exec_logged (fun s a => s.step board 255 a) (semStart ())
    (semLog board ()) (fun _ a => a.quiet = true) h0
    [.boot 255, .boot 1, .start, .call (.semRelease ())]
    (fun p => decide
      (p.2.taken + p.2.resumed.length + (p.1.sem ()).value.toNat ≠ p.2.initial + p.2.released))
    (by decide)
  exact ⟨p, hp, of_decide_eq_true h⟩

end RtThread.Ipc
