import RtThread.Proof.Live

/-!
# Memory pools count their waiters

* `mpAllocLoop_ok`, `rtMpFree_ok`: the two calls count who waits and who is woken.
* `mp_counts`: **in every run without signals in which no waiter of the pool times out**, the count is
  the number of waiting threads, and a free wakes the first of them. A waiter that times out leaves
  the list and not the count (`mp_miscounts`).
-/

namespace RtThread.Ipc

open Sched Kernel

variable {T O : Type} [DecidableEq T] [DecidableEq O] {cfg : Config} {s s' : Kernel T O} {c t u : T}
  {r : Kernel T O × Next O} {idle : T} {o : O} {a : Act T O}

/-- The count of the pool's waiters is right. -/
def MpCounts (o : O) (s : Kernel T O) : Prop :=
  (s.memPool o).suspendThreadCount = (s.waiting (.memPool o)).length

/-- No waiter of the pool times out. -/
def MpPatient (o : O) (s : Kernel T O) : Act T O → Prop
  | .isr (.timeout t) => t ∉ s.waiting (.memPool o)
  | _ => True

instance : Decidable (MpPatient o s a) := by
  unfold MpPatient
  split <;> infer_instance

/-- `rt_mp_alloc`: its caller waits and is counted, or leaves the waiters alone. -/
theorem mpAllocLoop_ok {time : Time} (hi : s.sched.Inv cfg) (hc : s.sched.current = some c)
    (h : s.mpAllocLoop cfg c o time = some r) (hs : MpCounts o s) : MpCounts o r.1 := by
  unfold mpAllocLoop at h
  simp only at h
  split at h
  · split at h
    · cases h
      exact hs
    · simp only [Option.bind_eq_bind, Option.bind_eq_some_iff] at h
      obtain ⟨⟨e, x⟩, hx, h⟩ := h
      split at h
      swap
      · cases h
      rename_i he
      obtain ⟨x', hx', -, -, -, -, hw, -⟩ := mpSuspend_ok (o := o) (setError_inv hi c .eok) hc hx he
      rw [← hx'] at h
      cases h
      unfold MpCounts at hs ⊢
      rw [show Kernel.waiting (Kernel.setMemPool { s.setError c .eok with sched := x' } o _) (.memPool o) = _ from
        hw (.memPool o), if_pos rfl, List.length_cons]
      simp only [setMemPool, Function.update_self]
      exact congrArg (· + 1) hs
  · simp only [Option.bind_eq_bind, Option.bind_eq_some_iff] at h
    obtain ⟨b, -, h⟩ := h
    split at h
    · cases h
      unfold MpCounts at hs ⊢
      simp only [setMemPool, Function.update_self]
      exact hs
    · cases h

/-- **`rt_mp_free`** wakes the first waiter, if there is one. -/
theorem rtMpFree_ok {block : ℕ} (hi : s.sched.Inv cfg) (h : s.rtMpFree cfg o block = some r)
    (hs : MpCounts o s) : MpCounts o r.1 ∧ ∀ t l, s.waiting (.memPool o) = t :: l →
      r.1.waiting (.memPool o) = l ∧ r.1.sched.stat t ≠ .suspend := by
  unfold rtMpFree at h
  simp only at h
  split at h
  · cases h
  unfold MpCounts at hs ⊢
  split at h
  · simp only [Option.bind_eq_bind, Option.bind_eq_some_iff, Option.pure_def, Option.some.injEq] at h
    obtain ⟨t, ht, ⟨e, x⟩, hx, rfl⟩ := h
    obtain ⟨l, hl⟩ : ∃ l, s.waiting (.memPool o) = t :: l := List.head?_eq_some_iff.1 ht
    have hmem : t ∈ s.sched.list (.wait (.memPool o)) := List.mem_of_mem_head? ht
    have hst : (s.sched.setError t .eok).stat t = .suspend :=
      (Scheduler.update_stat (f := fun th => { th with error := .eok }) (fun _ => rfl) t).trans
        (hi.suspend_of_mem t _ hmem)
    obtain ⟨-, ⟨hne, -⟩ | ⟨-, -, -, hmv⟩⟩ := Scheduler.rtThreadResume_ok (setError_inv hi t .eok) hx
    · exact absurd hst hne
    have hnd : (t :: l).Nodup := hl ▸ hi.nodup _
    have hw : x.list (.wait (.memPool o)) = l := by
      rw [hmv.wait]
      show (s.waiting (.memPool o)).filter (· ≠ t) = l
      rw [hl, List.filter_cons_of_neg (by simp)]
      refine List.filter_eq_self.2 fun u hu => ?_
      have : u ≠ t := fun e => (List.nodup_cons.1 hnd).1 (e ▸ hu)
      simpa using this
    refine ⟨?_, fun t' l' hl' => ?_⟩
    · simp only [setMemPool, Function.update_self]
      show _ = (x.list (.wait (.memPool o))).length
      rw [hw, hs, hl]
      rfl
    · rw [hl] at hl'
      cases hl'
      refine ⟨hw, ?_⟩
      show x.stat t ≠ .suspend
      rw [hmv.stat]
      split <;> nofun
  · rename_i hcount
    cases h
    rw [Nat.not_lt, Nat.le_zero, hs, List.length_eq_zero_iff] at hcount
    refine ⟨?_, fun t l hl => ?_⟩
    · simp only [setMemPool, Function.update_self]
      exact hs
    · rw [hcount] at hl
      cases hl

omit [DecidableEq T] [DecidableEq O] in
theorem MpCounts.of_init (h : s.Init cfg) : MpCounts o s := by
  obtain ⟨start, step, count, head, hmp⟩ := h.memPool o
  obtain ⟨th, -, hs⟩ := h.sched
  unfold MpCounts Kernel.waiting
  rw [hmp, hs]
  rfl

/-- **Every quiet step keeps the count**, unless a waiter of the pool times out. -/
theorem mp_step (hq : Quiet cfg idle s) (ha : a.quiet = true) (hok : MpPatient o s a)
    (hs : s.step cfg idle a = some s') (h : MpCounts o s) : MpCounts o s' := by
  by_cases hW : .memPool o ∈ a.lists s
  swap
  · have hw : s'.waiting (.memPool o) = s.waiting (.memPool o) := by
      refine waiting_step hq ha hs hW ?_
      rintro t ht rfl
      exact hok ht
    unfold MpCounts
    rw [hw, (objects_step hq.toSound hs).memPool o hW]
    exact h
  cases step_cases hq.inv hq.user hs with
  | @call a c e out r hc hh hidle hpc hr hcd =>
    cases a with
    | mpAlloc o' time =>
      obtain rfl : o = o' := by simpa [Act.lists, Call.lists] using hW
      exact mpAllocLoop_ok hq.inv hc hr h
    | mpFree o' block =>
      obtain rfl : o = o' := by simpa [Act.lists, Call.lists] using hW
      exact (rtMpFree_ok hq.inv hr h).1
    | _ => exact absurd hW (by simp [Act.lists, Call.lists])
  | @cont c k elapsed r hc hh hidle hpc hr hf =>
    rw [Act.lists_cont hc hpc] at hW
    cases k with
    | mpAlloc o' time =>
      obtain rfl : o = o' := by simpa [Cont.lists] using hW
      simp only [resume, mpAllocResumed] at hr
      split at hr
      · cases hr
        exact h
      · exact mpAllocLoop_ok hq.inv hc hr h
    | _ => exact absurd hW (by simp [Cont.lists])
  | @isr i c r hc ht hr hf =>
    obtain ⟨l, hl⟩ := handled_eq r
    rw [hl]
    cases i with
    | mpAlloc o' =>
      obtain rfl : o = o' := by simpa [Act.lists, Isr.lists] using hW
      simp only [isr] at hr
      split at hr
      · cases hr
        exact h
      · exact mpAllocLoop_ok hq.inv hc hr h
    | mpFree o' block =>
      obtain rfl : o = o' := by simpa [Act.lists, Isr.lists] using hW
      exact (rtMpFree_ok hq.inv hr h).1
    | _ => exact absurd hW (by simp [Act.lists, Isr.lists])
  | timeout => exact absurd hW (by simp [Act.lists, Isr.lists])
  | isrSchedule hh => exact absurd hW (by simp [Act.lists_isrCont hh, Next.lists, Cont.lists])
  | @isrCont handlers k r hh hr hf =>
    rw [Act.lists_isrCont hh] at hW
    cases k with
    | mpAlloc => cases hr
    | _ => exact absurd hW (by simp [Next.lists, Cont.lists])
  | _ => exact absurd hW (by simp [Act.lists])

/-- **A memory pool counts its waiters**, in every run without signals in which none of them times out,
and a free wakes the first of them. -/
theorem mp_counts {s : Kernel T O} (h : Runs cfg idle (fun s a => a.quiet = true ∧ MpPatient o s a) s) :
    (s.memPool o).suspendThreadCount = (s.waiting (.memPool o)).length ∧
      ∀ block r, s.rtMpFree cfg o block = some r → ∀ t l, s.waiting (.memPool o) = t :: l →
        r.1.waiting (.memPool o) = l ∧ r.1.sched.stat t ≠ .suspend := by
  have hinv : Quiet cfg idle s ∧ MpCounts o s :=
    h.inv (I := fun s => Quiet cfg idle s ∧ MpCounts o s) (fun _ hs => ⟨.of_init hs, .of_init hs⟩)
      fun _ _ _ hI hok hs => ⟨quiet_step hI.1 hok.1 hs, mp_step hI.1 hok.1 hok.2 hs hI.2⟩
  exact ⟨hinv.2, fun block r hr => (rtMpFree_ok hinv.1.inv hr hinv.2).2⟩

/-- Of two blocks both are taken. -/
example : (Run.exec (fun s a => s.step board 255 a) (Kernel.onBoard Unit)
    [.boot 255, .boot 1, .start, .call (.mpAlloc () 0), .call (.mpAlloc () 0)]).map
      (fun s => (s.memPool ()).blockFreeCount) = some 0 := by decide

/-- Two threads wait for a block. -/
theorem mp_counts_two : ∃ s : Kernel ℕ Unit, s.waiting (.memPool ()) = [2, 1] ∧
    ((s.memPool ()).suspendThreadCount = (s.waiting (.memPool ())).length ∧
      ∀ block r, s.rtMpFree board () block = some r → ∀ t l, s.waiting (.memPool ()) = t :: l →
        r.1.waiting (.memPool ()) = l ∧ r.1.sched.stat t ≠ .suspend) := by
  obtain ⟨s, hs, h⟩ := Run.Reach.exec_ok (fun s a => s.step board 255 a)
    (fun s a => a.quiet = true ∧ MpPatient () s a) (Kernel.onBoard_init Unit)
    [.boot 255, .boot 1, .boot 2, .start, .call (.mpAlloc () 0), .call (.mpAlloc () 0),
      .call (.mpAlloc () 10), .schedule, .call (.mpAlloc () 10), .schedule]
    (fun s => decide (s.waiting (.memPool ()) = [2, 1])) (by decide +kernel)
  exact ⟨s, of_decide_eq_true h, mp_counts hs⟩

/-- **A waiter that times out is still counted.** -/
theorem mp_miscounts : ∃ s : Kernel ℕ Unit, Runs board 255 (fun _ a => a.quiet = true) s ∧
    (s.memPool ()).suspendThreadCount ≠ (s.waiting (.memPool ())).length := by
  obtain ⟨s, hs, h⟩ := Run.Reach.exec_ok (fun s a => s.step board 255 a) (fun _ a => a.quiet = true)
    (Kernel.onBoard_init Unit)
    [.boot 255, .boot 1, .start, .call (.mpAlloc () 0), .call (.mpAlloc () 0), .call (.mpAlloc () 10),
      .schedule, .isr (.timeout 1)]
    (fun s => decide ((s.memPool ()).suspendThreadCount ≠ (s.waiting (.memPool ())).length))
    (by decide +kernel)
  exact ⟨s, hs, of_decide_eq_true h⟩

end RtThread.Ipc
