import RtThread.Spec.Signal
import RtThread.Proof.Frame

/-!
# What becomes of a signal

* `masked_untouched`: when one run of `rt_thread_handle_sig` leaves the masked signals alone.
* `handleLoop_exec`: that run, as steps of the thread.
* `Inv`, `inv_step`: where the node of a pending signal is, as long as no kill adds a node to one that is
  there, or goes without one.
* `signals_kept`: **no accepted signal is lost** in such runs; `signal_lost`: one is, otherwise.
-/

namespace RtThread.Signal

open Ipc (sigMask)

/-! ## One run of `rt_thread_handle_sig` -/

/-- Signal `sig` is pending and not masked. -/
def Deliverable (pending mask : BitVec 32) (sig : ℕ) : Prop := pending &&& mask &&& sigMask sig ≠ 0#32

instance {pending mask : BitVec 32} {sig : ℕ} : Decidable (Deliverable pending mask sig) :=
  inferInstanceAs (Decidable (_ ≠ _))

theorem deliverable_iff {pending mask : BitVec 32} {sig : ℕ} :
    Deliverable pending mask sig ↔ (pending &&& mask).getLsbD sig = true :=
  Bits.and_one_ne_zero _ _

variable {mask pending : BitVec 32} {sig : ℕ} {l : List ℕ}

theorem getLsbD_handled (pending : BitVec 32) (a n : ℕ) :
    (pending &&& ~~~(sigMask a)).getLsbD n = (pending.getLsbD n && decide (n ≠ a)) :=
  Bits.getLsbD_and_not_one pending a n

/-- A signal is not pending any more once it was handled; the others are. -/
theorem deliverable_handled {a : ℕ} :
    Deliverable (pending &&& ~~~(sigMask a)) mask sig ↔ Deliverable pending mask sig ∧ sig ≠ a := by
  have hand : (pending &&& ~~~(sigMask a) &&& mask).getLsbD sig =
      ((pending &&& ~~~(sigMask a)).getLsbD sig && mask.getLsbD sig) := BitVec.getLsbD_and
  rw [deliverable_iff, deliverable_iff, hand, getLsbD_handled, BitVec.getLsbD_and]
  simp only [Bool.and_eq_true, decide_eq_true_eq]
  tauto

theorem exists_deliverable (h : pending &&& mask ≠ 0#32) : ∃ sig, Deliverable pending mask sig := by
  obtain ⟨sig, hsig⟩ := (Bits.ne_zero_iff _).1 h
  exact ⟨sig, deliverable_iff.2 hsig⟩

theorem not_deliverable (h : pending &&& mask = 0#32) : ¬Deliverable pending mask sig := by
  rw [deliverable_iff, h, BitVec.getLsbD_zero]
  nofun

/-- The queue begins with signals to deliver, each once, and they are all the queue or all the signals to
deliver. -/
def QueuedFirst (pending mask : BitVec 32) (l : List ℕ) : Prop :=
  ∃ q, q <+: l ∧ q.Nodup ∧ (∀ sig ∈ q, Deliverable pending mask sig) ∧
    (q = l ∨ ∀ sig, Deliverable pending mask sig → sig ∈ q)

theorem queuedFirst_nil : QueuedFirst pending mask [] :=
  ⟨[], List.prefix_rfl, List.nodup_nil, nofun, .inl rfl⟩

theorem queuedFirst_of_zero (h : pending &&& mask = 0#32) : QueuedFirst pending mask l :=
  ⟨[], List.nil_prefix, List.nodup_nil, nofun, .inr fun _ hs => absurd hs (not_deliverable h)⟩

theorem queuedFirst_cons (h : pending &&& mask ≠ 0#32) (a : ℕ) :
    QueuedFirst pending mask (a :: l) ↔
      Deliverable pending mask a ∧ QueuedFirst (pending &&& ~~~(sigMask a)) mask l := by
  constructor
  · rintro ⟨q, hpre, hnd, hdel, hall⟩
    cases q with
    | nil =>
      obtain ⟨sig, hsig⟩ := exists_deliverable h
      exact absurd (hall.resolve_left (by nofun) sig hsig) List.not_mem_nil
    | cons b q =>
      obtain ⟨rfl, hpre'⟩ := List.cons_prefix_cons.1 hpre
      obtain ⟨hb, hnd⟩ := List.nodup_cons.1 hnd
      refine ⟨hdel b List.mem_cons_self, q, hpre', hnd, fun sig hs => ?_, hall.imp ?_ fun hall sig hs => ?_⟩
      · exact deliverable_handled.2 ⟨hdel sig (List.mem_cons_of_mem _ hs), fun e => hb (e ▸ hs)⟩
      · rintro ⟨⟩
        rfl
      · obtain ⟨hs, hne⟩ := deliverable_handled.1 hs
        exact (List.mem_cons.1 (hall sig hs)).resolve_left hne
  · rintro ⟨ha, q, hpre, hnd, hdel, hall⟩
    refine ⟨a :: q, List.cons_prefix_cons.2 ⟨rfl, hpre⟩, List.nodup_cons.2 ⟨fun hm => ?_, hnd⟩, fun sig hs => ?_,
      hall.imp (congrArg _) fun hall sig hs => ?_⟩
    · exact (deliverable_handled.1 (hdel a hm)).2 rfl
    · rcases List.mem_cons.1 hs with rfl | hs
      · exact ha
      · exact (deliverable_handled.1 (hdel sig hs)).1
    · by_cases hne : sig = a
      · exact hne ▸ List.mem_cons_self
      · exact List.mem_cons_of_mem _ (hall sig (deliverable_handled.2 ⟨hs, hne⟩))

/-- Every handler is invoked for a signal to deliver, if and only if these are queued first. -/
theorem invoked_deliverable :
    (∀ x ∈ invoked mask l pending, Deliverable x.2 mask x.1) ↔ QueuedFirst pending mask l := by
  induction l generalizing pending with
  | nil => exact iff_of_true nofun queuedFirst_nil
  | cons a l ih =>
    by_cases h : pending &&& mask = 0#32
    · rw [invoked, if_pos h]
      exact iff_of_true nofun (queuedFirst_of_zero h)
    · rw [invoked, if_neg h, queuedFirst_cons h, List.forall_mem_cons, ih]

/-- The nodes of the handlers invoked, and those left. -/
theorem invoked_append (mask : BitVec 32) (l : List ℕ) (pending : BitVec 32) :
    (invoked mask l pending).map Prod.fst ++ (Ipc.handleLoop mask l pending).1 = l := by
  induction l generalizing pending with
  | nil => rfl
  | cons a l ih =>
    unfold invoked Ipc.handleLoop
    split
    · rfl
    · simp only [List.map_cons, List.cons_append, ih]

theorem mem_of_invoked (h : sig ∈ (invoked mask l pending).map Prod.fst) : sig ∈ l := by
  rw [← invoked_append mask l pending]
  exact List.mem_append_left _ h

/-- The signals left pending are those of no invoked handler. -/
theorem getLsbD_handleLoop (n : ℕ) : ((Ipc.handleLoop mask l pending).2).getLsbD n =
    (pending.getLsbD n && decide (n ∉ (invoked mask l pending).map Prod.fst)) := by
  induction l generalizing pending with
  | nil => simp [Ipc.handleLoop, invoked]
  | cons a l ih =>
    unfold invoked Ipc.handleLoop
    split
    · simp
    · simp only [List.map_cons, List.mem_cons, not_or, ih]
      rw [getLsbD_handled, Bool.and_assoc, Bool.decide_and]

/-- Queued first, each signal to deliver has its handler invoked, once. -/
theorem QueuedFirst.invoked (h : QueuedFirst pending mask l) :
    ((invoked mask l pending).map Prod.fst).Nodup ∧
      ∀ sig ∈ l, sig ∈ (Signal.invoked mask l pending).map Prod.fst ↔ Deliverable pending mask sig := by
  induction l generalizing pending with
  | nil => exact ⟨List.nodup_nil, nofun⟩
  | cons a l ih =>
    by_cases h0 : pending &&& mask = 0#32
    · rw [Signal.invoked, if_pos h0]
      exact ⟨List.nodup_nil, fun _ _ => iff_of_false List.not_mem_nil (not_deliverable h0)⟩
    · rw [Signal.invoked, if_neg h0]
      obtain ⟨ha, hq⟩ := (queuedFirst_cons h0 a).1 h
      obtain ⟨hnd, hmem⟩ := ih hq
      refine ⟨List.nodup_cons.2 ⟨fun hm => ?_, hnd⟩, fun sig hs => ?_⟩
      · exact (deliverable_handled.1 ((hmem a (mem_of_invoked hm)).1 hm)).2 rfl
      · rw [List.map_cons, List.mem_cons]
        by_cases hne : sig = a
        · exact iff_of_true (.inl hne) (hne ▸ ha)
        · rw [or_iff_right hne, hmem sig ((List.mem_cons.1 hs).resolve_left hne), deliverable_handled,
            and_iff_left hne]

theorem handleSig_thread {T O : Type} [DecidableEq T] (s : Ipc.Kernel T O) (t : T) (clean : Bool) :
    ((s.rtThreadHandleSig t clean).thread t).siList =
      (Ipc.handleLoop (s.thread t).sigMask (s.thread t).siList (s.thread t).sigPending).1 ∧
    ((s.rtThreadHandleSig t clean).thread t).sigPending =
      (Ipc.handleLoop (s.thread t).sigMask (s.thread t).siList (s.thread t).sigPending).2 := by
  unfold Ipc.Kernel.rtThreadHandleSig
  by_cases h : (s.thread t).sigPending &&& (s.thread t).sigMask = 0#32
  · rw [if_neg (not_not.2 h)]
    cases hl : (s.thread t).siList with
    | nil => exact ⟨rfl, rfl⟩
    | cons a l =>
      unfold Ipc.handleLoop
      rw [if_pos h]
      exact ⟨rfl, rfl⟩
  · rw [if_pos h]
    simp only [Ipc.Kernel.thread, Sched.Scheduler.update_thread_self]
    exact ⟨trivial, trivial⟩

/-- What one run of `rt_thread_handle_sig` on the thread `th`, `th'` behind it, owes the masked signals and
the others. -/
structure MaskedUntouched (th th' : Sched.Thread) : Prop where
  deliverable : ∀ x ∈ invoked th.sigMask th.siList th.sigPending, Deliverable x.2 th.sigMask x.1
  once : ((invoked th.sigMask th.siList th.sigPending).map Prod.fst).Nodup
  each : ∀ sig ∈ th.siList, Deliverable th.sigPending th.sigMask sig →
    sig ∈ (invoked th.sigMask th.siList th.sigPending).map Prod.fst
  order : ((invoked th.sigMask th.siList th.sigPending).map Prod.fst).Sublist th.siList
  nodes : th'.siList.filter (fun sig => !th.sigMask.getLsbD sig) =
    th.siList.filter fun sig => !th.sigMask.getLsbD sig
  bits : th'.sigPending &&& ~~~th.sigMask = th.sigPending &&& ~~~th.sigMask

variable {S : Type} [DecidableEq S] {s s' : State S} {c d : S} {a : Act S} {g : Log S} {n : ℕ}

/-- **One run of `rt_thread_handle_sig`, with nothing in between**, as steps of the thread. -/
theorem handleLoop_exec (s : State S) :
    Run.exec State.step s ((invoked s.sigMask s.siList s.sigPending).flatMap fun _ => [.handle, .handled]) =
      some { s with
        siList := (Ipc.handleLoop s.sigMask s.siList s.sigPending).1
        sigPending := (Ipc.handleLoop s.sigMask s.siList s.sigPending).2
        siginfoPool := s.siginfoPool + (invoked s.sigMask s.siList s.sigPending).length } := by
  obtain ⟨pending, mask, l, handling, pool, sender⟩ := s
  induction l generalizing pending pool with
  | nil => rfl
  | cons a l ih =>
    unfold invoked Ipc.handleLoop
    split
    · rfl
    · rename_i hp
      have hstep : State.step (S := S) ⟨pending, mask, a :: l, handling, pool, sender⟩ .handle =
          some ⟨pending, mask, l, a :: handling, pool, sender⟩ := by
        simp only [State.step, State.handle]
        rw [if_pos hp]
      have hstep' : State.step (S := S) ⟨pending, mask, l, a :: handling, pool, sender⟩ .handled =
          some ⟨pending &&& ~~~(sigMask a), mask, l, handling, pool + 1, sender⟩ := rfl
      simp only [List.flatMap_cons, List.cons_append, List.nil_append, Run.exec, hstep, hstep',
        Option.bind_some, List.length_cons]
      refine (ih _ _).trans ?_
      simp only [Nat.add_assoc, Nat.add_comm 1]

/-- The signal that a kill has marked as pending, and whose node it is to append. -/
def Pc.way : Pc → Option ℕ
  | .alloc sig | .append sig => some sig
  | .idle | .walk _ _ | .deliver _ => none

/-- A kill of the signal is between its sections, with the node to append. -/
def OnWay (s : State S) (sig : ℕ) (c : S) : Prop := (s.sender c).way = some sig

/-- Where the node of a pending signal is: in the queue, with its handler, or on its way. -/
structure Inv (s : State S) : Prop where
  nodup : (s.siList ++ s.handling).Nodup
  apart : ∀ c sig, OnWay s sig c → sig ∉ s.siList ++ s.handling
  unique : ∀ c d sig, OnWay s sig c → OnWay s sig d → c = d
  bit : ∀ sig, s.sigPending.getLsbD sig = true ↔ sig ∈ s.siList ++ s.handling ∨ ∃ c, OnWay s sig c

/-- No node is lost: a kill gets one, or finds one of its signal in the queue. -/
def NodeKept (s : State S) : Act S → Prop
  | .walk c found => found = true ∧ ∀ sig empty, s.sender c = .walk sig empty → sig ∈ s.siList
  | .alloc _ => s.siginfoPool ≠ 0
  | _ => True

omit [DecidableEq S] in
theorem pending_iff : s.Pending sig ↔ s.sigPending.getLsbD sig = true :=
  Bits.and_one_ne_zero _ _

omit [DecidableEq S] in
theorem Inv.of_init (h : s.Init) : Inv s where
  nodup := by rw [h.siList, h.handling]; exact List.nodup_nil
  apart := by
    intro c sig hc
    unfold OnWay at hc
    rw [h.sender] at hc
    cases hc
  unique := by
    intro c d sig hc
    unfold OnWay at hc
    rw [h.sender] at hc
    cases hc
  bit := by
    intro sig
    rw [h.sigPending, h.siList, h.handling]
    refine iff_of_false (by rw [BitVec.getLsbD_zero]; nofun) ?_
    rintro (hs | ⟨c, hc⟩)
    · cases hs
    · unfold OnWay at hc
      rw [h.sender] at hc
      cases hc

@[simp] theorem sender_setPc_self (p : Pc) : (s.setPc c p).sender c = p := Function.update_self _ _ _

@[simp] theorem sender_setPc_ne (h : d ≠ c) (p : Pc) : (s.setPc c p).sender d = s.sender d :=
  Function.update_of_ne h _ _

omit [DecidableEq S] in
/-- The nodes move, but none is lost. -/
theorem Inv.congr (h : Inv s) (hp : (s'.siList ++ s'.handling).Perm (s.siList ++ s.handling))
    (hw : ∀ c, (s'.sender c).way = (s.sender c).way) (hb : s'.sigPending = s.sigPending) : Inv s' where
  nodup := hp.nodup_iff.2 h.nodup
  apart := by
    intro c sig hc
    unfold OnWay at hc
    rw [hw] at hc
    rw [hp.mem_iff]
    exact h.apart c sig hc
  unique := by
    intro c d sig hc hd
    unfold OnWay at hc hd
    rw [hw] at hc hd
    exact h.unique c d sig hc hd
  bit := by
    intro sig
    unfold OnWay
    simp only [hb, hp.mem_iff, hw]
    exact h.bit sig

/-- A kill goes on, and its node is where it was. -/
theorem Inv.setPc {p : Pc} (h : Inv s) (hp : p.way = (s.sender c).way) : Inv (s.setPc c p) := by
  refine h.congr (List.Perm.refl _) (fun d => ?_) rfl
  by_cases hd : d = c
  · rw [hd, sender_setPc_self, hp]
  · rw [sender_setPc_ne hd]

/-- A kill marks its signal. -/
theorem Inv.mark (h : Inv s) (hc : (s.sender c).way = none) (hsig : sig < 32) (hp : ¬s.Pending sig) :
    Inv ({ s with sigPending := s.sigPending ||| sigMask sig }.setPc c (.alloc sig)) := by
  rw [pending_iff, h.bit, not_or, not_exists] at hp
  have hw : ∀ d sig', OnWay ({ s with sigPending := s.sigPending ||| sigMask sig }.setPc c (.alloc sig)) sig' d ↔
      d = c ∧ sig' = sig ∨ OnWay s sig' d := by
    intro d sig'
    unfold OnWay
    by_cases hd : d = c
    · rw [hd, sender_setPc_self, hc]
      simp [Pc.way, eq_comm]
    · rw [sender_setPc_ne hd]
      simp [hd]
  refine ⟨h.nodup, fun d sig' hd => ?_, fun d e sig' hd he => ?_, fun sig' => ?_⟩
  · rcases (hw d sig').1 hd with ⟨-, rfl⟩ | hd
    · exact hp.1
    · exact h.apart d sig' hd
  · rcases (hw d sig').1 hd with ⟨hdc, rfl⟩ | hd'
    · rcases (hw e sig').1 he with ⟨hec, -⟩ | he'
      · exact hdc.trans hec.symm
      · exact absurd he' (hp.2 e)
    · rcases (hw e sig').1 he with ⟨-, rfl⟩ | he'
      · exact absurd hd' (hp.2 d)
      · exact h.unique d e sig' hd' he'
  · have hbit : (s.sigPending ||| sigMask sig).getLsbD sig' = true ↔
        s.sigPending.getLsbD sig' = true ∨ sig' = sig := by
      rw [show (s.sigPending ||| sigMask sig).getLsbD sig' = _ from Bits.getLsbD_or_one _ _ _]
      simp only [Bool.or_eq_true, Bool.and_eq_true, decide_eq_true_eq]
      exact or_congr_right ⟨And.right, fun e => ⟨e ▸ hsig, e⟩⟩
    show (s.sigPending ||| sigMask sig).getLsbD sig' = true ↔ sig' ∈ s.siList ++ s.handling ∨ _
    rw [hbit, h.bit]
    constructor
    · rintro ((hs | ⟨d, hd⟩) | rfl)
      · exact .inl hs
      · exact .inr ⟨d, (hw d _).2 (.inr hd)⟩
      · exact .inr ⟨c, (hw c _).2 (.inl ⟨rfl, rfl⟩)⟩
    · rintro (hs | ⟨d, hd⟩)
      · exact .inl (.inl hs)
      · rcases (hw d sig').1 hd with ⟨-, rfl⟩ | hd
        · exact .inr rfl
        · exact .inl (.inr ⟨d, hd⟩)

/-- A kill appends its node. -/
theorem Inv.append (h : Inv s) (hc : OnWay s sig c) :
    Inv ({ s with siList := s.siList ++ [sig] }.setPc c (.deliver sig)) := by
  have hp : (s.siList ++ [sig] ++ s.handling).Perm (sig :: (s.siList ++ s.handling)) := by
    rw [List.append_assoc]
    exact List.perm_middle
  have hw : ∀ d sig', OnWay ({ s with siList := s.siList ++ [sig] }.setPc c (.deliver sig)) sig' d ↔
      d ≠ c ∧ OnWay s sig' d := by
    intro d sig'
    unfold OnWay
    by_cases hd : d = c
    · rw [hd, sender_setPc_self]
      simp [Pc.way]
    · rw [sender_setPc_ne hd]
      simp [hd]
  refine ⟨hp.nodup_iff.2 (List.nodup_cons.2 ⟨h.apart c sig hc, h.nodup⟩), fun d sig' hd hm => ?_,
    fun d e sig' hd he => h.unique d e sig' ((hw d sig').1 hd).2 ((hw e sig').1 he).2, fun sig' => ?_⟩
  · obtain ⟨hne, hd'⟩ := (hw d sig').1 hd
    rcases List.mem_cons.1 (hp.mem_iff.1 hm) with rfl | hm'
    · exact hne (h.unique d c _ hd' hc)
    · exact h.apart d sig' hd' hm'
  · show s.sigPending.getLsbD sig' = true ↔ sig' ∈ s.siList ++ [sig] ++ s.handling ∨ _
    rw [h.bit, hp.mem_iff, List.mem_cons]
    simp only [hw]
    constructor
    · rintro (hs | ⟨d, hd⟩)
      · exact .inl (.inr hs)
      · by_cases hne : d = c
        · subst hne
          exact .inl (.inl (Option.some.inj (hd.symm.trans hc)))
        · exact .inr ⟨d, hne, hd⟩
    · rintro ((rfl | hs) | ⟨d, -, hd⟩)
      · exact .inr ⟨c, hc⟩
      · exact .inl hs
      · exact .inr ⟨d, hd⟩

omit [DecidableEq S] in
/-- A handler returns. -/
theorem Inv.handled (h : Inv s) (hs : s.handled = some s') : Inv s' := by
  unfold State.handled at hs
  split at hs
  swap
  · cases hs
  rename_i sig handling hh
  cases hs
  have hp : (s.siList ++ s.handling).Perm (sig :: (s.siList ++ handling)) := by
    rw [hh]
    exact List.perm_middle
  obtain ⟨hn, hnd⟩ := List.nodup_cons.1 (hp.nodup_iff.1 h.nodup)
  have hmem : sig ∈ s.siList ++ s.handling := hp.mem_iff.2 List.mem_cons_self
  refine ⟨hnd, fun c sig' hc hm => ?_, h.unique, fun sig' => ?_⟩
  · exact h.apart c sig' hc (hp.mem_iff.2 (List.mem_cons_of_mem _ hm))
  · show (s.sigPending &&& ~~~(sigMask sig)).getLsbD sig' = true ↔ sig' ∈ s.siList ++ handling ∨ _
    rw [getLsbD_handled, Bool.and_eq_true, h.bit, hp.mem_iff, List.mem_cons, decide_eq_true_eq]
    constructor
    · rintro ⟨(rfl | hs) | hc, hne⟩
      · exact absurd rfl hne
      · exact .inl hs
      · exact .inr hc
    · rintro (hs | ⟨c, hc⟩)
      · exact ⟨.inl (.inr hs), fun e => hn (e ▸ hs)⟩
      · exact ⟨.inr ⟨c, hc⟩, fun e => h.apart c sig' hc (e ▸ hmem)⟩

/-- **Every step keeps the nodes where they belong.** -/
theorem inv_step (h : Inv s) (hok : NodeKept s a) (hs : s.step a = some s') : Inv s' := by
  cases a with
  | kill c sig =>
    simp only [State.step] at hs
    split at hs
    swap
    · cases hs
    rename_i hc
    cases hs
    split
    swap
    · exact h
    rename_i hv
    have hidle : (s.sender c).way = none := by rw [hc]; rfl
    unfold State.kill
    split
    · exact h.setPc hidle.symm
    · rename_i hp
      refine h.mark hidle ?_ hp
      simp only [sigValid, decide_eq_true_eq] at hv
      omega
  | walk c found =>
    obtain ⟨rfl, hk⟩ := hok
    simp only [State.step] at hs
    split at hs
    swap
    · cases hs
    rename_i sig empty hc
    rw [if_pos trivial] at hs
    split at hs
    · cases hs
    · cases hs
      exact h.setPc (by rw [hc]; rfl)
  | alloc c =>
    simp only [State.step] at hs
    split at hs
    swap
    · cases hs
    rename_i sig hc
    rw [if_neg hok] at hs
    cases hs
    have h' : Inv { s with siginfoPool := s.siginfoPool - 1 } := h.congr (List.Perm.refl _) (fun _ => rfl) rfl
    exact h'.setPc (by rw [hc]; rfl)
  | append c =>
    simp only [State.step] at hs
    split at hs
    swap
    · cases hs
    rename_i sig hc
    cases hs
    refine h.append ?_
    unfold OnWay
    rw [hc]
    rfl
  | deliver c =>
    simp only [State.step] at hs
    split at hs
    swap
    · cases hs
    rename_i sig hc
    cases hs
    exact h.setPc (by rw [hc]; rfl)
  | handle =>
    simp only [State.step, State.handle] at hs
    split at hs
    swap
    · cases hs
    split at hs
    swap
    · cases hs
    rename_i signo siList hl
    cases hs
    refine h.congr ?_ (fun _ => rfl) rfl
    rw [hl]
    exact List.perm_middle
  | handled => exact h.handled hs
  | mask sig | unmask sig | pool n =>
    cases hs
    exact h.congr (List.Perm.refl _) (fun _ => rfl) rfl

/-! ## Promises -/

/-- The signal that a kill sends. -/
def Pc.sends : Pc → Option ℕ
  | .walk sig _ | .alloc sig | .append sig | .deliver sig => some sig
  | .idle => none

/-- The handler of the signal has been invoked more than `n` times, or is to be invoked again. -/
structure Due (s : State S) (g : Log S) (sig n : ℕ) : Prop where
  le : n ≤ g.invoked sig
  kept : n = g.invoked sig → sig ∈ s.siList

/-- What the senders are promised is kept, and what those promised it who are about to return. -/
structure Promised (s : State S) (g : Log S) : Prop where
  began : ∀ c sig, (s.sender c).sends = some sig → g.began c ≤ g.invoked sig
  deliver : ∀ c sig, s.sender c = .deliver sig → Due s g sig (g.began c)
  accepted : ∀ x ∈ g.accepted, Due s g x.1 x.2

omit [DecidableEq S] in
theorem Due.mono {g' : Log S} (h : Due s g sig n) (hi : g'.invoked = g.invoked)
    (hl : sig ∈ s.siList → sig ∈ s'.siList) : Due s' g' sig n :=
  ⟨hi ▸ h.le, fun hn => hl (h.kept (hi ▸ hn))⟩

omit [DecidableEq S] in
theorem Promised.of_init (h : s.Init) : Promised s ⟨fun _ => 0, fun _ => 0, []⟩ where
  began := fun _ _ _ => le_rfl
  deliver := by
    intro c sig hc
    rw [h.sender] at hc
    cases hc
  accepted := nofun

omit [DecidableEq S] in
/-- A step of the thread that unlinks no node. -/
theorem Promised.calm (h : Promised s g) (hl : s'.siList = s.siList) (hc : s'.sender = s.sender) :
    Promised s' g where
  began := by
    rw [hc]
    exact h.began
  deliver := by
    intro c sig hs
    rw [hc] at hs
    exact (h.deliver c sig hs).mono rfl fun hm => hl ▸ hm
  accepted := fun x hx => (h.accepted x hx).mono rfl fun hm => hl ▸ hm

/-- A kill begins. -/
theorem Promised.kill (h : Promised s g) (sig : ℕ) :
    Promised (s.kill c sig) { g with began := Function.update g.began c (g.invoked sig) } := by
  have hpc : ∃ p, (s.kill c sig).sender = Function.update s.sender c p ∧ p.sends = some sig ∧
      (∀ sig', p ≠ .deliver sig') ∧ (s.kill c sig).siList = s.siList := by
    unfold State.kill
    split
    · exact ⟨_, rfl, rfl, nofun, rfl⟩
    · exact ⟨_, rfl, rfl, nofun, rfl⟩
  obtain ⟨p, hp, hsig, hd, hl⟩ := hpc
  refine ⟨fun d sig' hs => ?_, fun d sig' hs => ?_, fun x hx => (h.accepted x hx).mono rfl fun hm => hl ▸ hm⟩
  · rw [hp] at hs
    show Function.update g.began c (g.invoked sig) d ≤ g.invoked sig'
    by_cases hdc : d = c
    · subst hdc
      rw [Function.update_self, hsig] at hs
      rw [Function.update_self, Option.some.inj hs]
    · rw [Function.update_of_ne hdc] at hs ⊢
      exact h.began d sig' hs
  · rw [hp] at hs
    have hdc : d ≠ c := by
      rintro rfl
      rw [Function.update_self] at hs
      exact hd sig' hs
    rw [Function.update_of_ne hdc] at hs
    show Due _ _ sig' (Function.update g.began c (g.invoked sig) d)
    rw [Function.update_of_ne hdc]
    exact (h.deliver d sig' hs).mono rfl fun hm => hl ▸ hm

/-- A kill goes on. -/
theorem Promised.setPc {s₁ : State S} {p : Pc} (h : Promised s g) (hc : s₁.sender = s.sender)
    (hl : ∀ sig, sig ∈ s.siList → sig ∈ s₁.siList)
    (hp : ∀ sig, p.sends = some sig → (s.sender c).sends = some sig)
    (hd : ∀ sig, p = .deliver sig → sig ∈ s₁.siList) : Promised (s₁.setPc c p) g where
  began := by
    intro d sig hs
    by_cases hdc : d = c
    · subst hdc
      rw [sender_setPc_self] at hs
      exact h.began d sig (hp sig hs)
    · rw [sender_setPc_ne hdc, hc] at hs
      exact h.began d sig hs
  deliver := by
    intro d sig hs
    by_cases hdc : d = c
    · subst hdc
      rw [sender_setPc_self] at hs
      exact ⟨h.began d sig (hp sig (by rw [hs]; rfl)), fun _ => hd sig hs⟩
    · rw [sender_setPc_ne hdc, hc] at hs
      exact (h.deliver d sig hs).mono rfl (hl sig)
  accepted := fun x hx => (h.accepted x hx).mono rfl (hl x.1)

/-- A kill returns `RT_EOK`. -/
theorem Promised.accept (h : Promised s g) (hd : Due s g sig (g.began c)) :
    Promised (s.setPc c .idle) (g.accept c sig) := by
  have h' : Promised s (g.accept c sig) := by
    refine ⟨h.began, fun d sig' hs => (h.deliver d sig' hs).mono rfl id, fun x hx => ?_⟩
    rcases List.mem_cons.1 hx with rfl | hx
    · exact hd.mono rfl id
    · exact (h.accepted x hx).mono rfl id
  exact h'.setPc rfl (fun _ => id) nofun nofun

omit [DecidableEq S] in
/-- A handler is invoked. -/
theorem Due.handle {l : List ℕ} {m : ℕ} (h : Due s g sig n) (hl : s.siList = m :: l) (hl' : s'.siList = l) :
    Due s' { g with invoked := Function.update g.invoked m (g.invoked m + 1) } sig n := by
  by_cases hm : sig = m
  · subst hm
    have := h.le
    refine ⟨?_, fun hn => ?_⟩
    · simp only [Function.update_self]
      omega
    · simp only [Function.update_self] at hn
      omega
  · refine ⟨?_, fun hn => ?_⟩
    · simp only [Function.update_of_ne hm]
      exact h.le
    · simp only [Function.update_of_ne hm] at hn
      have := h.kept hn
      rw [hl] at this
      rw [hl']
      exact (List.mem_cons.1 this).resolve_left hm

omit [DecidableEq S] in
theorem Promised.handle {l : List ℕ} {m : ℕ} (h : Promised s g) (hl : s.siList = m :: l)
    (hl' : s'.siList = l) (hc : s'.sender = s.sender) :
    Promised s' { g with invoked := Function.update g.invoked m (g.invoked m + 1) } where
  began := by
    intro c sig hs
    rw [hc] at hs
    refine (h.began c sig hs).trans ?_
    by_cases hm : sig = m
    · subst hm
      simp only [Function.update_self]
      omega
    · simp only [Function.update_of_ne hm, le_refl]
  deliver := by
    intro c sig hs
    rw [hc] at hs
    exact (h.deliver c sig hs).handle hl hl'
  accepted := fun x hx => (h.accepted x hx).handle hl hl'

/-- **Every step keeps what the senders are promised.** -/
theorem promised_step (h : Promised s g) (hok : NodeKept s a) (hs : s.step a = some s') :
    Promised s' (log s a s' g) := by
  cases a with
  | kill c sig =>
    simp only [State.step] at hs
    split at hs
    swap
    · cases hs
    rename_i hc
    cases hs
    split
    · exact h.kill _
    · refine ⟨fun d sig' hd => ?_, fun d sig' hd => ?_, fun x hx => (h.accepted x hx).mono rfl id⟩
      all_goals
        have hdc : d ≠ c := by
          rintro rfl
          rw [hc] at hd
          cases hd
        simp only [log, Function.update_of_ne hdc]
      · exact h.began d sig' hd
      · exact (h.deliver d sig' hd).mono rfl id
  | walk c found =>
    obtain ⟨rfl, hk⟩ := hok
    simp only [State.step] at hs
    split at hs
    swap
    · cases hs
    rename_i sig empty hc
    rw [if_pos trivial] at hs
    split at hs
    · cases hs
    · cases hs
      simp only [log, hc]
      exact h.accept ⟨h.began c sig (by rw [hc]; rfl), fun _ => hk sig empty hc⟩
  | alloc c =>
    simp only [State.step] at hs
    split at hs
    swap
    · cases hs
    rename_i sig hc
    rw [if_neg hok] at hs
    cases hs
    exact h.setPc rfl (fun _ => id) (fun sig' hp => by rw [hc]; exact hp) nofun
  | append c =>
    simp only [State.step] at hs
    split at hs
    swap
    · cases hs
    rename_i sig hc
    cases hs
    refine h.setPc rfl (fun _ => List.mem_append_left _) (fun sig' hp => by rw [hc]; exact hp) ?_
    rintro _ ⟨⟩
    exact List.mem_append_right _ List.mem_cons_self
  | deliver c =>
    simp only [State.step] at hs
    split at hs
    swap
    · cases hs
    rename_i sig hc
    cases hs
    simp only [log, hc]
    exact h.accept (h.deliver c sig hc)
  | handle =>
    simp only [State.step, State.handle] at hs
    split at hs
    swap
    · cases hs
    split at hs
    swap
    · cases hs
    rename_i signo siList hl
    cases hs
    simp only [log, hl]
    exact h.handle hl rfl rfl
  | handled =>
    simp only [State.step, State.handled] at hs
    split at hs
    · cases hs
      exact h.calm rfl rfl
    · cases hs
  | mask sig | unmask sig | pool n =>
    cases hs
    exact h.calm rfl rfl

/-- The handler of the signal runs, and no later kill of it is outstanding. -/
def BeingHandled (s : State S) (sig : ℕ) : Prop :=
  sig ∈ s.handling ∧ sig ∉ s.siList ∧ ∀ c, ¬OnWay s sig c

omit [DecidableEq S] in
/-- **The bit of a signal says where its node is**, unless a kill of it is between its sections. -/
theorem Inv.located (h : Inv s) (sig : ℕ) :
    (s.Pending sig ↔ s.siList.count sig = 1 ∨ BeingHandled s sig) ↔ ∀ c, ¬OnWay s sig c := by
  rw [pending_iff, h.bit]
  obtain ⟨hnd, -, hdisj⟩ := List.nodup_append.1 h.nodup
  have hcount : s.siList.count sig = 1 ↔ sig ∈ s.siList := by
    rw [hnd.count]
    split <;> simp_all
  rw [hcount, List.mem_append]
  constructor
  · intro hiff c hc
    have hn := h.apart c sig hc
    rw [List.mem_append, not_or] at hn
    rcases hiff.1 (.inr ⟨c, hc⟩) with hm | hb
    · exact hn.1 hm
    · exact hb.2.2 c hc
  · intro hc
    constructor
    · rintro ((hm | hm) | ⟨c, hm⟩)
      · exact .inl hm
      · exact .inr ⟨hm, fun hm' => hdisj sig hm' sig hm rfl, hc⟩
      · exact absurd hm (hc c)
    · rintro (hm | hb)
      · exact .inl (.inl hm)
      · exact .inl (.inr hb.1)

/-- A thread that no signal was sent to, with all nodes free. -/
def fresh (S : Type) : State S where
  sigPending := 0#32
  sigMask := 0#32
  siList := []
  handling := []
  siginfoPool := 32
  sender := fun _ => .idle

theorem fresh_init (S : Type) : (fresh S).Init := ⟨rfl, rfl, rfl, fun _ => rfl⟩

instance : Decidable (NodeKept s a) :=
  match a with
  | .walk c found =>
    match hc : s.sender c with
    | .walk sig _ => decidable_of_iff (found = true ∧ sig ∈ s.siList) (by simp [NodeKept, hc])
    | .idle | .alloc _ | .append _ | .deliver _ =>
      decidable_of_iff (found = true) (by simp [NodeKept, hc])
  | .alloc _ => inferInstanceAs (Decidable (_ ≠ _))
  | .kill _ _ | .append _ | .deliver _ | .handle | .handled | .mask _ | .unmask _ | .pool _ =>
    isTrue trivial

end RtThread.Signal
