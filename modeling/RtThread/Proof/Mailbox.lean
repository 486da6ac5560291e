import RtThread.Lib.Cyclic
import RtThread.Proof.Waiting

/-!
# Mailboxes

* `mbSendLoop_ok`, `mbRecvLoop_ok` and what is built on them: each section of a call stores or fetches
  one mail, waits, or gives up.
* `mb_fifo`: **a mailbox is a bounded FIFO queue**, in every run.
* `mb_served`: **no wake-up is lost**, in every run without signals: for each mail beside a waiting
  receiver, and each slot beside a waiting sender, another one is on its way.
-/

namespace RtThread.Ipc

open Sched Kernel

variable {T O : Type} [DecidableEq T] [DecidableEq O] {cfg : Config} {s s' : Kernel T O} {c : T}
  {r : Kernel T O × Next O} {idle : T} {o : O} {a : Act T O} {g : MbLog} {value : BitVec 32}

/-- The mailbox with one more mail. -/
def Mailbox.stored (mb : Mailbox) (value : BitVec 32) : Mailbox :=
  { mb with
    msgPool := Function.update mb.msgPool mb.inOffset.toNat value
    inOffset := Mailbox.wrap mb mb.inOffset
    entry := mb.entry + 1 }

/-- The mailbox without its first mail. -/
def Mailbox.fetched (mb : Mailbox) : Mailbox :=
  { mb with
    outOffset := Mailbox.wrap mb mb.outOffset
    entry := mb.entry - 1 }

/-- The section stores a mail, and wakes a receiver if one waits. -/
def MbStored (o : O) (s : Kernel T O) (value : BitVec 32) (r : Kernel T O × Next O) : Prop :=
  (∃ t, Wakes (s.setMailbox o ((s.mailbox o).stored value)) t (.mailbox o) (.ret .eok .none) r) ∨
    s.waiting (.mailbox o) = [] ∧ r = (s.setMailbox o ((s.mailbox o).stored value), .ret .eok .none)

/-- The section fetches a mail, and wakes a sender if one waits. -/
def MbFetched (o : O) (s : Kernel T O) (r : Kernel T O × Next O) : Prop :=
  let out := Out.word ((s.mailbox o).msgPool (s.mailbox o).outOffset.toNat)
  (∃ t, Wakes (s.setMailbox o (s.mailbox o).fetched) t (.mailboxSender o) (.ret .eok out) r) ∨
    s.waiting (.mailboxSender o) = [] ∧ r = (s.setMailbox o (s.mailbox o).fetched, .ret .eok out)

theorem mbStore_ok (hi : s.sched.Inv cfg) (h : s.mbStore cfg o value = some r) : MbStored o s value r := by
  unfold mbStore at h
  simp only at h
  split at h
  · exact .inl (resumeFirst_wakes hi h)
  · rename_i hw
    cases h
    exact .inr ⟨not_not.1 hw, rfl⟩

theorem mbFetch_ok (hi : s.sched.Inv cfg) (h : s.mbFetch cfg o = some r) : MbFetched o s r := by
  unfold mbFetch at h
  simp only at h
  split at h
  · exact .inl (resumeFirst_wakes hi h)
  · rename_i hw
    cases h
    exact .inr ⟨not_not.1 hw, rfl⟩

/-- What a section of `rt_mb_send_wait` does, unless its thread was resumed with an error. -/
def MbSends (o : O) (s : Kernel T O) (c : T) (value : BitVec 32) (r : Kernel T O × Next O) : Prop :=
  ((s.mailbox o).entry = (s.mailbox o).size ∧
    (Quits s c r ∨ ∃ timeout, Waits s c (.mailboxSender o) (.mbSend o value timeout) r)) ∨
  ((s.mailbox o).entry ≠ (s.mailbox o).size ∧ MbStored o s value r)

/-- What a section of `rt_mb_recv` does, unless its thread was resumed with an error. -/
def MbRecvs (o : O) (s : Kernel T O) (c : T) (r : Kernel T O × Next O) : Prop :=
  ((s.mailbox o).entry = 0#16 ∧
    (Quits s c r ∨ ∃ timeout, Waits s c (.mailbox o) (.mbRecv o timeout) r)) ∨
  ((s.mailbox o).entry ≠ 0#16 ∧ MbFetched o s r)

omit [DecidableEq T] [DecidableEq O] in
theorem quits_same {e : Err} (he : e ≠ .eok) : Quits s c (s, .ret e .none) :=
  ⟨⟨e, rfl, he⟩, rfl, fun _ _ => rfl, rfl⟩

omit [DecidableEq O] in
theorem quits_setError {e : Err} (he : e ≠ .eok) (b : Err) : Quits s c (s.setError c b, .ret e .none) :=
  ⟨⟨e, rfl, he⟩, rfl, fun _ hu => Scheduler.update_thread_ne (s := s.sched) hu fun th => { th with error := b },
    rfl⟩

theorem mbSendLoop_ok {timeout : Time} (hi : s.sched.Inv cfg) (hc : s.sched.current = some c)
    (h : s.mbSendLoop cfg c o value timeout = some r) : MbSends o s c value r := by
  unfold mbSendLoop at h
  simp only at h
  split at h
  · rename_i hfull
    split at h
    · cases h
      exact .inl ⟨hfull, .inl (quits_setError (by nofun) _)⟩
    · exact .inl ⟨hfull, .inr ⟨timeout, suspendOn_waits hi hc h⟩⟩
  · rename_i hfull
    exact .inr ⟨hfull, mbStore_ok hi h⟩

theorem rtMbSendWait_ok {timeout : Time} (hi : s.sched.Inv cfg) (hc : s.sched.current = some c)
    (h : s.rtMbSendWait cfg c o value timeout = some r) : MbSends o s c value r := by
  unfold rtMbSendWait at h
  simp only at h
  split at h
  · rename_i hfull
    cases h
    exact .inl ⟨hfull.1, .inl (quits_same (by nofun))⟩
  · exact mbSendLoop_ok hi hc h

/-- `rt_mb_send`. -/
theorem rtMbSend_ok (hi : s.sched.Inv cfg) (h : s.rtMbSendWait cfg c o value 0 = some r) :
    r = (s, .ret .efull .none) ∨ (s.mailbox o).entry ≠ (s.mailbox o).size ∧ MbStored o s value r := by
  simp only [rtMbSendWait, mbSendLoop, and_true] at h
  split at h
  · cases h
    exact .inl rfl
  · rename_i hfull
    exact .inr ⟨hfull, mbStore_ok hi h⟩

theorem mbRecvLoop_ok {timeout : Time} (hi : s.sched.Inv cfg) (hc : s.sched.current = some c)
    (h : s.mbRecvLoop cfg c o timeout = some r) : MbRecvs o s c r := by
  unfold mbRecvLoop at h
  simp only at h
  split at h
  · rename_i hempty
    split at h
    · cases h
      have hq : Quits s c (s.setError c .eok, .ret .etimeout .none) := quits_setError (by nofun) _
      have hq' : Quits (s.setError c .eok) c ((s.setError c .eok).setError c .etimeout, .ret .etimeout .none) :=
        quits_setError (by nofun) _
      exact .inl ⟨hempty, .inl ⟨hq'.next, rfl, fun u hu => (hq'.other u hu).trans (hq.other u hu), rfl⟩⟩
    · exact .inl ⟨hempty, .inr ⟨timeout, suspendOn_waits hi hc h⟩⟩
  · rename_i hempty
    exact .inr ⟨hempty, mbFetch_ok hi h⟩

theorem rtMbRecv_ok {timeout : Time} (hi : s.sched.Inv cfg) (hc : s.sched.current = some c)
    (h : s.rtMbRecv cfg c o timeout = some r) : MbRecvs o s c r := by
  unfold rtMbRecv at h
  split at h
  · rename_i hempty
    cases h
    exact .inl ⟨hempty.1, .inl (quits_same (by nofun))⟩
  · exact mbRecvLoop_ok hi hc h

/-- `rt_mb_recv` in an interrupt handler. -/
theorem rtMbRecv_zero_ok (hi : s.sched.Inv cfg) (h : s.rtMbRecv cfg c o 0 = some r) :
    r = (s, .ret .etimeout .none) ∨ (s.mailbox o).entry ≠ 0#16 ∧ MbFetched o s r := by
  simp only [rtMbRecv, mbRecvLoop, and_true] at h
  split at h
  · cases h
    exact .inl rfl
  · rename_i hempty
    exact .inr ⟨hempty, mbFetch_ok hi h⟩

theorem mbSendResumed_ok {timeout elapsed : Time} (hi : s.sched.Inv cfg) (hc : s.sched.current = some c)
    (h : s.mbSendResumed cfg c o value timeout elapsed = some r) :
    ((s.thread c).error ≠ .eok ∧ r = (s, .ret (s.thread c).error .none)) ∨
      (s.thread c).error = .eok ∧ MbSends o s c value r := by
  unfold mbSendResumed at h
  simp only at h
  split at h
  · rename_i he
    cases h
    exact .inl ⟨he, rfl⟩
  · rename_i he
    exact .inr ⟨not_not.1 he, mbSendLoop_ok hi hc h⟩

theorem mbRecvResumed_ok {timeout elapsed : Time} (hi : s.sched.Inv cfg) (hc : s.sched.current = some c)
    (h : s.mbRecvResumed cfg c o timeout elapsed = some r) :
    ((s.thread c).error ≠ .eok ∧ r = (s, .ret (s.thread c).error .none)) ∨
      (s.thread c).error = .eok ∧ MbRecvs o s c r := by
  unfold mbRecvResumed at h
  simp only at h
  split at h
  · rename_i he
    cases h
    exact .inl ⟨he, rfl⟩
  · rename_i he
    exact .inr ⟨not_not.1 he, mbRecvLoop_ok hi hc h⟩

/-! ## The queue of mails -/

/-- The call of a section is not through. -/
def Unsettled (r : Kernel T O × Next O) : Prop := ∀ out, r.2.result ≠ some (.eok, out)

/-- What a section of `rt_mb_send_wait` does to the mailbox: if it settles the call, it stores the mail. -/
def MbSent (o : O) (s : Kernel T O) (value : BitVec 32) (r : Kernel T O × Next O) : Prop :=
  (r.2.result = some (.eok, .none) ∧ (s.mailbox o).entry ≠ (s.mailbox o).size ∧
    r.1.mailbox o = (s.mailbox o).stored value) ∨ Unsettled r ∧ r.1.mailbox o = s.mailbox o

/-- What a section of `rt_mb_recv` does to the mailbox: if it settles the call, it fetches a mail. -/
def MbReceived (o : O) (s : Kernel T O) (r : Kernel T O × Next O) : Prop :=
  (r.2.result = some (.eok, .word ((s.mailbox o).msgPool (s.mailbox o).outOffset.toNat)) ∧
    (s.mailbox o).entry ≠ 0#16 ∧ r.1.mailbox o = (s.mailbox o).fetched) ∨
  Unsettled r ∧ r.1.mailbox o = s.mailbox o

omit [DecidableEq T] [DecidableEq O] in
theorem unsettled_ret {e : Err} (he : e ≠ .eok) : Unsettled (s, (.ret e .none : Next O)) := by
  intro out ho
  cases ho
  exact he rfl

omit [DecidableEq T] in
theorem MbSends.sent (h : MbSends o s c value r) : MbSent o s value r := by
  rcases h with ⟨-, hq | ⟨timeout, hw⟩⟩ | ⟨hfull, ⟨t, hw⟩ | ⟨-, rfl⟩⟩
  · obtain ⟨e, hn, he⟩ := hq.next
    refine .inr ⟨fun out ho => he ?_, by rw [hq.same]⟩
    rw [hn] at ho
    cases ho
    rfl
  · refine .inr ⟨fun out ho => ?_, by rw [hw.same]⟩
    rw [hw.next] at ho
    cases ho
  · refine .inl ⟨by rw [hw.next]; rfl, hfull, ?_⟩
    rw [hw.same]
    exact Function.update_self _ _ _
  · exact .inl ⟨rfl, hfull, Function.update_self _ _ _⟩

omit [DecidableEq T] in
theorem MbRecvs.received (h : MbRecvs o s c r) : MbReceived o s r := by
  rcases h with ⟨-, hq | ⟨timeout, hw⟩⟩ | ⟨hempty, ⟨t, hw⟩ | ⟨-, rfl⟩⟩
  · obtain ⟨e, hn, he⟩ := hq.next
    refine .inr ⟨fun out ho => he ?_, by rw [hq.same]⟩
    rw [hn] at ho
    cases ho
    rfl
  · refine .inr ⟨fun out ho => ?_, by rw [hw.same]⟩
    rw [hw.next] at ho
    cases ho
  · refine .inl ⟨by rw [hw.next]; rfl, hempty, ?_⟩
    rw [hw.same]
    exact Function.update_self _ _ _
  · exact .inl ⟨rfl, hempty, Function.update_self _ _ _⟩

/-- The mailbox is a queue of what was sent and not received. -/
structure MbFifo (mb : Mailbox) (g : MbLog) : Prop where
  entry : mb.entry ≤ mb.size
  outOffset : mb.size ≠ 0#16 → mb.outOffset < mb.size
  inOffset : mb.inOffset.toNat = (mb.outOffset.toNat + mb.entry.toNat) % mb.size.toNat
  sent : g.sent = g.received ++
    Cyclic.contents mb.msgPool mb.size.toNat mb.outOffset.toNat mb.entry.toNat

omit [DecidableEq T] [DecidableEq O] in
theorem MbFifo.of_init (h : s.Init cfg) : MbFifo (s.mailbox o) ⟨[], []⟩ := by
  obtain ⟨flag, pool, size, hmb⟩ := h.mailbox o
  rw [hmb]
  exact { entry := Nat.zero_le _, outOffset := fun hs => (BitVec.pos_iff_ne_zero _).2 hs,
          inOffset := (Nat.zero_mod _).symm, sent := rfl }

theorem Mailbox.wrap_toNat {mb : Mailbox} {offset : BitVec 16} (h : offset < mb.size) :
    (Mailbox.wrap mb offset).toNat = (offset.toNat + 1) % mb.size.toNat := by
  have h1 : (offset + 1).toNat = offset.toNat + 1 := by bv_omega
  have hlt : offset.toNat < mb.size.toNat := h
  unfold Mailbox.wrap
  split
  · rename_i hw
    have hle : mb.size.toNat ≤ offset.toNat + 1 := h1 ▸ hw
    rw [show offset.toNat + 1 = mb.size.toNat by omega, Nat.mod_self]
    rfl
  · rename_i hw
    have hgt : offset.toNat + 1 < mb.size.toNat := h1 ▸ not_le.1 hw
    rw [h1, Nat.mod_eq_of_lt hgt]

theorem MbFifo.store {mb : Mailbox} (h : MbFifo mb g) (hfull : mb.entry ≠ mb.size) (value : BitVec 32) :
    MbFifo (mb.stored value) { g with sent := g.sent ++ [value] } := by
  have hent := h.entry
  have hlt : mb.entry.toNat < mb.size.toNat := by bv_omega
  have hsize : mb.size ≠ 0#16 := by bv_omega
  have hin : mb.inOffset < mb.size := by
    show mb.inOffset.toNat < mb.size.toNat
    rw [h.inOffset]
    exact Nat.mod_lt _ (by omega)
  have hent' : (mb.entry + 1).toNat = mb.entry.toNat + 1 := by bv_omega
  refine { entry := ?_, outOffset := h.outOffset, inOffset := ?_, sent := ?_ }
  · show (mb.entry + 1).toNat ≤ mb.size.toNat
    omega
  · show (Mailbox.wrap mb mb.inOffset).toNat = (mb.outOffset.toNat + (mb.entry + 1).toNat) % mb.size.toNat
    rw [Mailbox.wrap_toNat hin, h.inOffset, hent', Nat.mod_add_mod, Nat.add_assoc]
  · show g.sent ++ [value] = g.received ++
      Cyclic.contents (Function.update mb.msgPool mb.inOffset.toNat value) mb.size.toNat
        mb.outOffset.toNat (mb.entry + 1).toNat
    rw [h.sent, hent', h.inOffset, Cyclic.contents_push hlt, List.append_assoc]

theorem MbFifo.fetch {mb : Mailbox} (h : MbFifo mb g) (hempty : mb.entry ≠ 0#16) :
    MbFifo mb.fetched { g with received := g.received ++ [mb.msgPool mb.outOffset.toNat] } := by
  have hent := h.entry
  have hsize : mb.size ≠ 0#16 := by bv_omega
  have hout := h.outOffset hsize
  have hlt : mb.outOffset.toNat < mb.size.toNat := hout
  have hent' : mb.entry.toNat = (mb.entry - 1).toNat + 1 := by bv_omega
  refine { entry := ?_, outOffset := fun _ => ?_, inOffset := ?_, sent := ?_ }
  · show (mb.entry - 1).toNat ≤ mb.size.toNat
    have : mb.entry.toNat ≤ mb.size.toNat := hent
    omega
  · show (Mailbox.wrap mb mb.outOffset).toNat < mb.size.toNat
    rw [Mailbox.wrap_toNat hout]
    exact Nat.mod_lt _ (by omega)
  · show mb.inOffset.toNat = ((Mailbox.wrap mb mb.outOffset).toNat + (mb.entry - 1).toNat) % mb.size.toNat
    rw [Mailbox.wrap_toNat hout, h.inOffset, hent', Nat.mod_add_mod]
    congr 1
    omega
  · show g.sent = g.received ++ [mb.msgPool mb.outOffset.toNat] ++
      Cyclic.contents mb.msgPool mb.size.toNat (Mailbox.wrap mb mb.outOffset).toNat (mb.entry - 1).toNat
    rw [Mailbox.wrap_toNat hout, Cyclic.contents_mod, h.sent, hent', Cyclic.contents_cons,
      Nat.mod_eq_of_lt hlt, List.append_assoc]
    rfl

theorem mbLog_unsettled (h : ∀ out, s.outcome cfg a ≠ some (.eok, out)) : mbLog cfg o s a s' g = g := by
  unfold mbLog
  split
  · rename_i out ho
    exact absurd ho (h out)
  · rfl

omit [DecidableEq T] in
theorem mbSends_away (h : .mailbox o ∉ a.lists s) : mbSends o s a = none := by
  unfold mbSends
  split
  · refine if_neg ?_
    rintro rfl
    exact h List.mem_cons_self
  · refine if_neg ?_
    rintro rfl
    exact h List.mem_cons_self
  · rename_i hk
    refine if_neg ?_
    rintro rfl
    rw [lists_of_goesOn hk] at h
    exact h List.mem_cons_self
  · rfl

omit [DecidableEq T] in
theorem mbReceives_away (h : .mailbox o ∉ a.lists s) : mbReceives o s a = false := by
  unfold mbReceives
  split
  · refine decide_eq_false ?_
    rintro rfl
    exact h List.mem_cons_self
  · refine decide_eq_false ?_
    rintro rfl
    exact h List.mem_cons_self
  · rename_i hk
    refine decide_eq_false ?_
    rintro rfl
    rw [lists_of_goesOn hk] at h
    exact h List.mem_cons_self
  · rfl

theorem mbLog_away (h : .mailbox o ∉ a.lists s) : mbLog cfg o s a s' g = g := by
  unfold mbLog
  rw [mbSends_away h, mbReceives_away h]
  split
  · simp
  · rfl

/-- A section of `rt_mb_send_wait`. -/
theorem MbFifo.sends (h : MbFifo (s.mailbox o) g) (hr : MbSent o s value r)
    (hout : s.outcome cfg a = r.2.result) (hs : mbSends o s a = some value) :
    MbFifo (r.1.mailbox o) (mbLog cfg o s a s' g) := by
  rcases hr with ⟨hres, hfull, hmb⟩ | ⟨hres, hmb⟩
  · have hlog : mbLog cfg o s a s' g = { g with sent := g.sent ++ [value] } := by
      unfold mbLog
      simp only [hout, hres, hs, Option.toList_some]
      cases mbReceives o s a <;> rfl
    rw [hlog, hmb]
    exact h.store hfull value
  · rw [mbLog_unsettled (fun out => hout ▸ hres out), hmb]
    exact h

/-- A section of `rt_mb_recv`. -/
theorem MbFifo.recvs (h : MbFifo (s.mailbox o) g) (hr : MbReceived o s r)
    (hout : s.outcome cfg a = r.2.result) (hs : mbSends o s a = none) (hm : mbReceives o s a = true) :
    MbFifo (r.1.mailbox o) (mbLog cfg o s a s' g) := by
  rcases hr with ⟨hres, hempty, hmb⟩ | ⟨hres, hmb⟩
  · have hlog : mbLog cfg o s a s' g =
        { g with received := g.received ++ [(s.mailbox o).msgPool (s.mailbox o).outOffset.toNat] } := by
      unfold mbLog
      simp only [hout, hres, hs, hm, Option.toList_none, List.append_nil]
    rw [hlog, hmb]
    exact h.fetch hempty
  · rw [mbLog_unsettled (fun out => hout ▸ hres out), hmb]
    exact h

/-- **Every step keeps the queue.** -/
theorem mb_step (hq : Sound cfg idle s) (hs : s.step cfg idle a = some s') (h : MbFifo (s.mailbox o) g) :
    MbFifo (s'.mailbox o) (mbLog cfg o s a s' g) := by
  by_cases hW : .mailbox o ∈ a.lists s
  swap
  · rw [mbLog_away hW, (objects_step hq hs).mailbox o hW]
    exact h
  cases step_cases hq.inv hq.user hs with
  | @call a c e out r hc hh hidle hpc hr hcd =>
    have hout : s.outcome cfg (.call a) = r.2.result := by simp [outcome, ran, hc, hr]
    cases a with
    | mbSendWait o' value timeout =>
      obtain rfl : o = o' := by simpa [Act.lists, Call.lists] using hW
      exact h.sends (rtMbSendWait_ok hq.inv hc hr).sent hout (if_pos rfl)
    | mbRecv o' timeout =>
      obtain rfl : o = o' := by simpa [Act.lists, Call.lists] using hW
      exact h.recvs (rtMbRecv_ok hq.inv hc hr).received hout rfl (decide_eq_true rfl)
    | _ => exact absurd hW (by simp [Act.lists, Call.lists])
  | @cont c k elapsed r hc hh hidle hpc hr hf =>
    have hW' := hW
    rw [Act.lists_cont hc hpc] at hW'
    have hout : s.outcome cfg (.cont elapsed) = r.2.result := by simp [outcome, ran, hc, hpc, hr]
    have hk : s.goesOn (.cont elapsed) = some k := by simp [goesOn, hc, hpc]
    cases k with
    | mbSend o' value timeout =>
      obtain rfl : o = o' := by simpa [Cont.lists] using hW'
      have hsends : mbSends o s (.cont elapsed) = some value := by simp [mbSends, hk]
      refine h.sends ?_ hout hsends
      obtain ⟨he, rfl⟩ | ⟨-, hr⟩ := mbSendResumed_ok hq.inv hc hr
      · exact .inr ⟨unsettled_ret he, rfl⟩
      · exact hr.sent
    | mbRecv o' timeout =>
      obtain rfl : o = o' := by simpa [Cont.lists] using hW'
      refine h.recvs ?_ hout (by simp [mbSends, hk]) (by simp [mbReceives, hk])
      obtain ⟨he, rfl⟩ | ⟨-, hr⟩ := mbRecvResumed_ok hq.inv hc hr
      · exact .inr ⟨unsettled_ret he, rfl⟩
      · exact hr.received
    | _ => exact absurd hW' (by simp [Cont.lists])
  | @isr i c r hc ht hr hf =>
    have hout : s.outcome cfg (.isr i) = r.2.result := by simp [outcome, ran, hc, hr]
    obtain ⟨l, hl⟩ := handled_eq r
    rw [hl]
    cases i with
    | mbSend o' value =>
      obtain rfl : o = o' := by simpa [Act.lists, Isr.lists] using hW
      refine h.sends ?_ hout (if_pos rfl)
      obtain rfl | ⟨hfull, hr⟩ := rtMbSend_ok hq.inv hr
      · exact .inr ⟨unsettled_ret (by simp), rfl⟩
      · exact MbSends.sent (c := c) (.inr ⟨hfull, hr⟩)
    | mbRecv o' =>
      obtain rfl : o = o' := by simpa [Act.lists, Isr.lists] using hW
      refine h.recvs ?_ hout rfl (decide_eq_true rfl)
      obtain rfl | ⟨hempty, hr⟩ := rtMbRecv_zero_ok hq.inv hr
      · exact .inr ⟨unsettled_ret (by simp), rfl⟩
      · exact MbRecvs.received (c := c) (.inr ⟨hempty, hr⟩)
    | _ => exact absurd hW (by simp [Act.lists, Isr.lists])
  | timeout => exact absurd hW (by simp [Act.lists, Isr.lists])
  | isrSchedule hh => exact absurd hW (by simp [Act.lists_isrCont hh, Next.lists, Cont.lists])
  | @isrCont handlers k r hh hr hf =>
    rw [Act.lists_isrCont hh] at hW
    cases k with
    | mbSend | mbRecv => cases hr
    | _ => exact absurd hW (by simp [Next.lists, Cont.lists])
  | _ => exact absurd hW (by simp [Act.lists])

/-- **A mailbox is a bounded FIFO queue**: in every run, what was received is what was sent first, and
what is left is in the pool, in its order. -/
theorem mb_fifo {p : Kernel T O × MbLog}
    (h : LogRuns cfg idle (fun _ _ => True) (fun _ => ⟨[], []⟩) (mbLog cfg o) p) :
    p.2.received <+: p.2.sent ∧ (p.1.mailbox o).entry ≤ (p.1.mailbox o).size ∧
      (p.1.mailbox o).inOffset.toNat =
        ((p.1.mailbox o).outOffset.toNat + (p.1.mailbox o).entry.toNat) % (p.1.mailbox o).size.toNat ∧
      p.2.sent = p.2.received ++ Cyclic.contents (p.1.mailbox o).msgPool (p.1.mailbox o).size.toNat
        (p.1.mailbox o).outOffset.toNat (p.1.mailbox o).entry.toNat := by
  have hinv : MbFifo (p.1.mailbox o) p.2 :=
    h.inv_sound (I := fun s g => MbFifo (s.mailbox o) g) (fun _ hs => .of_init hs)
      fun _ _ _ _ hq hg _ hs => mb_step hq hs hg
  exact ⟨⟨_, hinv.sent.symm⟩, hinv.entry, hinv.inOffset, hinv.sent⟩

/-- A receiver waits for the first mail of two, and for the last one as well. -/
theorem mb_fifo_three : ∃ p : Kernel ℕ Unit × MbLog, p.2 = ⟨[7#32, 8#32, 9#32], [7#32]⟩ ∧
    (p.2.received <+: p.2.sent ∧ (p.1.mailbox ()).entry ≤ (p.1.mailbox ()).size ∧
      (p.1.mailbox ()).inOffset.toNat =
        ((p.1.mailbox ()).outOffset.toNat + (p.1.mailbox ()).entry.toNat) % (p.1.mailbox ()).size.toNat ∧
      p.2.sent = p.2.received ++ Cyclic.contents (p.1.mailbox ()).msgPool (p.1.mailbox ()).size.toNat
        (p.1.mailbox ()).outOffset.toNat (p.1.mailbox ()).entry.toNat) := by
  obtain ⟨p, hp, h⟩ := Run.Reach.exec_logged (fun s a => s.step board 255 a) (fun _ => ⟨[], []⟩)
    (mbLog board ()) (fun _ _ => True) (Kernel.onBoard_init Unit)
    [.boot 255, .boot 1, .boot 2, .start, .call (.mbRecv () 10), .schedule,
      .call (.mbSendWait () 7#32 0), .schedule, .switched, .cont 1, .call (.mbSendWait () 8#32 0),
      .isr (.mbSend () 9#32)]
    (fun p => decide (p.2.sent = [7#32, 8#32, 9#32] ∧ p.2.received = [7#32])) (by decide +kernel)
  obtain ⟨hs, hr⟩ := of_decide_eq_true h
  exact ⟨p, by rw [← hs, ← hr], mb_fifo hp⟩

/-! ## No lost wake-up -/

/-- For each mail and each slot beside a waiter, another one was woken and is on its way. -/
structure MbServed (o : O) (s : Kernel T O) : Prop where
  entry : (s.mailbox o).entry ≤ (s.mailbox o).size
  receivers : Served s (.mailbox o) (s.mailbox o).entry.toNat
  senders : Served s (.mailboxSender o) ((s.mailbox o).size.toNat - (s.mailbox o).entry.toNat)

omit [DecidableEq T] [DecidableEq O] in
theorem MbServed.of_init (h : s.Init cfg) : MbServed o s where
  entry := (MbFifo.of_init (o := o) h).entry
  receivers := .of_init h
  senders := .of_init h

omit [DecidableEq T] [DecidableEq O] in
/-- Steps on other objects. -/
theorem MbServed.away (h : MbServed o s) (hmb : s'.mailbox o = s.mailbox o) (hr : Away s s' (.mailbox o))
    (hs : Away s s' (.mailboxSender o)) : MbServed o s' where
  entry := hmb ▸ h.entry
  receivers := hmb ▸ h.receivers.away hr
  senders := hmb ▸ h.senders.away hs

theorem MbStored.served {n m : ℕ} (hr : MbStored o s value r) (hl : Live cfg idle s)
    (hR : Served s (.mailbox o) n) (hS : Served s (.mailboxSender o) m) :
    Served r.1 (.mailbox o) (n + 1) ∧ Served r.1 (.mailboxSender o) m := by
  rcases hr with ⟨t, hw⟩ | ⟨hw, rfl⟩
  · have hl' : Live cfg idle (s.setMailbox o ((s.mailbox o).stored value)) := { hl with }
    have hR' : Served (s.setMailbox o ((s.mailbox o).stored value)) (.mailbox o) n := { hR with }
    have hS' : Served (s.setMailbox o ((s.mailbox o).stored value)) (.mailboxSender o) m := { hS with }
    exact ⟨hR'.wake hl' hw, hS'.wake_other hw nofun⟩
  · exact ⟨.of_nil hw, { hS with }⟩

theorem MbFetched.served {n m : ℕ} (hr : MbFetched o s r) (hl : Live cfg idle s)
    (hR : Served s (.mailbox o) n) (hS : Served s (.mailboxSender o) m) :
    Served r.1 (.mailbox o) n ∧ Served r.1 (.mailboxSender o) (m + 1) := by
  rcases hr with ⟨t, hw⟩ | ⟨hw, rfl⟩
  · have hl' : Live cfg idle (s.setMailbox o (s.mailbox o).fetched) := { hl with }
    have hR' : Served (s.setMailbox o (s.mailbox o).fetched) (.mailbox o) n := { hR with }
    have hS' : Served (s.setMailbox o (s.mailbox o).fetched) (.mailboxSender o) m := { hS with }
    exact ⟨hR'.wake_other hw nofun, hS'.wake hl' hw⟩
  · exact ⟨{ hR with }, .of_nil hw⟩

omit [DecidableEq T] in
theorem MbStored.mailbox (hr : MbStored o s value r) : r.1.mailbox o = (s.mailbox o).stored value := by
  rcases hr with ⟨t, hw⟩ | ⟨-, rfl⟩
  · rw [hw.same]
    exact Function.update_self _ _ _
  · exact Function.update_self _ _ _

omit [DecidableEq T] in
theorem MbFetched.mailbox (hr : MbFetched o s r) : r.1.mailbox o = (s.mailbox o).fetched := by
  rcases hr with ⟨t, hw⟩ | ⟨-, rfl⟩
  · rw [hw.same]
    exact Function.update_self _ _ _
  · exact Function.update_self _ _ _

omit [DecidableEq T] in
theorem MbStored.pc (hr : MbStored o s value r) : r.1.pc = s.pc ∧ r.2.pc.waits = none := by
  rcases hr with ⟨t, hw⟩ | ⟨-, rfl⟩
  · exact ⟨by rw [hw.same]; rfl, by rw [hw.next]; rfl⟩
  · exact ⟨rfl, rfl⟩

omit [DecidableEq T] in
theorem MbFetched.pc (hr : MbFetched o s r) : r.1.pc = s.pc ∧ r.2.pc.waits = none := by
  rcases hr with ⟨t, hw⟩ | ⟨-, rfl⟩
  · exact ⟨by rw [hw.same]; rfl, by rw [hw.next]; rfl⟩
  · exact ⟨rfl, rfl⟩

omit [DecidableEq T] [DecidableEq O] in
/-- A mail is there for a receiver, and a slot has gone. -/
theorem MbServed.store (h : MbServed o s) (hmb : s'.mailbox o = (s.mailbox o).stored value)
    (hfull : (s.mailbox o).entry ≠ (s.mailbox o).size)
    (hR : Served s' (.mailbox o) ((s.mailbox o).entry.toNat + 1))
    (hS : Served s' (.mailboxSender o) ((s.mailbox o).size.toNat - (s.mailbox o).entry.toNat - 1)) :
    MbServed o s' := by
  have hent := h.entry
  have hent' : ((s.mailbox o).entry + 1).toNat = (s.mailbox o).entry.toNat + 1 := by bv_omega
  have hle : ((s.mailbox o).entry + 1).toNat ≤ (s.mailbox o).size.toNat := by bv_omega
  rw [← hent'] at hR
  rw [Nat.sub_sub, ← hent'] at hS
  exact { entry := hmb ▸ hle, receivers := hmb ▸ hR, senders := hmb ▸ hS }

omit [DecidableEq T] [DecidableEq O] in
/-- A mail has gone, and a slot is there for a sender. -/
theorem MbServed.fetch (h : MbServed o s) (hmb : s'.mailbox o = (s.mailbox o).fetched)
    (hempty : (s.mailbox o).entry ≠ 0#16)
    (hR : Served s' (.mailbox o) ((s.mailbox o).entry.toNat - 1))
    (hS : Served s' (.mailboxSender o) ((s.mailbox o).size.toNat - (s.mailbox o).entry.toNat + 1)) :
    MbServed o s' := by
  have hent : (s.mailbox o).entry.toNat ≤ (s.mailbox o).size.toNat := h.entry
  have hent' : ((s.mailbox o).entry - 1).toNat = (s.mailbox o).entry.toNat - 1 := by bv_omega
  have hle : ((s.mailbox o).entry - 1).toNat ≤ (s.mailbox o).size.toNat := by omega
  have hpos : 0 < (s.mailbox o).entry.toNat := by bv_omega
  rw [show (s.mailbox o).size.toNat - (s.mailbox o).entry.toNat + 1 =
    (s.mailbox o).size.toNat - ((s.mailbox o).entry.toNat - 1) by omega, ← hent'] at hS
  rw [← hent'] at hR
  exact { entry := hmb ▸ hle, receivers := hmb ▸ hR, senders := hmb ▸ hS }

omit [DecidableEq T] [DecidableEq O] in
theorem not_granted (h : (s.pc c).waits ≠ some q) : ¬Granted s q c := fun hg => h hg.1

/-- **A section of `rt_mb_send_wait`**: its thread takes a slot, or waits where there is none. -/
theorem MbServed.sends (h : MbServed o s) (hl : Live cfg idle s) (hr : MbSends o s c value r)
    (hpc : (s.pc c).waits ≠ some (.mailbox o)) (hcw : ∀ q, c ∉ s.waiting q) : MbServed o (after c r) := by
  rcases hr with ⟨hfull, hr⟩ | ⟨hfull, hr⟩
  · have hS : Served s (.mailboxSender o) 0 := h.senders.mono (Nat.zero_le _)
    have hno : (s.mailbox o).size.toNat - (s.mailbox o).entry.toNat = 0 := by rw [hfull, Nat.sub_self]
    rcases hr with hq | ⟨timeout, hw⟩
    · have hmb : (after c r).mailbox o = s.mailbox o := by
        show r.1.mailbox o = _
        rw [hq.same]
      have hR' := h.receivers.quit hq (hcw _) (.inr (not_granted hpc))
      have hS' := hS.quit hq (hcw _) (.inl rfl)
      exact { entry := hmb ▸ h.entry, receivers := hmb ▸ hR', senders := hmb ▸ hno ▸ hS' }
    · have hmb : (after c r).mailbox o = s.mailbox o := by
        show r.1.mailbox o = _
        rw [hw.same]
      have hR' := h.receivers.wait_other hw rfl nofun (not_granted hpc) (hcw _)
      have hS' := hS.wait hw
      exact { entry := hmb ▸ h.entry, receivers := hmb ▸ hR', senders := hmb ▸ hno ▸ hS' }
  · obtain ⟨hR, hS⟩ := hr.served hl h.receivers h.senders
    refine h.store hr.mailbox hfull (hR.leave_other hr.pc.2 (not_granted ?_)) (hS.leave hr.pc.2)
    rw [hr.pc.1]
    exact hpc

/-- **A section of `rt_mb_recv`**: its thread takes a mail, or waits where there is none. -/
theorem MbServed.recvs (h : MbServed o s) (hl : Live cfg idle s) (hr : MbRecvs o s c r)
    (hpc : (s.pc c).waits ≠ some (.mailboxSender o)) (hcw : ∀ q, c ∉ s.waiting q) :
    MbServed o (after c r) := by
  rcases hr with ⟨hempty, hr⟩ | ⟨hempty, hr⟩
  · have hR : Served s (.mailbox o) 0 := h.receivers.mono (Nat.zero_le _)
    have hno : (s.mailbox o).entry.toNat = 0 := by rw [hempty]; rfl
    rcases hr with hq | ⟨timeout, hw⟩
    · have hmb : (after c r).mailbox o = s.mailbox o := by
        show r.1.mailbox o = _
        rw [hq.same]
      have hR' := hR.quit hq (hcw _) (.inl rfl)
      have hS' := h.senders.quit hq (hcw _) (.inr (not_granted hpc))
      exact { entry := hmb ▸ h.entry, receivers := hmb ▸ hno ▸ hR', senders := hmb ▸ hS' }
    · have hmb : (after c r).mailbox o = s.mailbox o := by
        show r.1.mailbox o = _
        rw [hw.same]
      have hR' := hR.wait hw
      have hS' := h.senders.wait_other hw rfl nofun (not_granted hpc) (hcw _)
      exact { entry := hmb ▸ h.entry, receivers := hmb ▸ hno ▸ hR', senders := hmb ▸ hS' }
  · obtain ⟨hR, hS⟩ := hr.served hl h.receivers h.senders
    refine h.fetch hr.mailbox hempty (hR.leave hr.pc.2) (hS.leave_other hr.pc.2 (not_granted ?_))
    rw [hr.pc.1]
    exact hpc

omit [DecidableEq T] [DecidableEq O] in
theorem MbServed.of_handlers (h : MbServed o s) (l : List (Next O)) : MbServed o { s with handlers := l } :=
  ⟨h.entry, { h.receivers with }, { h.senders with }⟩

omit [DecidableEq O] in
/-- A thread that was resumed with an error leaves its call. -/
theorem MbServed.giveUp {p : Pc O} (h : MbServed o s) (hp : p.waits = none) (he : (s.thread c).error ≠ .eok) :
    MbServed o (s.setPc c p) where
  entry := h.entry
  receivers := h.receivers.leave_other hp fun hg => he hg.2.2
  senders := h.senders.leave_other hp fun hg => he hg.2.2

/-- **Every quiet step keeps enough threads on their way.** -/
theorem mbServed_step (hq : Quiet cfg idle s) (ha : a.quiet = true) (hs : s.step cfg idle a = some s')
    (h : MbServed o s) : MbServed o s' := by
  by_cases hW : .mailbox o ∈ a.lists s ∨ .mailboxSender o ∈ a.lists s
  swap
  · obtain ⟨hW, hW'⟩ := not_or.1 hW
    exact h.away ((objects_step hq.toSound hs).mailbox o hW) (away_step hq ha hs hW) (away_step hq ha hs hW')
  cases step_cases hq.inv hq.user hs with
  | @call a c e out r hc hh hidle hpc hr hcd =>
    have hcw := hq.not_waiting (hq.running hc (by rw [hpc]; simp))
    cases a with
    | mbSendWait o' value timeout =>
      obtain rfl : o = o' := by simpa [Act.lists, Call.lists] using hW
      exact h.sends hq.toLive (rtMbSendWait_ok hq.inv hc hr) (by rw [hpc]; simp [Pc.waits]) hcw
    | mbRecv o' timeout =>
      obtain rfl : o = o' := by simpa [Act.lists, Call.lists] using hW
      exact h.recvs hq.toLive (rtMbRecv_ok hq.inv hc hr) (by rw [hpc]; simp [Pc.waits]) hcw
    | _ => exact absurd hW (by simp [Act.lists, Call.lists])
  | @cont c k elapsed r hc hh hidle hpc hr hf =>
    rw [Act.lists_cont hc hpc] at hW
    have hcw := hq.not_waiting (hq.running hc (by rw [hpc]; simp))
    cases k with
    | mbSend o' value timeout =>
      obtain rfl : o = o' := by simpa [Cont.lists] using hW
      obtain ⟨he, rfl⟩ | ⟨-, hr⟩ := mbSendResumed_ok hq.inv hc hr
      · exact h.giveUp rfl he
      · exact h.sends hq.toLive hr (by rw [hpc]; simp [Pc.waits, Cont.waits]) hcw
    | mbRecv o' timeout =>
      obtain rfl : o = o' := by simpa [Cont.lists] using hW
      obtain ⟨he, rfl⟩ | ⟨-, hr⟩ := mbRecvResumed_ok hq.inv hc hr
      · exact h.giveUp rfl he
      · exact h.recvs hq.toLive hr (by rw [hpc]; simp [Pc.waits, Cont.waits]) hcw
    | _ => exact absurd hW (by simp [Cont.lists])
  | @isr i c r hc ht hr hf =>
    obtain ⟨l, hl⟩ := handled_eq r
    rw [hl]
    cases i with
    | mbSend o' value =>
      obtain rfl : o = o' := by simpa [Act.lists, Isr.lists] using hW
      obtain rfl | ⟨hfull, hr⟩ := rtMbSend_ok hq.inv hr
      · exact h.of_handlers l
      · obtain ⟨hR, hS⟩ := hr.served hq.toLive h.receivers h.senders
        exact (h.store hr.mailbox hfull hR (hS.mono (Nat.sub_le _ _))).of_handlers l
    | mbRecv o' =>
      obtain rfl : o = o' := by simpa [Act.lists, Isr.lists] using hW
      obtain rfl | ⟨hempty, hr⟩ := rtMbRecv_zero_ok hq.inv hr
      · exact h.of_handlers l
      · obtain ⟨hR, hS⟩ := hr.served hq.toLive h.receivers h.senders
        exact (h.fetch hr.mailbox hempty (hR.mono (Nat.sub_le _ _)) hS).of_handlers l
    | _ => exact absurd hW (by simp [Act.lists, Isr.lists])
  | timeout => exact absurd hW (by simp [Act.lists, Isr.lists])
  | isrSchedule hh => exact absurd hW (by simp [Act.lists_isrCont hh, Next.lists, Cont.lists])
  | @isrCont handlers k r hh hr hf =>
    rw [Act.lists_isrCont hh] at hW
    cases k with
    | mbSend | mbRecv => cases hr
    | _ => exact absurd hW (by simp [Next.lists, Cont.lists])
  | _ => exact absurd hW (by simp [Act.lists])

omit [DecidableEq T] [DecidableEq O] in
theorem Served.min {n : ℕ} (h : Served s q n) : AtLeast (Granted s q) (min n (s.waiting q).length) := by
  by_cases hw : s.waiting q = []
  · rw [hw]
    exact ⟨[], List.nodup_nil, by nofun, Nat.min_le_right _ _⟩
  · exact (h.resumed hw).mono (fun _ => id) (Nat.min_le_left _ _)

/-- **No wake-up of a mailbox is lost**, in every run without signals: beside `k` waiting receivers and
`entry` mails, at least `min entry k` receivers were resumed and have not gone on yet; and so for
senders and slots. -/
theorem mb_served {s : Kernel T O} (h : Runs cfg idle (fun _ a => a.quiet = true) s) (o : O) :
    AtLeast (Granted s (.mailbox o)) (min (s.mailbox o).entry.toNat (s.waiting (.mailbox o)).length) ∧
      AtLeast (Granted s (.mailboxSender o)) (min ((s.mailbox o).size.toNat - (s.mailbox o).entry.toNat)
        (s.waiting (.mailboxSender o)).length) := by
  have hinv : Quiet cfg idle s ∧ MbServed o s :=
    h.inv (I := fun s => Quiet cfg idle s ∧ MbServed o s) (fun _ hs => ⟨.of_init hs, .of_init hs⟩)
      fun _ _ _ hI ha hs => ⟨quiet_step hI.1 ha hs, mbServed_step hI.1 ha hs hI.2⟩
  exact ⟨hinv.2.receivers.min, hinv.2.senders.min⟩

/-- Two receivers wait, and an interrupt handler sends a mail: one of them is on its way to it. -/
theorem mb_served_one : ∃ s : Kernel ℕ Unit,
    ((s.mailbox ()).entry = 1#16 ∧ s.waiting (.mailbox ()) = [2]) ∧
      (AtLeast (Granted s (.mailbox ())) (min (s.mailbox ()).entry.toNat (s.waiting (.mailbox ())).length) ∧
        AtLeast (Granted s (.mailboxSender ())) (min ((s.mailbox ()).size.toNat - (s.mailbox ()).entry.toNat)
          (s.waiting (.mailboxSender ())).length)) := by
  obtain ⟨s, hs, h⟩ := Run.Reach.exec_ok (fun s a => s.step board 255 a) (fun _ a => a.quiet = true)
    (Kernel.onBoard_init Unit)
    [.boot 255, .boot 1, .boot 2, .start, .call (.mbRecv () 10), .schedule, .call (.mbRecv () 10),
      .schedule, .isr (.mbSend () 7#32)]
    (fun s => decide ((s.mailbox ()).entry = 1#16 ∧ s.waiting (.mailbox ()) = [2])) (by decide +kernel)
  exact ⟨s, of_decide_eq_true h, mb_served hs ()⟩

end RtThread.Ipc
