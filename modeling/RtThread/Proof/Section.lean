import RtThread.Spec.Kernel
import RtThread.Proof.Schedule

/-!
# Sections of calls

What a section does to the scheduler's data, as seen by the rest of the system. `Touch x x' c own W`
is the frame of everything done outside of signals while `c` is current, by a call on an object whose
wait lists are `W`: it may suspend `c` and wake others, and only a mutex moves priorities.

* `Touch.edit`, `Touch.wake`, `Touch.suspendSelf`, `Touch.makeReady`, `Touch.changePriority`: the moves
  sections are made of.
* `Section`: a section is a touch, leaves other objects alone, leaves all thread states alone unless it
  ends in `rt_schedule`, and has `c` wait in the list its end says.
* `call_section`, `resume_section`: every call outside of signals runs in such sections.
-/

namespace RtThread.Ipc

open Sched

variable {T O : Type} [DecidableEq T] [DecidableEq O] {cfg : Config}

/-- The wait lists of the object a call is on. -/
def Call.lists : Call T O → List (WaitList O)
  | .semTake o _ | .semRelease o => [.sem o]
  | .mutexTake o _ | .mutexRelease o => [.mutex o]
  | .eventSend o _ | .eventRecv o _ _ _ => [.event o]
  | .mbSendWait o _ _ | .mbRecv o _ => [.mailbox o, .mailboxSender o]
  | .mqSend o _ | .mqUrgent o _ | .mqRecv o _ _ | .mqReset o => [.messageQueue o]
  | .mpAlloc o _ | .mpFree o _ => [.memPool o]
  | _ => []

/-- The wait lists of the object an interrupt handler works on. -/
def Isr.lists : Isr T O → List (WaitList O)
  | .semTrytake o | .semRelease o => [.sem o]
  | .eventSend o _ => [.event o]
  | .mbSend o _ | .mbRecv o => [.mailbox o, .mailboxSender o]
  | .mqSend o _ | .mqUrgent o _ | .mqRecv o _ => [.messageQueue o]
  | .mpAlloc o | .mpFree o _ => [.memPool o]
  | .timeout _ | .kill _ _ | .killAlloc | .killAppend _ _ | .killDeliver _ => []

/-- The call is a section of `rt_thread_kill`. -/
def Call.kills : Call T O → Bool
  | .kill _ _ | .killAlloc | .killAppend _ _ | .killDeliver _ => true
  | _ => false

/-- The interrupt handler runs a section of `rt_thread_kill`. -/
def Isr.kills : Isr T O → Bool
  | .kill _ _ | .killAlloc | .killAppend _ _ | .killDeliver _ => true
  | _ => false

/-- The wait lists of the object of a call that goes on. -/
def Cont.lists : Cont O → List (WaitList O)
  | .semTake o => [.sem o]
  | .mutexTake o _ | .mutexOwn o | .mutexWait o _ => [.mutex o]
  | .eventRecv o => [.event o]
  | .mbSend o _ _ | .mbRecv o _ => [.mailbox o, .mailboxSender o]
  | .mqLink o _ _ _ | .mqRecv o _ _ | .mqFree o _ _ => [.messageQueue o]
  | .mpAlloc o _ => [.memPool o]
  | .ret _ _ | .sleep => []

def Next.lists : Next O → List (WaitList O)
  | .ret _ _ => []
  | .schedule k | .run k => k.lists

omit [DecidableEq O] in
theorem Cont.waits_mem {k : Cont O} {q : WaitList O} (h : k.waits = some q) : q ∈ k.lists := by
  cases k <;> simp_all [Cont.waits, Cont.lists]

/-- The signal state of a thread. -/
def signals (th : Thread) : BitVec 32 × BitVec 32 × List ℕ × Bool :=
  (th.sigPending, th.sigMask, th.siList, th.sigRet)

/-- What a waiting call keeps in the control block of its thread: the error code and the condition
on an event. -/
def waitInfo (th : Thread) : Err × BitVec 32 × BitVec 8 := (th.error, th.eventSet, th.eventInfo)

/-- What a section does outside of signals while `c` is current, on an object with the wait lists
`W`. `own` says that it is `c` that runs it, and not an interrupt handler. -/
structure Touch (cfg : Config) (x x' : Scheduler T (WaitList O)) (c : T) (own : Prop)
    (W : List (WaitList O)) : Prop where
  inv : x'.Inv cfg
  current : x'.current = x.current
  lockNest : x'.lockNest = x.lockNest
  priority : ∀ u, x'.priority u = x.priority u ∨
    x.stat u = .init ∧ x'.priority u = (x'.thread u).initPriority ∨ ∃ o, .mutex o ∈ W
  initPriority : ∀ u, (x'.thread u).initPriority = (x.thread u).initPriority
  wait : ∀ q, q ∉ W → x'.list (.wait q) = x.list (.wait q)
  /-- who waited is woken or waits on -/
  stay : ∀ u, (u = c → ¬own) → ∀ q, u ∈ x'.list (.wait q) ↔ u ∈ x.list (.wait q) ∧ x'.stat u = .suspend
  signals : ∀ u, signals (x'.thread u) = signals (x.thread u)
  info : ∀ u, waitInfo (x'.thread u) = waitInfo (x.thread u) ∨ u = c ∧ own ∨
    ∃ q ∈ W, u ∈ x.list (.wait q)
  stat : ∀ u, x'.stat u = x.stat u ∨ x'.stat u = .ready ∨ x'.stat u = .running ∨
    x'.stat u = .suspend ∧ u = c ∧ own

namespace Touch

variable {x x' x'' : Scheduler T (WaitList O)} {c : T} {own : Prop} {W : List (WaitList O)}

omit [DecidableEq T] [DecidableEq O] in
theorem suspended (h : x.Inv cfg) (u : T) (q : WaitList O) :
    u ∈ x.list (.wait q) ↔ u ∈ x.list (.wait q) ∧ x.stat u = .suspend :=
  ⟨fun hu => ⟨hu, h.suspend_of_mem u q hu⟩, And.left⟩

omit [DecidableEq T] [DecidableEq O] in
theorem refl (h : x.Inv cfg) : Touch cfg x x c own W :=
  ⟨h, rfl, rfl, fun _ => .inl rfl, fun _ => rfl, fun _ _ => rfl, fun u _ => suspended h u, fun _ => rfl,
    fun _ => .inl rfl, fun _ => .inl rfl⟩

omit [DecidableEq T] [DecidableEq O] in
theorem mem (h : Touch cfg x x' c own W) {u : T} {q : WaitList O} (hu : u ∈ x'.list (.wait q)) :
    u ∈ x.list (.wait q) ∨ u = c ∧ own := by
  by_cases hc : u = c ∧ own
  · exact .inr hc
  · exact .inl ((h.stay u (fun e ho => hc ⟨e, ho⟩) q).1 hu).1

omit [DecidableEq T] [DecidableEq O] in
theorem init_of_init (h : Touch cfg x x' c own W) {u : T} (hu : x'.stat u = .init) :
    x.stat u = .init := by
  rcases h.stat u with h | h | h | ⟨h, -⟩ <;> rw [hu] at h
  · exact h.symm
  all_goals cases h

omit [DecidableEq T] [DecidableEq O] in
theorem trans (h : Touch cfg x x' c own W) (h' : Touch cfg x' x'' c own W) :
    Touch cfg x x'' c own W where
  inv := h'.inv
  current := h'.current.trans h.current
  lockNest := h'.lockNest.trans h.lockNest
  priority := by
    intro u
    rcases h'.priority u with h₂ | ⟨hi, h₂⟩ | h₂
    · rcases h.priority u with h₁ | ⟨hi, h₁⟩ | h₁
      · exact .inl (h₂.trans h₁)
      · exact .inr (.inl ⟨hi, by rw [h₂, h₁, h'.initPriority]⟩)
      · exact .inr (.inr h₁)
    · exact .inr (.inl ⟨h.init_of_init hi, h₂⟩)
    · exact .inr (.inr h₂)
  initPriority := fun u => (h'.initPriority u).trans (h.initPriority u)
  wait := fun q hq => (h'.wait q hq).trans (h.wait q hq)
  stay := by
    intro u hu q
    rw [h'.stay u hu q, h.stay u hu q, and_assoc, and_congr_right_iff]
    intro _
    refine ⟨And.right, fun hs => ⟨?_, hs⟩⟩
    rcases h'.stat u with h₂ | h₂ | h₂ | ⟨-, h₂, ho⟩
    · exact h₂ ▸ hs
    · rw [hs] at h₂
      cases h₂
    · rw [hs] at h₂
      cases h₂
    · exact absurd ho (hu h₂)
  signals := fun u => (h'.signals u).trans (h.signals u)
  info := by
    intro u
    rcases h'.info u with h₂ | h₂ | ⟨q, hq, h₂⟩
    · rw [h₂]
      exact h.info u
    · exact .inr (.inl h₂)
    · rcases h.mem h₂ with h₁ | h₁
      · exact .inr (.inr ⟨q, hq, h₁⟩)
      · exact .inr (.inl h₁)
  stat := by
    intro u
    rcases h'.stat u with h₂ | h₂
    · rw [h₂]
      exact h.stat u
    · exact .inr h₂

omit [DecidableEq T] [DecidableEq O] in
/-- What an interrupt handler may do, a thread may do. -/
theorem weaken (h : Touch cfg x x' c False W) : Touch cfg x x' c own W :=
  { h with
    stay := fun u _ => h.stay u fun _ => id
    info := fun u => (h.info u).imp_right fun hu => hu.imp_left fun hu => hu.2.elim
    stat := fun u => (h.stat u).imp_right fun hu => hu.imp_right fun hu => hu.imp_right fun hu => hu.2.2.elim }

omit [DecidableEq O] in
/-- An edit of a control block where the scheduler does not look. -/
theorem edit (h : x.Inv cfg) {t : T} {f : Thread → Thread}
    (hf : ∀ th, (f th).stat = th.stat ∧ (f th).currentPriority = th.currentPriority ∧
      (f th).initPriority = th.initPriority ∧ (f th).number = th.number ∧
      (f th).numberMask = th.numberMask ∧ (f th).highMask = th.highMask ∧
      Ipc.signals (f th) = Ipc.signals th)
    (he : (t = c ∧ own ∨ ∃ q ∈ W, t ∈ x.list (.wait q)) ∨ ∀ th, waitInfo (f th) = waitInfo th) :
    Touch cfg x (x.update t f) c own W := by
  have hst : ∀ u, (x.update t f).stat u = x.stat u := Scheduler.update_stat fun th => (hf th).1
  refine { inv := h.edit fun th => ⟨(hf th).1, (hf th).2.1, (hf th).2.2.2.1, (hf th).2.2.2.2.1,
             (hf th).2.2.2.2.2.1⟩,
           current := rfl, lockNest := rfl,
           priority := fun u => .inl (Scheduler.update_field (fun th => (hf th).2.1) u),
           initPriority := Scheduler.update_field fun th => (hf th).2.2.1, wait := fun _ _ => rfl,
           stay := fun u _ q => by rw [hst]; exact suspended h u q,
           signals := Scheduler.update_field fun th => (hf th).2.2.2.2.2.2, info := fun u => ?_,
           stat := fun u => .inl (hst u) }
  rcases he with he | he
  · by_cases hu : u = t
    · exact .inr (hu ▸ he)
    · exact .inl (by rw [Scheduler.update_thread_ne hu])
  · exact .inl (Scheduler.update_field he u)

/-- Waking a thread that waits in no other list. -/
theorem wake (h : x.Inv cfg) {t : T} {e : Err} (ht : ∀ q, q ∉ W → t ∉ x.list (.wait q))
    (hr : x.rtThreadResume cfg t = some (e, x')) : Touch cfg x x' c own W := by
  obtain ⟨hi, ⟨-, -, rfl⟩ | ⟨hst, -, hself, hmv⟩⟩ := Scheduler.rtThreadResume_ok h hr
  · exact refl h
  have hfield : ∀ {α : Type} (g : Thread → α),
      (g { x.thread t with stat := x'.stat t, timerActive := false } = g (x.thread t)) →
      ∀ u, g (x'.thread u) = g (x.thread u) := by
    intro α g hg u
    by_cases hu : u = t
    · rw [hu, hself, hg]
    · rw [hmv.other u hu]
  refine { inv := hi, current := hmv.current, lockNest := hmv.lockNest,
           priority := fun u => .inl (hfield Thread.currentPriority rfl u),
           initPriority := hfield _ rfl, wait := fun q hq => ?_, stay := fun u _ q => ?_,
           signals := hfield _ rfl, info := fun u => .inl (hfield _ rfl u), stat := fun u => ?_ }
  · rw [hmv.wait, List.filter_eq_self]
    intro u hu
    have : u ≠ t := fun e => ht q hq (e ▸ hu)
    simpa using this
  · rw [hmv.wait, List.mem_filter, and_congr_right_iff]
    intro hu
    by_cases hut : u = t
    · rw [hut, hmv.stat]
      split <;> simp
    · have : x'.stat u = .suspend := by
        unfold Scheduler.stat
        rw [hmv.other u hut]
        exact h.suspend_of_mem u q hu
      simp [hut, this]
  · by_cases hut : u = t
    · rw [hut, hmv.stat]
      split
      · exact .inr (.inr (.inl rfl))
      · exact .inr (.inl rfl)
    · unfold Scheduler.stat
      rw [hmv.other u hut]
      exact .inl rfl

/-- Starting a thread. -/
theorem makeReady (h : x.Inv cfg) {t : T} (hr : x.makeReady cfg t = some x') :
    Touch cfg x x' c own W := by
  obtain ⟨hst, hi, hother, hprio, hstt, ⟨th, hself⟩, hwait, hcur, hln⟩ := Scheduler.makeReady_ok h hr
  refine { inv := hi, current := hcur, lockNest := hln, priority := fun u => ?_,
           initPriority := fun u => ?_, wait := fun q _ => hwait q, stay := fun u _ q => ?_,
           signals := fun u => ?_, info := fun u => .inl ?_, stat := fun u => ?_ }
  · by_cases hu : u = t
    · subst hu
      refine .inr (.inl ⟨hst, ?_⟩)
      rw [hprio, hself]
    · unfold Scheduler.priority
      rw [hother u hu]
      exact .inl rfl
  · by_cases hu : u = t
    · rw [hu, hself]
    · rw [hother u hu]
  · rw [hwait]
    refine ⟨fun hu => ⟨hu, ?_⟩, And.left⟩
    have hsu := h.suspend_of_mem u q hu
    have hut : u ≠ t := by
      rintro rfl
      rw [hst] at hsu
      cases hsu
    unfold Scheduler.stat
    rw [hother u hut]
    exact hsu
  · by_cases hu : u = t
    · rw [hu, hself]
      rfl
    · rw [hother u hu]
  · by_cases hu : u = t
    · rw [hu, hself]
      rfl
    · rw [hother u hu]
  · by_cases hut : u = t
    · rw [hut, hstt]
      split
      · exact .inr (.inr (.inl rfl))
      · exact .inr (.inl rfl)
    · unfold Scheduler.stat
      rw [hother u hut]
      exact .inl rfl

omit [DecidableEq T] [DecidableEq O] in
/-- The current thread suspends itself: its control block and a wait list change, and its timer
may start. -/
theorem suspendSelf (h : x'.Inv cfg) {time : Bool}
    (hself : x'.thread c = { x.thread c with stat := .suspend, timerActive := time })
    (hother : ∀ u, u ≠ c → x'.thread u = x.thread u)
    (hwait : ∀ q, q ∉ W → x'.list (.wait q) = x.list (.wait q))
    (hx : x.Inv cfg) (hmem : ∀ u, u ≠ c → ∀ q, u ∈ x'.list (.wait q) ↔ u ∈ x.list (.wait q))
    (hc : x'.current = x.current) (hn : x'.lockNest = x.lockNest) : Touch cfg x x' c True W := by
  have hfield : ∀ {α : Type} (g : Thread → α),
      (g { x.thread c with stat := .suspend, timerActive := time } = g (x.thread c)) →
      ∀ u, g (x'.thread u) = g (x.thread u) := by
    intro α g hg u
    by_cases hu : u = c
    · rw [hu, hself, hg]
    · rw [hother u hu]
  refine { inv := h, current := hc, lockNest := hn,
           priority := fun u => .inl (hfield Thread.currentPriority rfl u),
           initPriority := hfield _ rfl, wait := hwait, stay := fun u hu q => ?_,
           signals := hfield _ rfl, info := fun u => .inl (hfield _ rfl u), stat := fun u => ?_ }
  · have hne : u ≠ c := fun e => hu e trivial
    rw [hmem u hne]
    refine ⟨fun hq => ⟨hq, ?_⟩, And.left⟩
    unfold Scheduler.stat
    rw [hother u hne]
    exact hx.suspend_of_mem u q hq
  · by_cases hu : u = c
    · subst hu
      refine .inr (.inr (.inr ⟨?_, rfl, trivial⟩))
      unfold Scheduler.stat
      rw [hself]
    · unfold Scheduler.stat
      rw [hother u hu]
      exact .inl rfl

/-- A mutex moves a priority. -/
theorem changePriority (h : x.Inv cfg) {t : T} {p : ℕ} {o : O} (ho : .mutex o ∈ W)
    (hr : x.rtThreadChangePriority cfg t p = some x') : Touch cfg x x' c own W := by
  obtain ⟨hi, hother, -, hst, ⟨th, hself⟩, hwait, hcur, hln⟩ := Scheduler.rtThreadChangePriority_ok h hr
  have hfield : ∀ {α : Type} (g : Thread → α),
      (g { x.thread t with
        currentPriority := th.currentPriority, number := th.number, numberMask := th.numberMask,
        highMask := th.highMask } = g (x.thread t)) → ∀ u, g (x'.thread u) = g (x.thread u) := by
    intro α g hg u
    by_cases hu : u = t
    · rw [hu, hself, hg]
    · rw [hother u hu]
  have hst : ∀ u, x'.stat u = x.stat u := hfield Thread.stat rfl
  exact { inv := hi, current := hcur, lockNest := hln, priority := fun _ => .inr (.inr ⟨o, ho⟩),
          initPriority := hfield _ rfl, wait := fun q _ => hwait q,
          stay := fun u _ q => by rw [hwait, hst]; exact suspended h u q,
          signals := hfield _ rfl, info := fun u => .inl (hfield _ rfl u), stat := fun u => .inl (hst u) }

end Touch

open Kernel

variable {s s' s₁ : Kernel T O} {c : T} {own : Prop} {W : List (WaitList O)}
  {r : Kernel T O × Next O}

/-- The objects whose wait lists are not among `W` are the same. -/
structure Objects (W : List (WaitList O)) (s s' : Kernel T O) : Prop where
  sem : ∀ o, .sem o ∉ W → s'.sem o = s.sem o
  mutex : ∀ o, .mutex o ∉ W → s'.mutex o = s.mutex o
  event : ∀ o, .event o ∉ W → s'.event o = s.event o
  mailbox : ∀ o, .mailbox o ∉ W → s'.mailbox o = s.mailbox o
  mq : ∀ o, .messageQueue o ∉ W → s'.mq o = s.mq o
  memPool : ∀ o, .memPool o ∉ W → s'.memPool o = s.memPool o

/-- The rest of the kernel is the same too, the scheduler and the signals apart. -/
structure Off (W : List (WaitList O)) (s s' : Kernel T O) : Prop extends Objects W s s' where
  pc : s'.pc = s.pc
  handlers : s'.handlers = s.handlers

namespace Off

omit [DecidableEq T] [DecidableEq O] in
theorem refl : Off W s s where
  sem := fun _ _ => rfl
  mutex := fun _ _ => rfl
  event := fun _ _ => rfl
  mailbox := fun _ _ => rfl
  mq := fun _ _ => rfl
  memPool := fun _ _ => rfl
  pc := rfl
  handlers := rfl

omit [DecidableEq T] [DecidableEq O] in
theorem sched {x : Scheduler T (WaitList O)} {n : ℕ} (h : Off W s s') :
    Off W s { s' with sched := x, siginfoPool := n } :=
  { h with }

omit [DecidableEq T] [DecidableEq O] in
theorem trans (h : Off W s s₁) (h' : Off W s₁ s') : Off W s s' where
  sem := fun o ho => (h'.sem o ho).trans (h.sem o ho)
  mutex := fun o ho => (h'.mutex o ho).trans (h.mutex o ho)
  event := fun o ho => (h'.event o ho).trans (h.event o ho)
  mailbox := fun o ho => (h'.mailbox o ho).trans (h.mailbox o ho)
  mq := fun o ho => (h'.mq o ho).trans (h.mq o ho)
  memPool := fun o ho => (h'.memPool o ho).trans (h.memPool o ho)
  pc := h'.pc.trans h.pc
  handlers := h'.handlers.trans h.handlers

omit [DecidableEq T] in
theorem setSem {o : O} {v : Semaphore} (h : .sem o ∈ W) : Off W s (s.setSem o v) :=
  { refl with sem := fun _ ho => Function.update_of_ne (by rintro rfl; exact ho h) _ _ }

omit [DecidableEq T] in
theorem setMutex {o : O} {v : Mutex T} (h : .mutex o ∈ W) : Off W s (s.setMutex o v) :=
  { refl with mutex := fun _ ho => Function.update_of_ne (by rintro rfl; exact ho h) _ _ }

omit [DecidableEq T] in
theorem setEvent {o : O} {v : Event} (h : .event o ∈ W) : Off W s (s.setEvent o v) :=
  { refl with event := fun _ ho => Function.update_of_ne (by rintro rfl; exact ho h) _ _ }

omit [DecidableEq T] in
theorem setMailbox {o : O} {v : Mailbox} (h : .mailbox o ∈ W) : Off W s (s.setMailbox o v) :=
  { refl with mailbox := fun _ ho => Function.update_of_ne (by rintro rfl; exact ho h) _ _ }

omit [DecidableEq T] in
theorem setMq {o : O} {v : MessageQueue} (h : .messageQueue o ∈ W) : Off W s (s.setMq o v) :=
  { refl with mq := fun _ ho => Function.update_of_ne (by rintro rfl; exact ho h) _ _ }

omit [DecidableEq T] in
theorem setMemPool {o : O} {v : MemPool} (h : .memPool o ∈ W) : Off W s (s.setMemPool o v) :=
  { refl with memPool := fun _ ho => Function.update_of_ne (by rintro rfl; exact ho h) _ _ }

end Off

/-- A section outside of signals while `c` is current, on an object with the wait lists `W`. -/
structure Section (cfg : Config) (s : Kernel T O) (c : T) (own : Prop) (W : List (WaitList O))
    (r : Kernel T O × Next O) : Prop where
  touch : Touch cfg s.sched r.1.sched c own W
  off : Off W s r.1
  calm : (∀ k, r.2 ≠ .schedule k) → ∀ u, r.1.sched.stat u = s.sched.stat u
  lists : ∀ q ∈ r.2.lists, q ∈ W
  /-- where `c` waits now -/
  self : (∀ q, c ∉ s.waiting q) → ∀ q, c ∈ r.1.waiting q ↔ ∃ k, r.2 = .schedule k ∧ k.waits = some q

namespace Section

omit [DecidableEq T] [DecidableEq O] in
/-- A section may come behind a calm change. -/
theorem behind (h : Section cfg s' c own W r) (ht : Touch cfg s.sched s'.sched c own W)
    (ho : Off W s s') (hst : ∀ u, s'.sched.stat u = s.sched.stat u)
    (hw : ∀ q, s'.waiting q = s.waiting q) : Section cfg s c own W r where
  touch := ht.trans h.touch
  off := ho.trans h.off
  calm := fun hk u => (h.calm hk u).trans (hst u)
  lists := h.lists
  self := fun hc => h.self fun q => by rw [hw]; exact hc q

omit [DecidableEq T] [DecidableEq O] in
/-- The object may change. -/
theorem of_data (h : Section cfg s' c own W r) (hs : s'.sched = s.sched) (ho : Off W s s') :
    Section cfg s c own W r where
  touch := hs ▸ h.touch
  off := ho.trans h.off
  calm := hs ▸ h.calm
  lists := h.lists
  self := fun hc => h.self fun q => by unfold waiting; rw [hs]; exact hc q

omit [DecidableEq T] [DecidableEq O] in
theorem of_same {n : Next O} (hi : s.sched.Inv cfg) (hs : s'.sched = s.sched) (ho : Off W s s')
    (hn : ∀ q ∈ n.lists, q ∈ W) (hk : ∀ k, n = .schedule k → k.waits = none) :
    Section cfg s c own W (s', n) where
  touch := by
    show Touch cfg s.sched s'.sched c own W
    rw [hs]
    exact .refl hi
  off := ho
  calm := fun _ u => by rw [show (s', n).1.sched = s.sched from hs]
  lists := hn
  self := by
    intro hc q
    refine iff_of_false (by show c ∉ s'.sched.list _; rw [hs]; exact hc q) ?_
    rintro ⟨k, hnk, hkq⟩
    rw [hk k hnk] at hkq
    cases hkq

omit [DecidableEq T] [DecidableEq O] in
/-- The section changes nothing and returns. -/
theorem of_ret {e : Err} {out : Out} (hi : s.sched.Inv cfg) : Section cfg s c own W (s, .ret e out) :=
  .of_same hi rfl .refl nofun nofun

omit [DecidableEq T] [DecidableEq O] in
/-- The section only wakes threads. -/
theorem of_touch {n : Next O} (ht : Touch cfg s.sched s'.sched c False W) (ho : Off W s s')
    (hcalm : (∀ k, n ≠ .schedule k) → ∀ u, s'.sched.stat u = s.sched.stat u)
    (hn : ∀ q ∈ n.lists, q ∈ W) (hk : ∀ k, n = .schedule k → k.waits = none) :
    Section cfg s c own W (s', n) where
  touch := ht.weaken
  off := ho
  calm := hcalm
  lists := hn
  self := by
    intro hc q
    refine iff_of_false (fun h => hc q ((ht.stay c (fun _ => id) q).1 h).1) ?_
    rintro ⟨k, hnk, hkq⟩
    rw [hk k hnk] at hkq
    cases hkq

omit [DecidableEq O] in
/-- A change of the caller's control block that the scheduler does not look at. -/
theorem of_edit {f : Thread → Thread} (hi : s.sched.Inv cfg)
    (hf : ∀ th, (f th).stat = th.stat ∧ (f th).currentPriority = th.currentPriority ∧
      (f th).initPriority = th.initPriority ∧ (f th).number = th.number ∧
      (f th).numberMask = th.numberMask ∧ (f th).highMask = th.highMask ∧
      signals (f th) = signals th)
    (h : Section cfg { s with sched := s.sched.update c f } c True W r) : Section cfg s c True W r :=
  h.behind (.edit hi hf (.inl (.inl ⟨rfl, trivial⟩))) Off.refl.sched
    (Scheduler.update_stat fun th => (hf th).1) fun _ => rfl

omit [DecidableEq O] in
theorem of_setError {e : Err} (hi : s.sched.Inv cfg)
    (h : Section cfg (s.setError c e) c True W r) : Section cfg s c True W r :=
  .of_edit (f := fun th => { th with error := e }) hi (fun _ => ⟨rfl, rfl, rfl, rfl, rfl, rfl, rfl⟩) h

end Section

omit [DecidableEq O] in
theorem setError_inv (hi : s.sched.Inv cfg) (t : T) (e : Err) : (s.setError t e).sched.Inv cfg :=
  hi.edit (f := fun th => { th with error := e }) fun _ => ⟨rfl, rfl, rfl, rfl, rfl⟩

/-- **Suspending on an object.** The caller was running; it is in the wait list, and its timer
runs if it waits for a limited time. -/
theorem suspendOn_ok {q : WaitList O} {flag : IpcFlag} {time : Time} {k : Cont O}
    (hi : s.sched.Inv cfg) (hc : s.sched.current = some c)
    (h : s.suspendOn cfg c q flag time k = some r) :
    r.2 = .schedule k ∧ r.1 = { s with sched := r.1.sched } ∧ r.1.sched.Inv cfg ∧
      s.sched.stat c = .running ∧
      r.1.thread c = { s.thread c with stat := .suspend, timerActive := decide (0 < time.toInt) } ∧
      (∀ u, u ≠ c → r.1.thread u = s.thread u) ∧
      (∃ l, l.Perm (c :: s.waiting q) ∧ r.1.waiting = Function.update s.waiting q l) ∧
      r.1.sched.current = some c ∧ r.1.sched.lockNest = s.sched.lockNest := by
  unfold suspendOn at h
  simp only [Option.bind_eq_bind, Option.bind_eq_some_iff, Option.pure_def, Option.some.injEq] at h
  obtain ⟨x, hx, rfl⟩ := h
  obtain ⟨hix, hst, hself, l, hl, hmv, -⟩ := Scheduler.rtIpcListSuspend_ok hi hx
  have hrun : s.sched.stat c = .running := hst.resolve_left (hi.current c hc)
  have hw : (fun q => x.list (.wait q)) = Function.update s.waiting q l := funext hmv.wait
  by_cases ht : 0 < time.toInt
  · have hset : (x.setTimer c true).Inv cfg := by
      refine hix.updateWaiting (by rw [hmv.stat]; nofun) rfl ?_
      exact hix.masks c
    simp only [ht, if_true, decide_true]
    refine ⟨trivial, trivial, hset, hrun, ?_, fun u hu => ?_, ⟨l, hl, hw⟩, hmv.current.trans hc, hmv.lockNest⟩
    · show (x.setTimer c true).thread c = _
      unfold Scheduler.setTimer
      rw [Scheduler.update_thread_self, hself]
      rfl
    · show (x.setTimer c true).thread u = _
      unfold Scheduler.setTimer
      rw [Scheduler.update_thread_ne hu]
      exact hmv.other u hu
  · simp only [ht, if_false, decide_false]
    exact ⟨trivial, trivial, hix, hrun, hself, hmv.other, ⟨l, hl, hw⟩, hmv.current.trans hc, hmv.lockNest⟩

theorem Section.of_suspendOn {q : WaitList O} {flag : IpcFlag} {time : Time} {k : Cont O}
    (hi : s.sched.Inv cfg) (hc : s.sched.current = some c) (hkq : k.waits = some q)
    (hk : ∀ q ∈ k.lists, q ∈ W) (h : s.suspendOn cfg c q flag time k = some r) :
    Section cfg s c True W r := by
  obtain ⟨hn, hr, hir, -, hself, hother, ⟨l, hl, hw⟩, hcur, hln⟩ := suspendOn_ok hi hc h
  have hq : q ∈ W := hk q (Cont.waits_mem hkq)
  refine ⟨.suspendSelf hir hself hother (fun q' hq' => ?_) hi (fun u hu q' => ?_) (hcur.trans hc.symm) hln,
    by rw [hr]; exact Off.refl.sched, fun hne => absurd hn (hne k), by rw [hn]; exact hk, fun hcw q' => ?_⟩
  · show r.1.waiting _ = s.waiting _
    rw [hw, Function.update_of_ne (by rintro rfl; exact hq' hq)]
  · show u ∈ r.1.waiting q' ↔ u ∈ s.waiting q'
    rw [hw]
    by_cases hqq : q' = q
    · subst hqq
      rw [Function.update_self, hl.mem_iff, List.mem_cons, or_iff_right hu]
    · rw [Function.update_of_ne hqq]
  · rw [hn, hw]
    by_cases hqq : q' = q
    · subst hqq
      rw [Function.update_self, hl.mem_iff]
      exact iff_of_true List.mem_cons_self ⟨k, rfl, hkq⟩
    · rw [Function.update_of_ne hqq]
      refine iff_of_false (hcw q') ?_
      rintro ⟨k', hk', hkq'⟩
      cases hk'
      rw [hkq] at hkq'
      exact hqq (Option.some.inj hkq').symm

/-- **Resuming the first waiter.** -/
theorem resumeFirst_ok {q : WaitList O} {k : Cont O} (hi : s.sched.Inv cfg)
    (h : s.resumeFirst cfg q k = some r) :
    ∃ t l, s.waiting q = t :: l ∧ r.2 = .schedule k ∧ r.1 = { s with sched := r.1.sched } ∧
      r.1.waiting = Function.update s.waiting q l ∧
      ∀ u, waitInfo (r.1.thread u) = waitInfo (s.thread u) := by
  unfold resumeFirst Scheduler.rtIpcListResume at h
  simp only [Option.bind_eq_bind, Option.bind_eq_some_iff, Option.pure_def, Option.some.injEq] at h
  obtain ⟨x, ⟨t, ht, ⟨e, x'⟩, hx, rfl⟩, rfl⟩ := h
  obtain ⟨l, hl⟩ : ∃ l, s.waiting q = t :: l := List.head?_eq_some_iff.1 ht
  have hmem : t ∈ s.sched.list (.wait q) := List.mem_of_mem_head? ht
  obtain ⟨-, ⟨hne, -⟩ | ⟨-, -, hself, hmv⟩⟩ := Scheduler.rtThreadResume_ok hi hx
  · exact absurd (hi.suspend_of_mem t q hmem) hne
  have hnd : (t :: l).Nodup := hl ▸ hi.nodup _
  refine ⟨t, l, hl, rfl, rfl, funext fun q' => ?_, fun u => ?_⟩
  · show x'.list (.wait q') = _
    rw [hmv.wait]
    by_cases hq : q' = q
    · subst hq
      rw [Function.update_self, show s.sched.list (.wait q') = t :: l from hl, List.filter_cons_of_neg (by simp)]
      refine List.filter_eq_self.2 fun u hu => ?_
      have : u ≠ t := fun e => (List.nodup_cons.1 hnd).1 (e ▸ hu)
      simpa using this
    · rw [Function.update_of_ne hq]
      refine List.filter_eq_self.2 fun u hu => ?_
      have : u ≠ t := by
        rintro rfl
        exact hq (hi.wait_unique u _ _ hu hmem)
      simpa using this
  · show waitInfo (x'.thread u) = _
    by_cases hu : u = t
    · rw [hu, hself]
      rfl
    · rw [hmv.other u hu]
      rfl

/-- Resuming the first waiter is a section. -/
theorem Section.of_resumeFirst {q : WaitList O} {k : Cont O} (hi : s.sched.Inv cfg) (hq : q ∈ W)
    (hk : ∀ q ∈ k.lists, q ∈ W) (hkw : k.waits = none) (h : s.resumeFirst cfg q k = some r) :
    Section cfg s c own W r := by
  unfold resumeFirst Scheduler.rtIpcListResume at h
  simp only [Option.bind_eq_bind, Option.bind_eq_some_iff, Option.pure_def, Option.some.injEq] at h
  obtain ⟨x, ⟨t, ht, ⟨e, x'⟩, hx, rfl⟩, rfl⟩ := h
  have hw : ∀ q', q' ∉ W → t ∉ s.sched.list (.wait q') := fun q' hq' ho =>
    hq' (hi.wait_unique t _ _ (List.mem_of_mem_head? ht) ho ▸ hq)
  exact .of_touch (.wake hi hw hx) Off.refl.sched (fun hne => absurd rfl (hne k)) hk
    (by rintro _ ⟨⟩; exact hkw)

/-- The object changes, and if a thread waits, the first one is resumed. -/
theorem Section.of_wakeAny {q : WaitList O} {e e' : Err} {out out' : Out} (hi : s.sched.Inv cfg)
    (hq : q ∈ W)
    (h : (if s'.waiting q ≠ [] then s'.resumeFirst cfg q (.ret e out) else some (s', .ret e' out')) =
      some r)
    (hs : s'.sched = s.sched) (ho : Off W s s') : Section cfg s c own W r := by
  split at h
  · exact (Section.of_resumeFirst (hs ▸ hi) hq (by nofun) rfl h).of_data hs ho
  · cases h
    exact .of_same hi hs ho nofun nofun

/-! ## The calls -/

section Calls

variable (hi : s.sched.Inv cfg) (hc : s.sched.current = some c)
include hi hc

theorem rtSemTake_section {o : O} {time : Time} (h : s.rtSemTake cfg c o time = some r) :
    Section cfg s c True [.sem o] r := by
  unfold rtSemTake at h
  simp only at h
  split at h
  · cases h
    exact .of_same hi rfl (.setSem List.mem_cons_self) nofun nofun
  · split at h
    · cases h
      exact .of_ret hi
    · exact .of_setError hi (.of_suspendOn (setError_inv hi _ _) hc rfl (by simp [Cont.lists]) h)

omit hc in
theorem rtSemRelease_section {o : O} (h : s.rtSemRelease cfg o = some r) :
    Section cfg s c own [.sem o] r := by
  unfold rtSemRelease at h
  simp only at h
  split at h
  · exact .of_resumeFirst hi List.mem_cons_self (by nofun) rfl h
  · cases h
    exact .of_same hi rfl (.setSem List.mem_cons_self) nofun nofun

omit hc [DecidableEq T] in
theorem mutexOwn_section {o : O} {e : Err} {out : Out} :
    Section cfg s c own [.mutex o] (s.mutexOwn c o, .ret e out) :=
  .of_same hi rfl (.setMutex List.mem_cons_self) nofun nofun

theorem mutexWait_section {o : O} {time : Time} (h : s.mutexWait cfg c o time = some r) :
    Section cfg s c True [.mutex o] r := by
  unfold mutexWait at h
  simp only [Option.bind_eq_bind, Option.bind_eq_some_iff] at h
  obtain ⟨owner, -, x, hx, h⟩ := h
  split at hx
  · have ht : Touch cfg s.sched x c True [.mutex o] := .changePriority hi List.mem_cons_self hx
    obtain ⟨-, hother, -, hst, -, hwait, hcur, -⟩ := Scheduler.rtThreadChangePriority_ok hi hx
    refine (Section.of_suspendOn (s := { s with sched := x }) ht.inv (hcur.trans hc) rfl
      (by simp [Cont.lists]) h).behind ht Off.refl.sched (fun u => ?_) hwait
    by_cases hu : u = owner
    · rw [hu]
      exact hst
    · exact congrArg Thread.stat (hother u hu)
  · cases hx
    exact .of_suspendOn hi hc rfl (by simp [Cont.lists]) h

theorem rtMutexTake_section {o : O} {time : Time} (h : s.rtMutexTake cfg c o time = some r) :
    Section cfg s c True [.mutex o] r := by
  unfold rtMutexTake at h
  refine .of_setError (e := .eok) hi ?_
  have hi' := setError_inv hi c .eok
  simp only at h
  split at h
  · cases h
    exact .of_same hi' rfl (.setMutex List.mem_cons_self) nofun nofun
  split at h
  · cases h
    exact mutexOwn_section hi'
  split at h
  · cases h
    exact .of_setError hi' (.of_ret (setError_inv hi' _ _))
  · exact mutexWait_section hi' hc h

omit hc [DecidableEq O] in
theorem mutexTakeResumed_section {o : O} {time : Time} :
    Section cfg s c True [.mutex o] (s.mutexTakeResumed c o time) := by
  unfold mutexTakeResumed
  simp only
  split
  · split
    · split
      · exact .of_same hi rfl .refl (by simp [Next.lists, Cont.lists]) (by nofun)
      split
      · exact .of_setError hi (.of_ret (setError_inv hi _ _))
      · exact .of_same hi rfl .refl (by simp [Next.lists, Cont.lists]) (by nofun)
    · exact .of_ret hi
  · exact .of_ret hi

omit hc in
theorem rtMutexRelease_section {o : O} (h : s.rtMutexRelease cfg c o = some r) :
    Section cfg s c True [.mutex o] r := by
  unfold rtMutexRelease at h
  simp only at h
  split at h
  · cases h
    exact .of_setError hi (.of_ret (setError_inv hi _ _))
  split at h
  swap
  · cases h
    exact .of_same hi rfl (.setMutex List.mem_cons_self) nofun nofun
  simp only [Option.bind_eq_bind, Option.bind_eq_some_iff, Option.pure_def] at h
  obtain ⟨x, hx, h⟩ := h
  have hx : ∃ ht : Touch cfg s.sched x c True [.mutex o], (∀ u, x.stat u = s.sched.stat u) ∧
      ∀ q, x.list (.wait q) = s.waiting q := by
    split at hx
    · obtain ⟨-, hother, -, hst, -, hwait, -⟩ := Scheduler.rtThreadChangePriority_ok hi hx
      refine ⟨.changePriority hi List.mem_cons_self hx, fun u => ?_, hwait⟩
      by_cases hu : u = c
      · rw [hu]
        exact hst
      · exact congrArg Thread.stat (hother u hu)
    · cases hx
      exact ⟨.refl hi, fun _ => rfl, fun _ => rfl⟩
  obtain ⟨ht, hst, hw⟩ := hx
  have hsec : Section cfg { s with sched := x } c True [.mutex o] r := by
    split at h
    · exact (Section.of_resumeFirst (s := setMutex { s with sched := x } o _) ht.inv List.mem_cons_self
        (by nofun) rfl h).of_data rfl (.setMutex List.mem_cons_self)
    · cases h
      exact .of_same ht.inv rfl (.setMutex List.mem_cons_self) nofun nofun
  exact hsec.behind ht Off.refl.sched hst hw

omit hc in
theorem eventWake_touch {o : O} {ts : List T} {woken : Bool} (hts : ∀ t ∈ ts, t ∈ s.waiting (.event o))
    (hnd : ts.Nodup) (h : eventWake cfg o ts s = some (s', woken)) :
    Touch cfg s.sched s'.sched c own [.event o] ∧ Off [.event o] s s' ∧
      (woken = false → ∀ u, s'.sched.stat u = s.sched.stat u) := by
  induction ts generalizing s s' woken with
  | nil =>
    cases h
    exact ⟨.refl hi, .refl, fun _ _ => rfl⟩
  | cons t ts ih =>
    have ht : t ∈ s.sched.list (.wait (.event o)) := hts t List.mem_cons_self
    have htail : ∀ u ∈ ts, u ∈ s.waiting (.event o) := fun u hu => hts u (List.mem_cons_of_mem _ hu)
    unfold eventWake at h
    simp only at h
    split at h
    · exact ih hi htail (List.nodup_cons.1 hnd).2 h
    · rename_i set _
      simp only [Option.bind_eq_bind, Option.bind_eq_some_iff, Option.pure_def, Option.some.injEq,
        Prod.mk.injEq] at h
      obtain ⟨⟨e, x⟩, hx, ⟨s₂, w⟩, h₂, rfl, rfl⟩ := h
      have hset : Touch cfg s.sched (s.sched.update t fun th => { th with eventSet := set }) c own
          [.event o] :=
        .edit hi (fun _ => ⟨rfl, rfl, rfl, rfl, rfl, rfl, rfl⟩) (.inl (.inr ⟨_, List.mem_cons_self, ht⟩))
      have hx : (s.sched.update t fun th => { th with eventSet := set }).rtThreadResume cfg t =
          some (e, x) := by
        split at hx <;> exact hx
      have hwake : Touch cfg (s.sched.update t fun th => { th with eventSet := set }) x c own
          [.event o] :=
        .wake hset.inv (fun q hq hm => hq (hi.wait_unique t _ _ ht hm ▸ List.mem_cons_self)) hx
      obtain ⟨ht', ho, -⟩ := ih hwake.inv (fun u hu => by
        have hut : u ≠ t := fun e => (List.nodup_cons.1 hnd).1 (e ▸ hu)
        obtain ⟨-, ⟨-, -, rfl⟩ | ⟨-, -, -, hmv⟩⟩ := Scheduler.rtThreadResume_ok hset.inv hx
        · exact htail u hu
        · show u ∈ x.list _
          rw [hmv.wait]
          exact List.mem_filter.2 ⟨htail u hu, by simpa using hut⟩) (List.nodup_cons.1 hnd).2 h₂
      refine ⟨(hset.trans hwake).trans ht', Off.trans (Off.sched ?_) ho, nofun⟩
      split
      · exact (Off.refl.sched (W := [.event o])).trans (.setEvent List.mem_cons_self)
      · exact Off.refl.sched

omit hc in
theorem rtEventSend_section {o : O} {set : BitVec 32} (h : s.rtEventSend cfg o set = some r) :
    Section cfg s c own [.event o] r := by
  unfold rtEventSend at h
  split at h
  · cases h
    exact .of_ret hi
  · simp only [Option.bind_eq_bind, Option.bind_eq_some_iff, Option.pure_def, Option.some.injEq] at h
    obtain ⟨⟨s₁, woken⟩, h₁, rfl⟩ := h
    obtain ⟨ht, ho, hcalm⟩ := eventWake_touch (s := s.setEvent o _) hi (fun t ht => ht) (hi.nodup _) h₁
    refine .of_touch ht (Off.trans (.setEvent List.mem_cons_self) ho) (fun hk => ?_) ?_ ?_
    · cases woken with
      | true => exact absurd rfl (hk _)
      | false => exact hcalm rfl
    · cases woken <;> nofun
    · cases woken
      · nofun
      · rintro _ ⟨⟩
        rfl

theorem rtEventRecv_section {o : O} {set : BitVec 32} {option : BitVec 8} {timeout : Time}
    (h : s.rtEventRecv cfg c o set option timeout = some r) : Section cfg s c True [.event o] r := by
  unfold rtEventRecv at h
  split at h
  · cases h
    exact .of_ret hi
  refine .of_setError (e := .eok) hi ?_
  have hi' := setError_inv hi c .eok
  simp only at h
  split at h
  · cases h
  split at h
  · cases h
    split
    · exact .of_same hi' rfl (.setEvent List.mem_cons_self) nofun nofun
    · exact .of_ret hi'
  split at h
  · cases h
    exact .of_setError hi' (.of_ret (setError_inv hi' _ _))
  · refine .of_edit (f := fun th => { th with eventSet := set, eventInfo := option }) hi'
      (fun _ => ⟨rfl, rfl, rfl, rfl, rfl, rfl, rfl⟩) ?_
    exact .of_suspendOn (hi'.edit (f := fun th => { th with eventSet := set, eventInfo := option })
      fun _ => ⟨rfl, rfl, rfl, rfl, rfl⟩) hc rfl (by simp [Cont.lists]) h

omit hc in
theorem mbStore_section {o : O} {value : BitVec 32} (h : s.mbStore cfg o value = some r) :
    Section cfg s c own [.mailbox o, .mailboxSender o] r := by
  unfold mbStore at h
  simp only at h
  exact .of_wakeAny hi List.mem_cons_self h rfl (.setMailbox List.mem_cons_self)

theorem mbSendLoop_section {o : O} {value : BitVec 32} {timeout : Time}
    (h : s.mbSendLoop cfg c o value timeout = some r) :
    Section cfg s c True [.mailbox o, .mailboxSender o] r := by
  unfold mbSendLoop at h
  simp only at h
  split at h
  · refine .of_setError (e := .eok) hi ?_
    split at h
    · cases h
      exact .of_ret (setError_inv hi _ _)
    · exact .of_suspendOn (setError_inv hi _ _) hc rfl (by simp [Cont.lists]) h
  · exact mbStore_section hi h

theorem rtMbSendWait_section {o : O} {value : BitVec 32} {timeout : Time}
    (h : s.rtMbSendWait cfg c o value timeout = some r) :
    Section cfg s c True [.mailbox o, .mailboxSender o] r := by
  unfold rtMbSendWait at h
  simp only at h
  split at h
  · cases h
    exact .of_ret hi
  · exact mbSendLoop_section hi hc h

omit hc in
theorem mbFetch_section {o : O} (h : s.mbFetch cfg o = some r) :
    Section cfg s c own [.mailbox o, .mailboxSender o] r := by
  unfold mbFetch at h
  simp only at h
  exact .of_wakeAny hi (by simp) h rfl (.setMailbox List.mem_cons_self)

theorem mbRecvLoop_section {o : O} {timeout : Time}
    (h : s.mbRecvLoop cfg c o timeout = some r) :
    Section cfg s c True [.mailbox o, .mailboxSender o] r := by
  unfold mbRecvLoop at h
  simp only at h
  split at h
  · refine .of_setError (e := .eok) hi ?_
    have hi' := setError_inv hi c .eok
    split at h
    · cases h
      exact .of_setError hi' (.of_ret (setError_inv hi' _ _))
    · exact .of_suspendOn hi' hc rfl (by simp [Cont.lists]) h
  · exact mbFetch_section hi h

theorem rtMbRecv_section {o : O} {timeout : Time} (h : s.rtMbRecv cfg c o timeout = some r) :
    Section cfg s c True [.mailbox o, .mailboxSender o] r := by
  unfold rtMbRecv at h
  split at h
  · cases h
    exact .of_ret hi
  · exact mbRecvLoop_section hi hc h

omit hc in
theorem mqLink_section {o : O} {msg : ℕ} {buffer : List (BitVec 8)} {urgent : Bool}
    (h : s.mqLink cfg o msg buffer urgent = some r) : Section cfg s c own [.messageQueue o] r := by
  unfold mqLink at h
  simp only at h
  exact .of_wakeAny hi List.mem_cons_self h rfl (.setMq List.mem_cons_self)

omit hc [DecidableEq T] in
theorem rtMqSend_section {o : O} {buffer : List (BitVec 8)} {urgent : Bool}
    (h : s.rtMqSend o buffer urgent = some r) : Section cfg s c own [.messageQueue o] r := by
  unfold rtMqSend at h
  simp only at h
  split at h
  · cases h
  split at h
  · cases h
    exact .of_ret hi
  split at h
  · cases h
    exact .of_ret hi
  · cases h
    exact .of_same hi rfl (.setMq List.mem_cons_self) (by simp [Next.lists, Cont.lists]) (by nofun)

theorem mqRecvLoop_section {o : O} {size : ℕ} {timeout : Time}
    (h : s.mqRecvLoop cfg c o size timeout = some r) : Section cfg s c True [.messageQueue o] r := by
  unfold mqRecvLoop at h
  simp only at h
  split at h
  · refine .of_setError (e := .eok) hi ?_
    have hi' := setError_inv hi c .eok
    split at h
    · cases h
      exact .of_setError hi' (.of_ret (setError_inv hi' _ _))
    · exact .of_suspendOn hi' hc rfl (by simp [Cont.lists]) h
  · simp only [Option.bind_eq_bind, Option.bind_eq_some_iff, Option.pure_def, Option.some.injEq] at h
    obtain ⟨msg, -, rfl⟩ := h
    exact .of_same hi rfl (.setMq List.mem_cons_self) (by simp [Next.lists, Cont.lists]) (by nofun)

theorem rtMqRecv_section {o : O} {size : ℕ} {timeout : Time}
    (h : s.rtMqRecv cfg c o size timeout = some r) : Section cfg s c True [.messageQueue o] r := by
  unfold rtMqRecv at h
  split at h
  · cases h
  split at h
  · cases h
    exact .of_ret hi
  · exact mqRecvLoop_section hi hc h

omit hc hi in
theorem rtIpcListResumeAll_touch {q : WaitList O} (hq : q ∈ W) {ts : List T}
    {x x' : Scheduler T (WaitList O)} (hx : x.Inv cfg) (hts : ∀ t ∈ ts, t ∈ x.list (.wait q))
    (hnd : ts.Nodup) (h : rtIpcListResumeAll cfg ts x = some x') : Touch cfg x x' c own W := by
  induction ts generalizing x with
  | nil =>
    cases h
    exact .refl hx
  | cons t ts ih =>
    simp only [rtIpcListResumeAll, Option.bind_eq_bind, Option.bind_eq_some_iff] at h
    obtain ⟨⟨e, x₁⟩, h₁, h⟩ := h
    split at h
    swap
    · cases h
    have ht : t ∈ x.list (.wait q) := hts t List.mem_cons_self
    have hset : Touch cfg x (x.setError t .error) c own W :=
      .edit hx (fun _ => ⟨rfl, rfl, rfl, rfl, rfl, rfl, rfl⟩) (.inl (.inr ⟨q, hq, ht⟩))
    have hwake : Touch cfg (x.setError t .error) x₁ c own W :=
      .wake hset.inv (fun q' hq' hm => hq' (hx.wait_unique t _ _ ht hm ▸ hq)) h₁
    refine (hset.trans hwake).trans (ih hwake.inv (fun u hu => ?_) (List.nodup_cons.1 hnd).2 h)
    have hut : u ≠ t := fun e => (List.nodup_cons.1 hnd).1 (e ▸ hu)
    obtain ⟨-, ⟨-, -, rfl⟩ | ⟨-, -, -, hmv⟩⟩ := Scheduler.rtThreadResume_ok hset.inv h₁
    · exact hts u (List.mem_cons_of_mem _ hu)
    · rw [hmv.wait]
      exact List.mem_filter.2 ⟨hts u (List.mem_cons_of_mem _ hu), by simpa using hut⟩

omit hc in
theorem mqReset_section {o : O} (h : s.mqReset cfg o = some r) :
    Section cfg s c own [.messageQueue o] r := by
  unfold mqReset at h
  simp only [Option.bind_eq_bind, Option.bind_eq_some_iff, Option.pure_def, Option.some.injEq] at h
  obtain ⟨x, hx, mq, -, rfl⟩ := h
  exact .of_touch (rtIpcListResumeAll_touch List.mem_cons_self hi (fun _ ht => ht) (hi.nodup _) hx)
    ((Off.refl.sched (W := [.messageQueue o])).trans (.setMq List.mem_cons_self))
    (fun hne => absurd rfl (hne _)) (by nofun) (by rintro _ ⟨⟩; rfl)

omit hc hi [DecidableEq T] in
/-- `rt_list_insert_after` the head of a wait list, of a thread that was just suspended. -/
theorem insertAfter_inv {x : Scheduler T (WaitList O)} {q : WaitList O} (hx : x.Inv cfg)
    (hl : x.Lists cfg (some c)) (hst : x.stat c = .suspend) :
    (x.rtListInsertAfter (.wait q) c).Inv cfg :=
  { hl.link (List.Perm.refl _) (.inl ⟨q, rfl, hst⟩) with running := hx.running, current := hx.current }

/-- The waiting branch of `rt_mp_alloc`: the caller is the first of the wait list. -/
theorem mpSuspend_ok {o : O} {e : Err} {x : Scheduler T (WaitList O)} {time : Time}
    (h : s.sched.rtThreadSuspend cfg c = some (e, x)) (he : e = .eok) :
    ∃ x', x' = (if 0 < time.toInt then (x.rtListInsertAfter (.wait (.memPool o)) c).setTimer c true
        else x.rtListInsertAfter (.wait (.memPool o)) c) ∧ x'.Inv cfg ∧ s.sched.stat c = .running ∧
      x'.thread c = { s.sched.thread c with stat := .suspend, timerActive := decide (0 < time.toInt) } ∧
      (∀ u, u ≠ c → x'.thread u = s.sched.thread u) ∧
      (∀ q, x'.list (.wait q) = if q = .memPool o then c :: s.waiting (.memPool o) else s.waiting q) ∧
      x'.current = some c ∧ x'.lockNest = s.sched.lockNest := by
  obtain ⟨hne, -⟩ | ⟨-, hst, hix, hl, hself, hmv⟩ := Scheduler.rtThreadSuspend_ok hi h
  · exact absurd he hne
  have hrun : s.sched.stat c = .running := hst.resolve_left (hi.current c hc)
  have hins := insertAfter_inv (q := .memPool o) hix hl hmv.stat
  have hw : ∀ q, (x.rtListInsertAfter (.wait (.memPool o)) c).list (.wait q) =
      if q = .memPool o then c :: s.waiting (.memPool o) else s.waiting q := by
    intro q
    show Function.update x.list _ _ _ = _
    by_cases hq : q = .memPool o
    · rw [hq, Function.update_self, if_pos rfl, hmv.wait]
      rfl
    · rw [Function.update_of_ne (by simpa using hq), if_neg hq, hmv.wait]
      rfl
  by_cases ht : 0 < time.toInt
  · refine ⟨_, rfl, ?_, hrun, ?_, fun u hu => ?_, ?_, ?_, ?_⟩ <;> simp only [ht, if_true, decide_true]
    · exact hins.edit (f := fun th => { th with timerActive := true }) fun _ => ⟨rfl, rfl, rfl, rfl, rfl⟩
    · rw [Scheduler.setTimer, Scheduler.update_thread_self,
        show (x.rtListInsertAfter (.wait (.memPool o)) c).thread c = x.thread c from rfl, hself]
    · rw [Scheduler.setTimer, Scheduler.update_thread_ne hu]
      exact hmv.other u hu
    · exact hw
    · exact hmv.current.trans hc
    · exact hmv.lockNest
  · refine ⟨_, rfl, ?_, hrun, ?_, fun u hu => ?_, ?_, ?_, ?_⟩ <;> simp only [ht, if_false, decide_false]
    · exact hins
    · exact hself
    · exact hmv.other u hu
    · exact hw
    · exact hmv.current.trans hc
    · exact hmv.lockNest

theorem mpAllocLoop_section {o : O} {time : Time} (h : s.mpAllocLoop cfg c o time = some r) :
    Section cfg s c True [.memPool o] r := by
  unfold mpAllocLoop at h
  simp only at h
  split at h
  · split at h
    · cases h
      exact .of_setError hi (.of_ret (setError_inv hi _ _))
    refine .of_setError (e := .eok) hi ?_
    have hi' := setError_inv hi c .eok
    simp only [Option.bind_eq_bind, Option.bind_eq_some_iff] at h
    obtain ⟨⟨e, x⟩, hx, h⟩ := h
    split at h
    swap
    · cases h
    rename_i he
    obtain ⟨x', hx', hix, -, hself, hother, hw, hcur, hln⟩ := mpSuspend_ok (o := o) hi' hc hx he
    rw [← hx'] at h
    cases h
    have ht : Touch cfg (s.setError c .eok).sched x' c True [.memPool o] := by
      refine .suspendSelf hix hself hother (fun q hq => ?_) hi' (fun u hu q => ?_) (hcur.trans hc.symm) hln
      · rw [hw, if_neg (by simpa using hq)]
        rfl
      · rw [hw]
        split
        · rename_i hq
          rw [hq, List.mem_cons, or_iff_right hu]
          rfl
        · rfl
    refine ⟨ht, (Off.refl.sched (W := [.memPool o])).trans (.setMemPool List.mem_cons_self),
      fun hne => absurd rfl (hne _), by simp [Next.lists, Cont.lists], fun hcw q => ?_⟩
    show c ∈ x'.list (.wait q) ↔ _
    rw [hw]
    split
    · rename_i hq
      exact iff_of_true List.mem_cons_self ⟨_, rfl, hq ▸ rfl⟩
    · rename_i hq
      refine iff_of_false (hcw q) ?_
      rintro ⟨_, ⟨⟩, ⟨⟩⟩
      exact hq rfl
  · simp only [Option.bind_eq_bind, Option.bind_eq_some_iff] at h
    obtain ⟨b, -, h⟩ := h
    split at h
    · cases h
      exact .of_same hi rfl (.setMemPool List.mem_cons_self) nofun nofun
    · cases h

omit hc in
theorem rtMpFree_section {o : O} {block : ℕ} (h : s.rtMpFree cfg o block = some r) :
    Section cfg s c own [.memPool o] r := by
  unfold rtMpFree at h
  simp only at h
  split at h
  · cases h
  split at h
  · simp only [Option.bind_eq_bind, Option.bind_eq_some_iff, Option.pure_def, Option.some.injEq] at h
    obtain ⟨t, ht, ⟨e, x⟩, hx, rfl⟩ := h
    have hmem : t ∈ s.sched.list (.wait (.memPool o)) := List.mem_of_mem_head? ht
    have hset : Touch cfg s.sched (s.sched.setError t .eok) c False [.memPool o] :=
      .edit hi (fun _ => ⟨rfl, rfl, rfl, rfl, rfl, rfl, rfl⟩) (.inl (.inr ⟨_, List.mem_cons_self, hmem⟩))
    have hwake : Touch cfg (s.sched.setError t .eok) x c False [.memPool o] :=
      .wake hset.inv (fun q hq hm => hq (hi.wait_unique t _ _ hmem hm ▸ List.mem_cons_self)) hx
    exact .of_touch (hset.trans hwake)
      ((Off.refl.sched (W := [.memPool o])).trans (.setMemPool List.mem_cons_self))
      (fun hne => absurd rfl (hne _)) (by nofun) (by rintro _ ⟨⟩; rfl)
  · cases h
    exact .of_same hi rfl (.setMemPool List.mem_cons_self) nofun nofun

omit hc [DecidableEq O] in
/-- `rt_thread_suspend` of the caller. -/
theorem suspend_section {e : Err} {x : Scheduler T (WaitList O)} {k : Cont O} (hk : k.lists = [])
    (h : s.sched.rtThreadSuspend cfg c = some (e, x)) :
    Section cfg s c True [] ({ s with sched := x }, .schedule k) := by
  have hn : ∀ q ∈ (Next.schedule k).lists, q ∈ ([] : List (WaitList O)) := by
    simp [Next.lists, hk]
  have hkw : ∀ q, k.waits ≠ some q := fun q hq => by
    have := Cont.waits_mem hq
    rw [hk] at this
    cases this
  rcases Scheduler.rtThreadSuspend_ok hi h with ⟨-, rfl⟩ | ⟨-, -, hix, -, hself, hmv⟩
  · exact .of_same hi rfl Off.refl hn (by rintro _ ⟨⟩; exact Option.eq_none_iff_forall_ne_some.2 hkw)
  · refine ⟨.suspendSelf hix hself hmv.other (fun q _ => hmv.wait q) hi
      (fun u _ q => by rw [hmv.wait]) hmv.current hmv.lockNest, Off.refl.sched,
      fun hne => absurd rfl (hne _), hn, fun hcw q => iff_of_false ?_ ?_⟩
    · show c ∉ x.list _
      rw [hmv.wait]
      exact hcw q
    · rintro ⟨_, ⟨⟩, hkq⟩
      exact hkw q hkq

omit hc [DecidableEq O] in
/-- `rt_thread_sleep`; its timer starts even where `rt_thread_suspend` refuses. -/
theorem sleep_section {e : Err} {x : Scheduler T (WaitList O)}
    (h : s.sched.rtThreadSuspend cfg c = some (e, x)) :
    Section cfg s c True [] ({ s with sched := x.setTimer c true }, .schedule .sleep) := by
  have hs := suspend_section (k := .sleep) hi rfl h
  exact ⟨hs.touch.trans (.edit (f := fun th => { th with timerActive := true }) hs.touch.inv
    (fun _ => ⟨rfl, rfl, rfl, rfl, rfl, rfl, rfl⟩) (.inr fun _ => rfl)),
    Off.refl.sched, fun hne => absurd rfl (hne _), by simp [Next.lists, Cont.lists], hs.self⟩

/-- A call that concerns neither signals, nor the scheduler's lock, nor a thread that suspended
itself. -/
def Call.plain : Call T O → Bool
  | .kill _ _ | .killAlloc | .killAppend _ _ | .killDeliver _ | .signalMask _ | .signalUnmask _
  | .enterCritical | .exitCritical | .resume _ => false
  | _ => true

/-- **The first section of a plain call.** -/
theorem call_section {a : Call T O} (ha : a.plain = true) (h : s.call cfg c a = some r) :
    Section cfg s c True a.lists r := by
  cases a with
  | startup t =>
    simp only [call, Option.bind_eq_bind, Option.bind_eq_some_iff, Option.pure_def,
      Option.some.injEq] at h
    obtain ⟨x, hx, rfl⟩ := h
    exact .of_touch (.makeReady hi hx) Off.refl.sched (fun hne => absurd rfl (hne _)) (by nofun)
      (by rintro _ ⟨⟩; rfl)
  | suspend =>
    simp only [call, Option.bind_eq_bind, Option.bind_eq_some_iff, Option.pure_def,
      Option.some.injEq] at h
    obtain ⟨⟨e, x⟩, hx, rfl⟩ := h
    exact suspend_section hi rfl hx
  | sleep =>
    simp only [call, rtThreadSleep, Option.bind_eq_bind, Option.bind_eq_some_iff, Option.pure_def,
      Option.some.injEq] at h
    obtain ⟨⟨e, x⟩, hx, rfl⟩ := h
    exact sleep_section hi hx
  | yield =>
    cases h
    exact .of_same hi rfl .refl (by nofun) (by rintro _ ⟨⟩; rfl)
  | semTake o time => exact rtSemTake_section hi hc h
  | semRelease o => exact rtSemRelease_section hi h
  | mutexTake o time => exact rtMutexTake_section hi hc h
  | mutexRelease o => exact rtMutexRelease_section hi h
  | eventSend o set => exact rtEventSend_section hi h
  | eventRecv o set option timeout => exact rtEventRecv_section hi hc h
  | mbSendWait o value timeout => exact rtMbSendWait_section hi hc h
  | mbRecv o timeout => exact rtMbRecv_section hi hc h
  | mqSend o buffer => exact rtMqSend_section hi h
  | mqUrgent o buffer => exact rtMqSend_section hi h
  | mqRecv o size timeout => exact rtMqRecv_section hi hc h
  | mqReset o => exact mqReset_section hi h
  | mpAlloc o time => exact mpAllocLoop_section hi hc h
  | mpFree o block => exact rtMpFree_section hi h
  | kill | killAlloc | killAppend | killDeliver | signalMask | signalUnmask | enterCritical | exitCritical
  | resume => cases ha

/-- **The section at which a call goes on.** -/
theorem resume_section {k : Cont O} {elapsed : Time} (h : s.resume cfg c elapsed k = some r) :
    Section cfg s c True k.lists r := by
  cases k with
  | ret e out =>
    cases h
    exact .of_ret hi
  | sleep =>
    simp only [resume, sleepResumed, Option.some.injEq] at h
    cases h
    split
    · exact .of_setError hi (.of_ret (setError_inv hi _ _))
    · exact .of_ret hi
  | semTake =>
    cases h
    exact .of_ret hi
  | mutexTake o time =>
    cases h
    exact mutexTakeResumed_section hi
  | mutexOwn o =>
    cases h
    exact mutexOwn_section hi
  | mutexWait o time => exact mutexWait_section hi hc h
  | eventRecv =>
    simp only [resume, eventRecvResumed, Option.some.injEq] at h
    split at h <;> cases h <;> exact .of_ret hi
  | mbSend o value timeout =>
    simp only [resume, mbSendResumed] at h
    split at h
    · cases h
      exact .of_ret hi
    · exact mbSendLoop_section hi hc h
  | mbRecv o timeout =>
    simp only [resume, mbRecvResumed] at h
    split at h
    · cases h
      exact .of_ret hi
    · exact mbRecvLoop_section hi hc h
  | mqLink o msg buffer urgent => exact mqLink_section hi h
  | mqRecv o size timeout =>
    simp only [resume, mqRecvResumed] at h
    split at h
    · cases h
      exact .of_ret hi
    · exact mqRecvLoop_section hi hc h
  | mqFree o msg size =>
    cases h
    exact .of_same hi rfl (.setMq List.mem_cons_self) nofun nofun
  | mpAlloc o time =>
    simp only [resume, mpAllocResumed] at h
    split at h
    · cases h
      exact .of_ret hi
    · exact mpAllocLoop_section hi hc h

end Calls

end RtThread.Ipc
