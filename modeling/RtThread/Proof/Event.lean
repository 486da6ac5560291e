import RtThread.Proof.Waiting

/-!
# Events

* `rtEventRecv_zero`, `eventWake_ok`: what `rt_event_recv` does for its caller and `rt_event_send` for a
  waiter, which the code says twice, is the same.
* `eventServe_reject`: who is not served by a send is not served by what it leaves.
* `event_served`: **in every run without signals**, no thread waits for what is there, a send serves the
  waiters in their order as if they called now, and each of them returns what it was served.
-/

namespace RtThread.Ipc

open Sched Kernel

variable {T O : Type} [DecidableEq T] [DecidableEq O] {cfg : Config} {s s' : Kernel T O} {c t u : T}
  {r : Kernel T O × Next O} {idle : T} {o : O} {a : Act T O} {g : List (T × BitVec 32)}
  {event event' : Event} {set : BitVec 32} {option : BitVec 8}

/-- The event after `set` was received. -/
def Event.received (event : Event) (set : BitVec 32) (option : BitVec 8) : Event :=
  if flagClear option then { event with set := event.set &&& ~~~set } else event

/-- No bit is set that was not. -/
def Event.Shrinks (event event' : Event) : Prop := event'.set &&& event.set = event'.set

/-- What a waiter asks for. -/
def Asks (set : BitVec 32) (option : BitVec 8) : Prop := set ≠ 0#32 ∧ (flagAnd option || flagOr option) = true

theorem Event.Shrinks.trans {event'' : Event} (h : Event.Shrinks event event')
    (h' : Event.Shrinks event' event'') : Event.Shrinks event event'' := by
  unfold Event.Shrinks at *
  rw [← h', BitVec.and_assoc, h]

theorem Event.received_shrinks : Event.Shrinks event (event.received set option) := by
  unfold Event.Shrinks Event.received
  split
  · ext i
    simp only [BitVec.getElem_and, BitVec.getElem_not]
    grind
  · exact BitVec.and_self

/-- A condition that fails still fails on less. -/
theorem eventTest_shrinks (h : Event.Shrinks event event') (ht : eventTest event set option = false) :
    eventTest event' set option = false := by
  unfold eventTest at *
  split at ht
  · rename_i hand
    rw [if_pos hand]
    refine decide_eq_false fun he => of_decide_eq_false ht ?_
    rw [← he, ← h]
    ext i
    simp only [BitVec.getElem_and]
    grind
  · rename_i hand
    rw [if_neg hand]
    refine decide_eq_false fun he => he ?_
    have hz : event.set &&& set = 0#32 := not_not.1 (of_decide_eq_false ht)
    rw [← h, BitVec.and_assoc, hz, BitVec.and_zero]

/-- `rt_event_recv` that does not wait. -/
theorem rtEventRecv_zero (h : Asks set option) :
    s.rtEventRecv cfg c o set option 0 = some (if eventTest (s.event o) set option then
      (if flagClear option then
        (s.setError c .eok).setEvent o { s.event o with set := (s.event o).set &&& ~~~set }
        else s.setError c .eok,
        .ret .eok (.word ((s.event o).set &&& set)))
      else ((s.setError c .eok).setError c .etimeout, .ret .etimeout .none)) := by
  have hopt : (!flagAnd option && !flagOr option) = false := by
    rw [← Bool.not_or, h.2]
    rfl
  have hev : (s.setError c .eok).event o = s.event o := rfl
  unfold rtEventRecv
  rw [if_neg h.1]
  simp only [hopt, Bool.false_eq_true, if_false, if_true, hev]
  by_cases ht : eventTest (s.event o) set option = true
  · simp only [ht, if_true]
  · simp only [ht]
    rfl

theorem eventServe_cons {ts : List T} (h : Asks (s.thread t).eventSet (s.thread t).eventInfo) :
    eventServe cfg o s (t :: ts) event =
      if eventTest event (s.thread t).eventSet (s.thread t).eventInfo then
        ((eventServe cfg o s ts (event.received (s.thread t).eventSet (s.thread t).eventInfo)).1,
          (t, event.set &&& (s.thread t).eventSet) ::
            (eventServe cfg o s ts (event.received (s.thread t).eventSet (s.thread t).eventInfo)).2)
      else eventServe cfg o s ts event := by
  have hev : (s.setEvent o event).event o = event := Function.update_self _ _ _
  rw [eventServe, rtEventRecv_zero h, hev]
  by_cases ht : eventTest event (s.thread t).eventSet (s.thread t).eventInfo = true
  · simp only [ht, if_true]
    unfold Event.received
    split
    · simp [setEvent]
    · simp [setEvent, setError]
  · simp only [ht]
    rfl

/-- What is served depends on the arguments of the waiters alone. -/
theorem eventServe_congr {ts : List T} (hargs : ∀ t ∈ ts, recvArgs (s'.thread t) = recvArgs (s.thread t))
    (hasks : ∀ t ∈ ts, Asks (s.thread t).eventSet (s.thread t).eventInfo) :
    eventServe cfg o s' ts event = eventServe cfg o s ts event := by
  induction ts generalizing event with
  | nil => rfl
  | cons t ts ih =>
    have ih := fun e => @ih e (fun u hu => hargs u (List.mem_cons_of_mem _ hu))
      fun u hu => hasks u (List.mem_cons_of_mem _ hu)
    have ht := hasks t List.mem_cons_self
    have hset : (s'.thread t).eventSet = (s.thread t).eventSet :=
      congrArg Prod.fst (hargs t List.mem_cons_self)
    have hinfo : (s'.thread t).eventInfo = (s.thread t).eventInfo :=
      congrArg Prod.snd (hargs t List.mem_cons_self)
    rw [eventServe_cons ht, eventServe_cons (hset ▸ hinfo ▸ ht), hset, hinfo, ih, ih]

theorem eventServe_mem {ts : List T} (hasks : ∀ t ∈ ts, Asks (s.thread t).eventSet (s.thread t).eventInfo) :
    ∀ q ∈ (eventServe cfg o s ts event).2, q.1 ∈ ts := by
  induction ts generalizing event with
  | nil => nofun
  | cons t ts ih =>
    intro q hq
    have ih := fun e => @ih e fun u hu => hasks u (List.mem_cons_of_mem _ hu)
    rw [eventServe_cons (hasks t List.mem_cons_self)] at hq
    split at hq
    · rcases List.mem_cons.1 hq with rfl | hq
      · exact List.mem_cons_self
      · exact List.mem_cons_of_mem _ (ih _ q hq)
    · exact List.mem_cons_of_mem _ (ih _ q hq)

theorem eventServe_shrinks {ts : List T}
    (hasks : ∀ t ∈ ts, Asks (s.thread t).eventSet (s.thread t).eventInfo) :
    Event.Shrinks event (eventServe cfg o s ts event).1 := by
  induction ts generalizing event with
  | nil => exact BitVec.and_self
  | cons t ts ih =>
    have ih := fun e => @ih e fun u hu => hasks u (List.mem_cons_of_mem _ hu)
    rw [eventServe_cons (hasks t List.mem_cons_self)]
    split
    · exact Event.received_shrinks.trans (ih _)
    · exact ih _

/-- **Who is not served asks for more than is left.** -/
theorem eventServe_reject {ts : List T}
    (hasks : ∀ t ∈ ts, Asks (s.thread t).eventSet (s.thread t).eventInfo) (hu : u ∈ ts)
    (hn : u ∉ (eventServe cfg o s ts event).2.map Prod.fst) :
    eventTest (eventServe cfg o s ts event).1 (s.thread u).eventSet (s.thread u).eventInfo = false := by
  induction ts generalizing event with
  | nil => cases hu
  | cons t ts ih =>
    have htail : ∀ v ∈ ts, Asks (s.thread v).eventSet (s.thread v).eventInfo :=
      fun v hv => hasks v (List.mem_cons_of_mem _ hv)
    rw [eventServe_cons (hasks t List.mem_cons_self)] at hn ⊢
    split at hn
    · rename_i ht
      rw [if_pos ht]
      obtain ⟨hne, hn⟩ := not_or.1 (List.mem_cons.not.1 hn)
      exact ih htail ((List.mem_cons.1 hu).resolve_left hne) hn
    · rename_i ht
      rw [if_neg ht]
      rcases List.mem_cons.1 hu with rfl | hu
      · exact eventTest_shrinks (eventServe_shrinks htail) (Bool.not_eq_true _ ▸ ht)
      · exact ih htail hu hn

/-- The test of `rt_event_send` is that of `rt_event_recv`. -/
theorem received_eq (h : Asks set option) :
    (if flagAnd option = true then if set &&& event.set = set then some set else none
      else if flagOr option = true then if set &&& event.set ≠ 0#32 then some (set &&& event.set) else none
      else none) = if eventTest event set option then some (event.set &&& set) else none := by
  unfold eventTest
  rw [BitVec.and_comm set]
  by_cases hand : flagAnd option = true
  · simp only [hand, if_true, decide_eq_true_eq]
    split
    · rename_i he
      rw [he]
    · rfl
  · have hor : flagOr option = true := by
      have := h.2
      simp only [Bool.or_eq_true] at this
      exact this.resolve_left hand
    simp only [hand, hor, Bool.false_eq_true, if_true, if_false, decide_eq_true_eq]

/-- The walk at a waiter. -/
theorem eventWake_cons {ts : List T} {woken : Bool} (hasks : Asks (s.thread t).eventSet (s.thread t).eventInfo)
    (h : eventWake cfg o (t :: ts) s = some (s', woken)) :
    (eventTest (s.event o) (s.thread t).eventSet (s.thread t).eventInfo = false ∧
      eventWake cfg o ts s = some (s', woken)) ∨
    eventTest (s.event o) (s.thread t).eventSet (s.thread t).eventInfo = true ∧ ∃ e x w,
      (s.sched.update t fun th => { th with eventSet := (s.event o).set &&& (s.thread t).eventSet
        }).rtThreadResume cfg t = some (e, x) ∧
      eventWake cfg o ts ({ s with sched := x }.setEvent o
        ((s.event o).received (s.thread t).eventSet (s.thread t).eventInfo)) = some (s', w) := by
  unfold eventWake at h
  simp only [received_eq hasks] at h
  by_cases ht : eventTest (s.event o) (s.thread t).eventSet (s.thread t).eventInfo = true
  swap
  · simp only [ht] at h
    exact .inl ⟨Bool.not_eq_true _ ▸ ht, h⟩
  simp only [ht, if_true, Option.bind_eq_bind, Option.bind_eq_some_iff, Option.pure_def, Option.some.injEq,
    Prod.mk.injEq] at h
  obtain ⟨⟨e, x⟩, hx, ⟨s₂, w⟩, h₂, rfl, -⟩ := h
  refine .inr ⟨ht, e, x, w, by split at hx <;> exact hx, ?_⟩
  rw [← h₂]
  congr 1
  have hset : (s.event o).set &&& ~~~((s.event o).set &&& (s.thread t).eventSet) =
      (s.event o).set &&& ~~~(s.thread t).eventSet := by
    ext i
    simp only [BitVec.getElem_and, BitVec.getElem_not]
    grind
  unfold Event.received
  split
  · rw [hset]
    rfl
  · unfold setEvent
    rw [Function.update_eq_self]

/-- **The walk of `rt_event_send`** serves the waiters as if they called. -/
theorem eventWake_ok {ts : List T} {woken : Bool} (hi : s.sched.Inv cfg)
    (hts : ∀ t ∈ ts, t ∈ s.waiting (.event o)) (hnd : ts.Nodup)
    (hasks : ∀ t ∈ ts, Asks (s.thread t).eventSet (s.thread t).eventInfo)
    (h : eventWake cfg o ts s = some (s', woken)) :
    s'.event o = (eventServe cfg o s ts (s.event o)).1 ∧
      s'.waiting (.event o) = (s.waiting (.event o)).filter
        (· ∉ (eventServe cfg o s ts (s.event o)).2.map Prod.fst) ∧
      (∀ q ∈ (eventServe cfg o s ts (s.event o)).2, (s'.thread q.1).eventSet = q.2) ∧
      (∀ u, u ∉ (eventServe cfg o s ts (s.event o)).2.map Prod.fst →
        recvArgs (s'.thread u) = recvArgs (s.thread u)) ∧
      ∀ u, (s'.thread u).error = (s.thread u).error := by
  induction ts generalizing s woken with
  | nil =>
    cases h
    exact ⟨rfl, by simp [eventServe], nofun, fun _ _ => rfl, fun _ => rfl⟩
  | cons t ts ih =>
    have ht : t ∈ s.waiting (.event o) := hts t List.mem_cons_self
    obtain ⟨htn, hnd⟩ := List.nodup_cons.1 hnd
    have htail : ∀ u ∈ ts, u ∈ s.waiting (.event o) := fun u hu => hts u (List.mem_cons_of_mem _ hu)
    have hasks' : ∀ u ∈ ts, Asks (s.thread u).eventSet (s.thread u).eventInfo :=
      fun u hu => hasks u (List.mem_cons_of_mem _ hu)
    rw [eventServe_cons (hasks t List.mem_cons_self)]
    obtain ⟨hno, h⟩ | ⟨hyes, e, x, w, hx, h⟩ := eventWake_cons (hasks t List.mem_cons_self) h
    · rw [hno]
      exact ih hi htail hnd hasks' h
    rw [if_pos hyes]
    have hi₀ : (s.sched.update t fun th =>
        { th with eventSet := (s.event o).set &&& (s.thread t).eventSet }).Inv cfg :=
      hi.edit (f := fun th => { th with eventSet := (s.event o).set &&& (s.thread t).eventSet })
        fun _ => ⟨rfl, rfl, rfl, rfl, rfl⟩
    obtain ⟨hix, ⟨hne, -⟩ | ⟨-, -, hself, hmv⟩⟩ := Scheduler.rtThreadResume_ok hi₀ hx
    · refine absurd ?_ hne
      rw [Scheduler.update_stat (f := fun th => { th with eventSet := (s.event o).set &&& (s.thread t).eventSet })
        fun _ => rfl]
      exact hi.suspend_of_mem t _ ht
    rw [Scheduler.update_thread_self] at hself
    -- the walk goes on with `t` woken
    set s₁ := { s with sched := x }.setEvent o
      ((s.event o).received (s.thread t).eventSet (s.thread t).eventInfo) with hs₁
    have hev : s₁.event o = (s.event o).received (s.thread t).eventSet (s.thread t).eventInfo :=
      Function.update_self _ _ _
    have hother : ∀ u, u ≠ t → s₁.thread u = s.thread u := fun u hu =>
      (hmv.other u hu).trans (Scheduler.update_thread_ne hu _)
    have hwait : s₁.waiting (.event o) = (s.waiting (.event o)).filter (· ≠ t) := hmv.wait _
    have hnt : ∀ u ∈ ts, u ≠ t := fun u hu e => htn (e ▸ hu)
    have hargs : ∀ u ∈ ts, recvArgs (s₁.thread u) = recvArgs (s.thread u) :=
      fun u hu => congrArg recvArgs (hother u (hnt u hu))
    obtain ⟨he, hw, hserved, hrest, herr⟩ := ih hix
      (fun u hu => by rw [hwait]; exact List.mem_filter.2 ⟨htail u hu, by simpa using hnt u hu⟩) hnd
      (fun u hu => by rw [hother u (hnt u hu)]; exact hasks' u hu) h
    rw [eventServe_congr hargs hasks', hev] at he hw hserved hrest
    have hmem : ∀ q ∈ (eventServe cfg o s ts
        ((s.event o).received (s.thread t).eventSet (s.thread t).eventInfo)).2, q.1 ∈ ts :=
      eventServe_mem hasks'
    have htserved : t ∉ (eventServe cfg o s ts
        ((s.event o).received (s.thread t).eventSet (s.thread t).eventInfo)).2.map Prod.fst := fun hm => by
      obtain ⟨q, hq, rfl⟩ := List.mem_map.1 hm
      exact htn (hmem q hq)
    refine ⟨he, ?_, fun q hq => ?_, fun u hu => ?_, fun u => ?_⟩
    · rw [hw, hwait, List.filter_filter]
      congr 1
      funext u
      rw [List.map_cons, Bool.eq_iff_iff]
      simp only [Bool.and_eq_true, decide_eq_true_eq, List.mem_cons, not_or]
      exact and_comm
    · rcases List.mem_cons.1 hq with rfl | hq
      · have := congrArg Prod.fst (hrest t htserved)
        refine this.trans ?_
        show (x.thread t).eventSet = _
        rw [hself]
      · exact hserved q hq
    · obtain ⟨hut, hu⟩ := not_or.1 (List.mem_cons.not.1 hu)
      exact (hrest u hu).trans (congrArg recvArgs (hother u hut))
    · rw [herr u]
      by_cases hut : u = t
      · rw [hut]
        show (x.thread t).error = _
        rw [hself]
        rfl
      · rw [hother u hut]

/-- Who a send serves. -/
structure EvSent (o : O) (s : Kernel T O) (served : Event × List (T × BitVec 32)) (s' : Kernel T O) : Prop where
  event : s'.event o = served.1
  waiting : s'.waiting (.event o) = (s.waiting (.event o)).filter (· ∉ served.2.map Prod.fst)
  receives : ∀ q ∈ served.2, (s'.thread q.1).eventSet = q.2
  args : ∀ u, u ∉ served.2.map Prod.fst → recvArgs (s'.thread u) = recvArgs (s.thread u)
  error : ∀ u, (s'.thread u).error = (s.thread u).error
  pc : s'.pc = s.pc

/-- **`rt_event_send`.** -/
theorem rtEventSend_ok (c : T) (hi : s.sched.Inv cfg) (hset : set ≠ 0#32)
    (hasks : ∀ t ∈ s.waiting (.event o), Asks (s.thread t).eventSet (s.thread t).eventInfo)
    (h : s.rtEventSend cfg o set = some r) :
    EvSent o s (eventServed cfg o s set) r.1 ∧ r.2.pc.waits = none := by
  have hsec : Section cfg s c False [.event o] r := rtEventSend_section hi h
  have hpc := hsec.off.pc
  unfold rtEventSend at h
  rw [if_neg hset] at h
  simp only [Option.bind_eq_bind, Option.bind_eq_some_iff, Option.pure_def, Option.some.injEq] at h
  obtain ⟨⟨s₁, woken⟩, h₁, rfl⟩ := h
  have hserve : eventServe cfg o (s.setEvent o { s.event o with set := (s.event o).set ||| set })
      ((s.setEvent o { s.event o with set := (s.event o).set ||| set }).waiting (.event o))
      ((s.setEvent o { s.event o with set := (s.event o).set ||| set }).event o) =
      eventServed cfg o s set := by
    rw [show (s.setEvent o { s.event o with set := (s.event o).set ||| set }).event o = _ from
      Function.update_self _ _ _]
    exact eventServe_congr (fun _ _ => rfl) hasks
  obtain ⟨he, hw, hserved, hrest, herr⟩ := eventWake_ok (s := s.setEvent o _) hi (fun t ht => ht)
    (hi.nodup _) hasks h₁
  rw [hserve] at he hw hserved hrest
  exact ⟨⟨he, hw, hserved, hrest, herr, hpc⟩, by cases woken <;> rfl⟩

/-- What `rt_event_recv` does to others, unless it waits. -/
structure EvLeaves (o : O) (s : Kernel T O) (c : T) (r : Kernel T O × Next O) : Prop where
  event : Event.Shrinks (s.event o) (r.1.event o)
  other : ∀ u, u ≠ c → r.1.thread u = s.thread u
  waiting : r.1.waiting = s.waiting
  pc : r.1.pc = s.pc
  next : r.2.pc.waits = none

/-- **`rt_event_recv`.** -/
theorem rtEventRecv_ok {timeout : Time} (hi : s.sched.Inv cfg) (hc : s.sched.current = some c)
    (h : s.rtEventRecv cfg c o set option timeout = some r) :
    EvLeaves o s c r ∨ Waits s c (.event o) (.eventRecv o) r ∧ Asks set option ∧
      eventTest (s.event o) set option = false ∧ recvArgs (r.1.thread c) = (set, option) := by
  have hother : ∀ e u, u ≠ c → (s.setError c e).thread u = s.thread u := fun e u hu =>
    Scheduler.update_thread_ne (s := s.sched) hu fun th => { th with error := e }
  unfold rtEventRecv at h
  split at h
  · cases h
    exact .inl ⟨BitVec.and_self, fun _ _ => rfl, rfl, rfl, rfl⟩
  rename_i hset
  simp only at h
  split at h
  · cases h
  rename_i hopt
  split at h
  · cases h
    refine .inl ?_
    split
    · rename_i hclear
      refine ⟨?_, hother .eok, rfl, rfl, rfl⟩
      have : Event.Shrinks (s.event o) ((s.event o).received set option) := Event.received_shrinks
      unfold Event.received at this
      rw [if_pos hclear] at this
      rw [show ((s.setError c .eok).setEvent o _).event o = _ from Function.update_self _ _ _]
      exact this
    · exact ⟨BitVec.and_self, hother .eok, rfl, rfl, rfl⟩
  rename_i htest
  split at h
  · cases h
    refine .inl ⟨BitVec.and_self, fun u hu => ?_, rfl, rfl, rfl⟩
    have := Scheduler.update_thread_ne (s := (s.setError c .eok).sched) hu
      fun th => { th with error := .etimeout }
    exact this.trans (hother .eok u hu)
  · refine .inr ?_
    have hi' : ((s.setError c .eok).sched.update c fun th =>
        { th with eventSet := set, eventInfo := option }).Inv cfg :=
      (setError_inv hi c .eok).edit (f := fun th => { th with eventSet := set, eventInfo := option })
        fun _ => ⟨rfl, rfl, rfl, rfl, rfl⟩
    obtain ⟨hn, hr, -, -, hself, hrest, hl, -, -⟩ := suspendOn_ok
      (s := { s.setError c .eok with sched := (s.setError c .eok).sched.update c fun th =>
        { th with eventSet := set, eventInfo := option } }) hi' hc h
    have hargs : ∀ u, u ≠ c → ((s.setError c .eok).sched.update c fun th =>
        { th with eventSet := set, eventInfo := option }).thread u = (s.setError c .eok).thread u :=
      fun u hu => Scheduler.update_thread_ne (s := (s.setError c .eok).sched) hu
        fun th => { th with eventSet := set, eventInfo := option }
    have hthc : ((s.setError c .eok).sched.update c fun th =>
        { th with eventSet := set, eventInfo := option }).thread c =
        { s.thread c with error := .eok, eventSet := set, eventInfo := option } := by
      rw [Scheduler.update_thread_self]
      unfold setError Scheduler.setError
      rw [Scheduler.update_thread_self]
      rfl
    have hthc' : r.1.thread c = { { s.thread c with error := .eok, eventSet := set, eventInfo := option } with
        stat := .suspend, timerActive := decide (0 < timeout.toInt) } := hthc ▸ hself
    refine ⟨{ next := hn, same := hr, error := by rw [hthc'], other := fun u hu => ?_, list := hl },
      ⟨hset, ?_⟩, Bool.not_eq_true _ ▸ htest, by rw [hthc']; rfl⟩
    · exact (hrest u hu).trans ((hargs u hu).trans (hother .eok u hu))
    · simp only [Bool.and_eq_true, Bool.not_eq_true', not_and, Bool.not_eq_false] at hopt
      exact Bool.or_eq_true _ _ ▸ (Bool.eq_false_or_eq_true _).imp_right hopt

/-- Nobody waits for what is there, and `g` is what the resumed waiters will return. -/
structure EvInv (o : O) (s : Kernel T O) (g : List (T × BitVec 32)) : Prop where
  asks : ∀ u ∈ s.waiting (.event o), Asks (s.thread u).eventSet (s.thread u).eventInfo
  unserved : ∀ u ∈ s.waiting (.event o),
    eventTest (s.event o) (s.thread u).eventSet (s.thread u).eventInfo = false
  error : ∀ u ∈ s.waiting (.event o), (s.thread u).error = .eok
  granted : ∀ u w, (u, w) ∈ g ↔ Granted s (.event o) u ∧ (s.thread u).eventSet = w

namespace EvInv

omit [DecidableEq T] [DecidableEq O] in
theorem of_init (h : s.Init cfg) : EvInv o s [] := by
  have hw : s.waiting (.event o) = [] := by
    obtain ⟨th, -, hs⟩ := h.sched
    unfold Kernel.waiting
    rw [hs]
    rfl
  refine { asks := ?_, unserved := ?_, error := ?_, granted := fun u w => ?_ }
  · rw [hw]
    nofun
  · rw [hw]
    nofun
  · rw [hw]
    nofun
  · refine iff_of_false List.not_mem_nil ?_
    rintro ⟨⟨hu, -⟩, -⟩
    rw [h.pc] at hu
    cases hu

omit [DecidableEq T] [DecidableEq O] in
theorem of_handlers (h : EvInv o s g) (l : List (Next O)) : EvInv o { s with handlers := l } g :=
  { h with }

omit [DecidableEq T] [DecidableEq O] in
/-- Steps on other objects. -/
theorem away (h : EvInv o s g) (hev : s'.event o = s.event o)
    (ha : Away s s' (.event o)) : EvInv o s' g := by
  have hmem : ∀ u ∈ s'.waiting (.event o), u ∈ s.waiting (.event o) := by
    intro u hu
    rw [ha.waiting] at hu
    exact (List.mem_filter.1 hu).1
  have hset : ∀ u ∈ s'.waiting (.event o), (s'.thread u).eventSet = (s.thread u).eventSet :=
    fun u hu => congrArg (fun x => x.2.1) (ha.info u hu)
  have hinfo : ∀ u ∈ s'.waiting (.event o), (s'.thread u).eventInfo = (s.thread u).eventInfo :=
    fun u hu => congrArg (fun x => x.2.2) (ha.info u hu)
  refine { asks := fun u hu => ?_, unserved := fun u hu => ?_, error := fun u hu => ?_,
           granted := fun u w => ?_ }
  · rw [hset u hu, hinfo u hu]
    exact h.asks u (hmem u hu)
  · rw [hset u hu, hinfo u hu, hev]
    exact h.unserved u (hmem u hu)
  · exact (congrArg Prod.fst (ha.info u hu)).trans (h.error u (hmem u hu))
  · rw [h.granted, ha.granted, and_congr_right_iff]
    intro hg
    rw [show (s'.thread u).eventSet = (s.thread u).eventSet from congrArg Prod.fst (ha.args u hg.1)]

/-- **`rt_event_send`.** -/
theorem send (h : EvInv o s g) (hl : Live cfg idle s) (hs : EvSent o s (eventServed cfg o s set) s') :
    EvInv o s' ((eventServed cfg o s set).2 ++ g) := by
  have hsub : ∀ u ∈ (eventServed cfg o s set).2.map Prod.fst, u ∈ s.waiting (.event o) := by
    intro u hu
    obtain ⟨q, hq, rfl⟩ := List.mem_map.1 hu
    exact eventServe_mem h.asks q hq
  have hmem : ∀ u, u ∈ s'.waiting (.event o) ↔
      u ∈ s.waiting (.event o) ∧ u ∉ (eventServed cfg o s set).2.map Prod.fst := by
    intro u
    rw [hs.waiting, List.mem_filter, decide_eq_true_eq]
  have hset : ∀ u, u ∉ (eventServed cfg o s set).2.map Prod.fst →
      (s'.thread u).eventSet = (s.thread u).eventSet := fun u hu => congrArg Prod.fst (hs.args u hu)
  have hinfo : ∀ u, u ∉ (eventServed cfg o s set).2.map Prod.fst →
      (s'.thread u).eventInfo = (s.thread u).eventInfo := fun u hu => congrArg Prod.snd (hs.args u hu)
  have hnot : ∀ u ∈ s.waiting (.event o), ¬Granted s (.event o) u := fun u hu hg => hg.2.1 hu
  refine { asks := fun u hu => ?_, unserved := fun u hu => ?_, error := fun u hu => ?_,
           granted := fun u w => ?_ }
  · obtain ⟨hu, hn⟩ := (hmem u).1 hu
    rw [hset u hn, hinfo u hn]
    exact h.asks u hu
  · obtain ⟨hu, hn⟩ := (hmem u).1 hu
    rw [hset u hn, hinfo u hn, hs.event]
    exact eventServe_reject h.asks hu hn
  · rw [hs.error]
    exact h.error u ((hmem u).1 hu).1
  · rw [List.mem_append]
    by_cases hu : u ∈ (eventServed cfg o s set).2.map Prod.fst
    · -- a waiter that is served
      obtain ⟨⟨u, w'⟩, hq, rfl⟩ := List.mem_map.1 hu
      have hrec : (s'.thread u).eventSet = w' := hs.receives _ hq
      have hg : Granted s' (.event o) u := by
        refine ⟨?_, fun hm => ((hmem u).1 hm).2 hu, by rw [hs.error]; exact h.error u (hsub u hu)⟩
        rw [hs.pc]
        exact Pc.waits_of_sleeps ((hl.waiting u _).1 (hsub u hu)).1
      rw [hrec, and_iff_right hg, h.granted]
      refine ⟨fun hw => ?_, fun hw => .inl (hw ▸ hq)⟩
      rcases hw with hw | hw
      · exact hrec.symm.trans (hs.receives _ hw)
      · exact absurd hw.1 (hnot u (hsub u hu))
    · have hn : (u, w) ∉ (eventServed cfg o s set).2 := fun hq => hu (List.mem_map.2 ⟨_, hq, rfl⟩)
      have hg : Granted s' (.event o) u ↔ Granted s (.event o) u := by
        unfold Granted
        rw [hs.pc, hs.error, hmem, and_iff_left hu]
      rw [or_iff_right hn, h.granted, hg, hset u hu]

omit [DecidableEq O] in
/-- `rt_event_recv` of a caller that does not wait. -/
theorem leave (h : EvInv o s g) (hr : EvLeaves o s c r) (hc : (s.pc c).waits = none)
    (hcw : ∀ q, c ∉ s.waiting q) : EvInv o (after c r) g := by
  have hmem : ∀ u ∈ (after c r).waiting (.event o), u ∈ s.waiting (.event o) := by
    intro u hu
    change u ∈ r.1.waiting _ at hu
    rwa [hr.waiting] at hu
  have hth : ∀ u, u ≠ c → (after c r).thread u = s.thread u := hr.other
  have hne : ∀ u ∈ s.waiting (.event o), u ≠ c := fun u hu e => hcw _ (e ▸ hu)
  refine { asks := fun u hu => ?_, unserved := fun u hu => ?_, error := fun u hu => ?_,
           granted := fun u w => ?_ }
  · rw [hth u (hne u (hmem u hu))]
    exact h.asks u (hmem u hu)
  · rw [hth u (hne u (hmem u hu))]
    exact eventTest_shrinks hr.event (h.unserved u (hmem u hu))
  · rw [hth u (hne u (hmem u hu))]
    exact h.error u (hmem u hu)
  · have hg : Granted (after c r) (.event o) u ↔ u ≠ c ∧ Granted s (.event o) u := by
      refine (granted_setPc (s := r.1) hr.next).trans (and_congr_right fun hu => ?_)
      unfold Granted
      rw [hr.pc, hr.waiting, hr.other u hu]
    rw [h.granted, hg]
    refine ⟨fun hu => ?_, fun hu => ⟨hu.1.2, hth u hu.1.1 ▸ hu.2⟩⟩
    have hne : u ≠ c := by
      rintro rfl
      rw [hu.1.1] at hc
      cases hc
    exact ⟨⟨hne, hu.1⟩, (hth u hne).symm ▸ hu.2⟩

/-- A caller waits. -/
theorem wait (h : EvInv o s g) (hw : Waits s c (.event o) (.eventRecv o) r) (hasks : Asks set option)
    (htest : eventTest (s.event o) set option = false) (hargs : recvArgs (r.1.thread c) = (set, option))
    (hc : (s.pc c).waits = none) : EvInv o (after c r) g := by
  obtain ⟨l, hl, hlist⟩ := hw.list
  have hmem : ∀ u ∈ (after c r).waiting (.event o), u = c ∨ u ≠ c ∧ u ∈ s.waiting (.event o) := by
    intro u hu
    change u ∈ r.1.waiting _ at hu
    rw [hlist, Function.update_self, hl.mem_iff] at hu
    by_cases huc : u = c
    · exact .inl huc
    · exact .inr ⟨huc, (List.mem_cons.1 hu).resolve_left huc⟩
  have hth : ∀ u, u ≠ c → (after c r).thread u = s.thread u := hw.other
  have hset : ((after c r).thread c).eventSet = set := congrArg Prod.fst hargs
  have hinfo : ((after c r).thread c).eventInfo = option := congrArg Prod.snd hargs
  have hev : (after c r).event o = s.event o := by
    show r.1.event o = _
    rw [hw.same]
  refine { asks := fun u hu => ?_, unserved := fun u hu => ?_, error := fun u hu => ?_,
           granted := fun u w => ?_ }
  · obtain rfl | ⟨huc, hu⟩ := hmem u hu
    · rw [hset, hinfo]
      exact hasks
    · rw [hth u huc]
      exact h.asks u hu
  · obtain rfl | ⟨huc, hu⟩ := hmem u hu
    · rw [hset, hinfo, hev]
      exact htest
    · rw [hth u huc, hev]
      exact h.unserved u hu
  · obtain rfl | ⟨huc, hu⟩ := hmem u hu
    · exact hw.error
    · rw [hth u huc]
      exact h.error u hu
  · rw [h.granted, hw.granted rfl]
    refine ⟨fun hu => ?_, fun hu => ⟨hu.1.2, hth u hu.1.1 ▸ hu.2⟩⟩
    have hne : u ≠ c := by
      rintro rfl
      rw [hu.1.1] at hc
      cases hc
    exact ⟨⟨hne, hu.1⟩, (hth u hne).symm ▸ hu.2⟩

omit [DecidableEq O] in
/-- A thread that is not on its way back from the event goes on. -/
theorem setPc {p : Pc O} (h : EvInv o s g) (hp : p.waits = none) (hc : (s.pc c).waits = none) :
    EvInv o (s.setPc c p) g := by
  refine { asks := h.asks, unserved := h.unserved, error := h.error, granted := fun u w => ?_ }
  rw [h.granted, granted_setPc hp]
  refine ⟨fun hu => ⟨⟨?_, hu.1⟩, hu.2⟩, fun hu => ⟨hu.1.2, hu.2⟩⟩
  rintro rfl
  rw [hu.1.1] at hc
  cases hc

/-- `rt_event_send`, with its test for the empty set. -/
theorem sends (h : EvInv o s g) (hl : Live cfg idle s) (hr : s.rtEventSend cfg o set = some r) :
    EvInv o r.1 (if set ≠ 0#32 then (eventServed cfg o s set).2 ++ g else g) ∧ r.1.pc = s.pc ∧
      r.2.pc.waits = none := by
  by_cases hset : set = 0#32
  · rw [if_neg (not_not.2 hset)]
    unfold rtEventSend at hr
    rw [if_pos hset] at hr
    cases hr
    exact ⟨h, rfl, rfl⟩
  · rw [if_pos hset]
    obtain ⟨hs, hp⟩ := rtEventSend_ok idle hl.inv hset h.asks hr
    exact ⟨h.send hl hs, hs.pc, hp⟩

omit [DecidableEq O] in
/-- A waiter returns. -/
theorem back {p : Pc O} (h : EvInv o s g) (hp : p.waits = none) :
    EvInv o (s.setPc c p) (g.filter fun q => q.1 ≠ c) := by
  refine { asks := h.asks, unserved := h.unserved, error := h.error, granted := fun u w => ?_ }
  rw [List.mem_filter, h.granted, granted_setPc hp, decide_eq_true_eq]
  exact ⟨fun hu => ⟨⟨hu.2, hu.1.1⟩, hu.1.2⟩, fun hu => ⟨⟨hu.1.2, hu.2⟩, hu.1.1⟩⟩

end EvInv

theorem evLog_away (h : .event o ∉ a.lists s) : evLog cfg o s a s' g = g := by
  cases a with
  | call b =>
    cases b with
    | eventSend o' set =>
      refine if_neg ?_
      rintro ⟨rfl, -⟩
      exact h List.mem_cons_self
    | _ => rfl
  | isr i =>
    cases i with
    | eventSend o' set =>
      refine if_neg ?_
      rintro ⟨rfl, -⟩
      exact h List.mem_cons_self
    | _ => rfl
  | cont elapsed =>
    simp only [evLog]
    split
    · rename_i c hc
      split
      · rename_i o' hpc
        refine if_neg ?_
        rintro rfl
        rw [Act.lists_cont hc hpc] at h
        exact h List.mem_cons_self
      · rfl
    · rfl
  | _ => rfl

/-- **Every quiet step keeps to it.** -/
theorem ev_step (hq : Quiet cfg idle s) (ha : a.quiet = true) (hs : s.step cfg idle a = some s')
    (h : EvInv o s g) : EvInv o s' (evLog cfg o s a s' g) := by
  by_cases hW : .event o ∈ a.lists s
  swap
  · rw [evLog_away hW]
    exact h.away ((objects_step hq.toSound hs).event o hW) (away_step hq ha hs hW)
  cases step_cases hq.inv hq.user hs with
  | @call a c e out r hc hh hidle hpc hr hcd =>
    have hcw := hq.not_waiting (hq.running hc (by rw [hpc]; nofun))
    have hpcw : (s.pc c).waits = none := by rw [hpc]; rfl
    cases a with
    | eventSend o' set =>
      obtain rfl : o = o' := by simpa [Act.lists, Call.lists] using hW
      obtain ⟨hsend, hpc', hp⟩ := h.sends hq.toLive hr
      simp only [evLog, true_and]
      exact hsend.setPc hp (by rw [hpc', hpc]; rfl)
    | eventRecv o' set option timeout =>
      obtain rfl : o = o' := by simpa [Act.lists, Call.lists] using hW
      obtain hr | ⟨hw, hasks, htest, hargs⟩ := rtEventRecv_ok hq.inv hc hr
      · exact h.leave hr hpcw hcw
      · exact h.wait hw hasks htest hargs hpcw
    | _ => exact absurd hW (by simp [Act.lists, Call.lists])
  | @cont c k elapsed r hc hh hidle hpc hr hf =>
    rw [Act.lists_cont hc hpc] at hW
    cases k with
    | eventRecv o' =>
      obtain rfl : o = o' := by simpa [Cont.lists] using hW
      simp only [evLog, hc, hpc, if_true]
      have hr' : r = s.eventRecvResumed c := (Option.some.inj hr).symm
      have hret : r.1 = s ∧ r.2.pc.waits = none := by
        rw [hr']
        unfold eventRecvResumed
        simp only
        split <;> exact ⟨rfl, rfl⟩
      unfold after
      rw [hret.1]
      exact h.back hret.2
    | _ => exact absurd hW (by simp [Cont.lists])
  | @isr i c r hc ht hr hf =>
    obtain ⟨l, hl⟩ := handled_eq r
    rw [hl]
    cases i with
    | eventSend o' set =>
      obtain rfl : o = o' := by simpa [Act.lists, Isr.lists] using hW
      simp only [evLog, true_and]
      exact (h.sends hq.toLive hr).1.of_handlers l
    | _ => exact absurd hW (by simp [Act.lists, Isr.lists])
  | timeout => exact absurd hW (by simp [Act.lists, Isr.lists])
  | isrSchedule hh => exact absurd hW (by simp [Act.lists_isrCont hh, Next.lists, Cont.lists])
  | @isrCont handlers k r hh hr hf =>
    rw [Act.lists_isrCont hh] at hW
    cases k with
    | eventRecv => cases hr
    | _ => exact absurd hW (by simp [Next.lists, Cont.lists])
  | _ => exact absurd hW (by simp [Act.lists])

/-- **An event loses no wake-up and treats waiters like callers**, in every run without signals: nobody
waits for what is there; a send serves the waiters in their order as if they called, and resumes just
those it serves; and each of these returns what it was served. -/
theorem event_served {p : Kernel T O × List (T × BitVec 32)}
    (h : LogRuns cfg idle (fun _ a => a.quiet = true) (fun _ => []) (evLog cfg o) p) :
    (∀ t ∈ p.1.waiting (.event o),
      eventTest (p.1.event o) (p.1.thread t).eventSet (p.1.thread t).eventInfo = false) ∧
    (∀ set r, set ≠ 0#32 → p.1.rtEventSend cfg o set = some r →
      r.1.event o = (eventServed cfg o p.1 set).1 ∧
      r.1.waiting (.event o) =
        (p.1.waiting (.event o)).filter (· ∉ (eventServed cfg o p.1 set).2.map Prod.fst)) ∧
    ∀ c elapsed w, p.1.sched.current = some c → p.1.pc c = .cont (.eventRecv o) →
      (p.1.outcome cfg (.cont elapsed) = some (.eok, .word w) ↔ (c, w) ∈ p.2) := by
  have hinv : Quiet cfg idle p.1 ∧ EvInv o p.1 p.2 :=
    Run.Reach.inv_logged (I := fun s g => Quiet cfg idle s ∧ EvInv o s g)
      (fun _ hs => ⟨.of_init hs, .of_init hs⟩)
      (fun _ _ _ _ hI hok hs => ⟨quiet_step hI.1 hok hs, ev_step hI.1 hok hs hI.2⟩) h
  obtain ⟨hq, hinv⟩ := hinv
  refine ⟨hinv.unserved, fun set r hset hr => ?_, fun c elapsed w hc hpc => ?_⟩
  · obtain ⟨hs, -⟩ := rtEventSend_ok idle hq.inv hset hinv.asks hr
    exact ⟨hs.event, hs.waiting⟩
  · have hrun := hq.running hc (by rw [hpc]; nofun)
    have hg : Granted p.1 (.event o) c ↔ (p.1.thread c).error = .eok :=
      ⟨fun h => h.2.2, fun h => ⟨by rw [hpc]; rfl, hq.not_waiting hrun _, h⟩⟩
    have hout : p.1.outcome cfg (.cont elapsed) = (p.1.eventRecvResumed c).2.result := by
      simp [outcome, ran, hc, hpc, resume]
    rw [hout, hinv.granted, hg]
    unfold eventRecvResumed
    simp only
    split
    · rename_i he
      refine iff_of_false (fun h => ?_) fun h => he h.1
      simp only [Next.result, Option.some.injEq, Prod.mk.injEq] at h
      exact he h.1
    · rename_i he
      rw [and_iff_right (not_not.1 he)]
      exact ⟨fun h => by cases h; rfl, fun h => by rw [← h]; rfl⟩

/-- Two threads wait for the bits 1 and 2, the first one to clear them; both are sent. -/
theorem event_served_two : ∃ p : Kernel ℕ Unit × List (ℕ × BitVec 32),
    (p.1.waiting (.event ()) = [2] ∧ p.2 = [(1, 3#32)]) ∧
    (∀ t ∈ p.1.waiting (.event ()),
      eventTest (p.1.event ()) (p.1.thread t).eventSet (p.1.thread t).eventInfo = false) ∧
    (∀ set r, set ≠ 0#32 → p.1.rtEventSend board () set = some r →
      r.1.event () = (eventServed board () p.1 set).1 ∧
      r.1.waiting (.event ()) =
        (p.1.waiting (.event ())).filter (· ∉ (eventServed board () p.1 set).2.map Prod.fst)) ∧
    ∀ c elapsed w, p.1.sched.current = some c → p.1.pc c = .cont (.eventRecv ()) →
      (p.1.outcome board (.cont elapsed) = some (.eok, .word w) ↔ (c, w) ∈ p.2) := by
  obtain ⟨p, hp, h⟩ := Run.Reach.exec_logged (fun s a => s.step board 255 a) (fun _ => [])
    (evLog board ()) (fun _ a => a.quiet = true) (Kernel.onBoard_init Unit)
    [.boot 255, .boot 1, .boot 2, .start, .call (.eventRecv () 3#32 5#8 10), .schedule,
      .call (.eventRecv () 2#32 2#8 10), .schedule, .isr (.eventSend () 3#32)]
    (fun p => decide (p.1.waiting (.event ()) = [2] ∧ p.2 = [(1, 3#32)])) (by decide)
  exact ⟨p, of_decide_eq_true h, event_served hp⟩

end RtThread.Ipc
