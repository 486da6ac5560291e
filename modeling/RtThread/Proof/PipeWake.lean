import RtThread.Proof.Pipe

/-!
# Nobody is stranded on a pipe

The two wait queues are two views of a pipe, each with its threads that sleep and those that are on the way to
wake them up (`Lib/WaitQueue.lean`).

* `Follows`, `Serves.follow`: steps that leave both queues alone.
* `Serves.wake`, `Serves.retry`, `Serves.sleep`: wake-ups, and what a thread does in `rt_wqueue_wait`.
* `cont_serves`: nobody waits for what is there, unless somebody is on the way, after any step of a call.
* `none_stranded`: nobody is stranded where everybody is quiet, in every run that leaves nobody behind.
* `reader_stranded`: a reader sleeps on a byte that another has left.
-/

namespace RtThread.Pipe

open Ringbuffer WaitQueue

variable {T : Type} [DecidableEq T] {cfg : Config} {s s₁ s' : State T} {a : Act T} {t : T} {p p' : Call}
  {side : Side} {n n' : BitVec 8}

/-- The other side. -/
def Side.other : Side → Side
  | .readers => .writers
  | .writers => .readers

/-- `rt_wqueue_wakeup` of the queue of a side. -/
def State.wake (s : State T) : Side → State T
  | .readers => s.wakeReaders
  | .writers => s.wakeWriters

/-- The queue of a side and its threads are the same. -/
structure Same (side : Side) (s s₁ : State T) : Prop where
  phase : ∀ t, (s₁.call t).phase side = (s.call t).phase side
  wakes : ∀ t n, (s₁.call t).wakes n side = (s.call t).wakes n side
  queue : s₁.queue side = s.queue side

/-- To the queue of a side a thread stays what it was, or it becomes a waker or nothing. -/
structure Follows (n n' : BitVec 8) (side : Side) (p p' : Call) : Prop where
  retry : p.phase side = .retry → p'.phase side = .retry
  wakes : p.wakes n side = true → p'.wakes n' side = true
  asleep : p'.phase side = .asleep ↔ p.phase side = .asleep
  about : p'.phase side = .about → p.phase side = .about

theorem Follows.of_eq (hphase : p'.phase side = p.phase side)
    (hwakes : p.wakes n side = true → p'.wakes n' side = true) : Follows n n' side p p' :=
  ⟨fun h => hphase.trans h, hwakes, by rw [hphase], fun h => hphase.symm.trans h⟩

theorem both_sides {P : Side → Prop} (hr : P .readers) (hw : P .writers) : ∀ side, P side
  | .readers => hr
  | .writers => hw

/-- Both queues hold the threads that sleep in them, and nobody waits for what is there. -/
def Serves (s : State T) : Prop := ∀ side, Linked (s.view side) ∧ Served (s.view side)

theorem setCall_of_ne {u : T} (h : u ≠ t) : (s₁.setCall t p).call u = s₁.call u := Function.update_of_ne h _ _

theorem setCall_phase {u : T} (h : u ≠ t) : ((s₁.setCall t p).call u).phase side = (s₁.call u).phase side := by
  rw [setCall_of_ne h]

theorem setCall_self : (s₁.setCall t p).call t = p := Function.update_self ..

@[simp] theorem setCall_queue : (s₁.setCall t p).queue side = s₁.queue side := by cases side <;> rfl

@[simp] theorem setCall_count : (s₁.setCall t p).count side = s₁.count side := by cases side <;> rfl

@[simp] theorem setCall_ready : (s₁.setCall t p).ready side = s₁.ready side := by cases side <;> rfl

/-- No thread but `t` does anything. -/
theorem Same.only (h : Same side s s₁)
    (hwakes : ∀ u, u ≠ t → (s.call u).wakes (s.count side) side = true →
      (s.call u).wakes (s₁.count side) side = true) :
    Only (s.view side) ((s₁.setCall t p).view side) t := by
  refine ⟨fun u hu => ?_, fun u hu hw => ?_, fun hflag => ?_⟩
  · exact (setCall_phase hu).trans (h.phase u)
  · show ((s₁.setCall t p).call u).wakes ((s₁.setCall t p).count side) side = true
    rw [setCall_count, setCall_of_ne hu, h.wakes]
    exact hwakes u hu hw
  · show ((s₁.setCall t p).queue side).flag = true
    rw [setCall_queue, h.queue]
    exact hflag

/-- What a thread that does not sleep is to the queue that it leaves alone. -/
theorem linked_setCall (h : Linked (s.view side)) (hsame : Same side s s₁)
    (hasleep : p.phase side = .asleep ↔ (s.call t).phase side = .asleep) :
    Linked ((s₁.setCall t p).view side) := by
  refine h.move (t := t) ?_ (fun u hu => (setCall_phase hu).trans (hsame.phase u)) ?_
  · show ((s₁.setCall t p).queue side).waitingList = _
    rw [setCall_queue, hsame.queue]
    rfl
  · show ((s₁.setCall t p).call t).phase side = .asleep ↔ _
    rw [setCall_self]
    exact hasleep

/-- A step that leaves the queue of a side alone. -/
theorem served_setCall (h : Served (s.view side)) (hsame : Same side s s₁) (hready : s₁.ready side → s.ready side)
    (hwakes : ∀ u, u ≠ t → (s.call u).wakes (s.count side) side = true →
      (s.call u).wakes (s₁.count side) side = true)
    (hf : Follows (s.count side) (s₁.count side) side (s.call t) p) : Served ((s₁.setCall t p).view side) := by
  have hphase : ((s₁.setCall t p).view side).phase t = p.phase side := by
    show ((s₁.setCall t p).call t).phase side = _
    rw [setCall_self]
  have hsetReady : ((s₁.setCall t p).view side).ready = s₁.ready side := setCall_ready
  refine h.move (t := t) (fun hr => hready (hsetReady ▸ hr)) (hsame.only hwakes) ?_ ?_ ?_ ?_
  · rw [hphase]
    exact hf.retry
  · intro hw
    show ((s₁.setCall t p).call t).wakes ((s₁.setCall t p).count side) side = true
    rw [setCall_self, setCall_count]
    exact hf.wakes hw
  · rw [hphase]
    exact hf.asleep.1
  · rw [hphase]
    exact hf.about

/-- A thread that is about to wake up the queue of a side. -/
theorem served_waker (h : p.wakes (s₁.count side) side = true) : Served ((s₁.setCall t p).view side) := by
  refine .of_waker (t := t) ?_
  show ((s₁.setCall t p).call t).wakes ((s₁.setCall t p).count side) side = true
  rw [setCall_self, setCall_count]
  exact h

/-- A thread that has yet to try again. -/
theorem served_retry (h : p.phase side = .retry) : Served ((s₁.setCall t p).view side) := by
  refine .of_retry (t := t) ?_
  show ((s₁.setCall t p).call t).phase side = .retry
  rw [setCall_self]
  exact h

/-! ## Wake-ups -/

theorem asleep_reader (h : p.phase .readers = .asleep) : ∃ fd count, p = .readSuspended fd count := by
  cases p with
  | readSuspended fd count => exact ⟨fd, count, rfl⟩
  | readLock fd count retry => cases retry <;> cases h
  | readLoop fd count retry => cases retry <;> cases h
  | _ => cases h

theorem asleep_writer (h : p.phase .writers = .asleep) : ∃ fd buf ret, p = .writeSuspended fd buf ret := by
  cases p with
  | writeSuspended fd buf ret => exact ⟨fd, buf, ret, rfl⟩
  | writeLock fd buf ret wakeup => cases wakeup <;> cases h
  | writeLoop fd buf ret wakeup => cases wakeup <;> cases h
  | _ => cases h

theorem wake_nil (h : (s.queue side).waitingList = []) :
    (s.wake side).call = s.call ∧ (s.wake side).queue side = ⟨true, []⟩ := by
  cases side with
  | readers =>
    show s.wakeReaders.call = s.call ∧ s.wakeReaders.readerQueue = ⟨true, []⟩
    unfold State.wakeReaders
    rw [show s.readerQueue.waitingList = [] from h]
    exact ⟨rfl, rfl⟩
  | writers =>
    show s.wakeWriters.call = s.call ∧ s.wakeWriters.writerQueue = ⟨true, []⟩
    unfold State.wakeWriters
    rw [show s.writerQueue.waitingList = [] from h]
    exact ⟨rfl, rfl⟩

/-- The thread that a wake-up resumes has yet to try again. -/
theorem wake_cons {u : T} {l : List T} (h : (s.queue side).waitingList = u :: l)
    (hu : (s.call u).phase side = .asleep) :
    ∃ p, p.phase side = .retry ∧ (s.wake side).call = Function.update s.call u p ∧
      (s.wake side).queue side = ⟨true, l⟩ := by
  cases side with
  | readers =>
    obtain ⟨fd, count, hc⟩ := asleep_reader hu
    refine ⟨.readResumed fd count, rfl, ?_⟩
    show s.wakeReaders.call = _ ∧ s.wakeReaders.readerQueue = ⟨true, l⟩
    unfold State.wakeReaders
    rw [show s.readerQueue.waitingList = u :: l from h]
    simp only [hc]
    exact ⟨rfl, rfl⟩
  | writers =>
    obtain ⟨fd, buf, ret, hc⟩ := asleep_writer hu
    refine ⟨.writeResumed fd buf ret, rfl, ?_⟩
    show s.wakeWriters.call = _ ∧ s.wakeWriters.writerQueue = ⟨true, l⟩
    unfold State.wakeWriters
    rw [show s.writerQueue.waitingList = u :: l from h]
    simp only [hc]
    exact ⟨rfl, rfl⟩

/-- A wake-up is nothing to the other side. -/
theorem same_wake (s : State T) (side : Side) : Same side.other s (s.wake side) := by
  cases side with
  | readers =>
    show Same .writers s s.wakeReaders
    unfold State.wakeReaders
    split
    · exact ⟨fun _ => rfl, fun _ _ => rfl, rfl⟩
    · rename_i u l _
      split
      · rename_i fd count hc
        have hothers : ∀ t, t ≠ u → (({ s with readerQueue := ⟨true, l⟩ } : State T).setCall u
            (.readResumed fd count)).call t = s.call t := fun t ht => setCall_of_ne ht
        refine ⟨fun t => ?_, fun t n => ?_, rfl⟩
        · by_cases ht : t = u
          · rw [ht, setCall_self, hc]
            rfl
          · rw [hothers t ht]
        · by_cases ht : t = u
          · rw [ht, setCall_self, hc]
            rfl
          · rw [hothers t ht]
      · exact ⟨fun _ => rfl, fun _ _ => rfl, rfl⟩
  | writers =>
    show Same .readers s s.wakeWriters
    unfold State.wakeWriters
    split
    · exact ⟨fun _ => rfl, fun _ _ => rfl, rfl⟩
    · rename_i u l _
      split
      · rename_i fd buf ret hc
        have hothers : ∀ t, t ≠ u → (({ s with writerQueue := ⟨true, l⟩ } : State T).setCall u
            (.writeResumed fd buf ret)).call t = s.call t := fun t ht => setCall_of_ne ht
        refine ⟨fun t => ?_, fun t n => ?_, rfl⟩
        · by_cases ht : t = u
          · rw [ht, setCall_self, hc]
            rfl
          · rw [hothers t ht]
        · by_cases ht : t = u
          · rw [ht, setCall_self, hc]
            rfl
          · rw [hothers t ht]
      · exact ⟨fun _ => rfl, fun _ _ => rfl, rfl⟩

@[simp] theorem wake_ready (side' : Side) : (s.wake side).ready side' = s.ready side' := by
  cases side <;> cases side' <;> simp [State.wake, State.ready, State.data, State.room, State.openWriters,
    State.openReaders]

@[simp] theorem wake_count (side' : Side) : (s.wake side).count side' = s.count side' := by
  cases side <;> cases side' <;> simp [State.wake, State.count]

omit [DecidableEq T] in
theorem same_refl (s : State T) : Same side s s := ⟨fun _ => rfl, fun _ _ => rfl, rfl⟩

omit [DecidableEq T] in
theorem same_of_eq (hcall : s₁.call = s.call) (hr : s₁.readerQueue = s.readerQueue)
    (hw : s₁.writerQueue = s.writerQueue) (side : Side) : Same side s s₁ := by
  refine ⟨fun u => ?_, fun u n => ?_, ?_⟩
  · rw [hcall]
  · rw [hcall]
  · cases side
    · exact hr
    · exact hw

/-- **A wake-up** serves its queue. -/
theorem wake_served (h : Linked (s.view side)) (ht : (s.call t).phase side ≠ .asleep)
    (hp : p.phase side ≠ .asleep) :
    Linked (((s.wake side).setCall t p).view side) ∧ Served (((s.wake side).setCall t p).view side) := by
  cases hl : (s.queue side).waitingList with
  | nil =>
    obtain ⟨hcall, hqueue⟩ := wake_nil hl
    have hasleep : ∀ u, (s.call u).phase side ≠ .asleep := by
      intro u hu
      have hmem : u ∈ (s.queue side).waitingList := (h.asleep u).1 hu
      rw [hl] at hmem
      cases hmem
    have hwake : Linked ((s.wake side).view side) := by
      refine ⟨?_, fun u => ⟨fun hu => ?_, fun hu => ?_⟩⟩
      · show ((s.wake side).queue side).waitingList.Nodup
        rw [hqueue]
        exact List.nodup_nil
      · refine absurd ?_ (hasleep u)
        rw [← hcall]
        exact hu
      · have hmem : u ∈ ((s.wake side).queue side).waitingList := hu
        rw [hqueue] at hmem
        cases hmem
    have hlinked : Linked (((s.wake side).setCall t p).view side) := by
      refine linked_setCall hwake (same_refl _) ?_
      rw [hcall]
      exact iff_of_false hp ht
    refine ⟨hlinked, .of_flag ?_ fun u hu => ?_⟩
    · show (((s.wake side).setCall t p).queue side).flag = true
      rw [setCall_queue, hqueue]
    · have hmem : u ∈ (((s.wake side).setCall t p).queue side).waitingList := (hlinked.asleep u).1 hu
      rw [setCall_queue, hqueue] at hmem
      cases hmem
  | cons u l =>
    have hu : (s.call u).phase side = .asleep := (h.asleep u).2 (by
      show u ∈ (s.queue side).waitingList
      rw [hl]
      exact List.mem_cons_self)
    have hut : u ≠ t := by
      rintro rfl
      exact ht hu
    obtain ⟨p', hretry, hcall, hqueue⟩ := wake_cons hl hu
    have hothers : ∀ w, w ≠ u → (s.wake side).call w = s.call w := by
      intro w hw
      rw [hcall, Function.update_of_ne hw]
    have hresumed : (s.wake side).call u = p' := by rw [hcall, Function.update_self]
    have hwake : Linked ((s.wake side).view side) := by
      refine h.wake hl (congrArg Wqueue.waitingList hqueue) (fun w hw => ?_) ?_
      · exact congrArg (Call.phase side) (hothers w hw)
      · show ((s.wake side).call u).phase side ≠ .asleep
        rw [hresumed, hretry]
        nofun
    constructor
    · refine linked_setCall hwake (same_refl _) ?_
      rw [hothers t hut.symm]
      exact iff_of_false hp ht
    · refine .of_retry (t := u) ?_
      show (((s.wake side).setCall t p).call u).phase side = .retry
      rw [setCall_of_ne hut, hresumed]
      exact hretry

/-! ## Steps -/

/-- **A step that leaves both queues alone.** -/
theorem Serves.follow (h : Serves s) (hsame : ∀ side, Same side s s₁)
    (hready : ∀ side, s₁.ready side → s.ready side) (hcount : ∀ side, s₁.count side = s.count side)
    (hf : ∀ side, Follows (s.count side) (s.count side) side (s.call t) p) : Serves (s₁.setCall t p) := by
  intro side
  refine ⟨linked_setCall (h side).1 (hsame side) (hf side).asleep, ?_⟩
  refine served_setCall (h side).2 (hsame side) (hready side) (fun u _ hu => ?_) ?_
  · rw [hcount side]
    exact hu
  · rw [hcount side]
    exact hf side

/-- **A wake-up** of one side, and what the thread does is nothing to the other. -/
theorem Serves.wake (h : Serves s) (side : Side) (ht : (s.call t).phase side ≠ .asleep)
    (hp : p.phase side ≠ .asleep)
    (hf : Follows (s.count side.other) (s.count side.other) side.other (s.call t) p) :
    Serves ((s.wake side).setCall t p) := by
  have hother : Linked (((s.wake side).setCall t p).view side.other) ∧
      Served (((s.wake side).setCall t p).view side.other) := by
    refine ⟨linked_setCall (h side.other).1 (same_wake s side) hf.asleep, ?_⟩
    have hready : (s.wake side).ready side.other = s.ready side.other := wake_ready side.other
    refine served_setCall (h side.other).2 (same_wake s side) (fun hr => hready ▸ hr) (fun u _ hu => ?_) ?_
    · rw [wake_count]
      exact hu
    · rw [wake_count]
      exact hf
  intro side'
  cases side with
  | readers =>
    cases side' with
    | readers => exact wake_served (h .readers).1 ht hp
    | writers => exact hother
  | writers =>
    cases side' with
    | readers => exact hother
    | writers => exact wake_served (h .writers).1 ht hp

/-- The step changes the queue of a side only. -/
structure InQueue (side : Side) (s s₁ : State T) : Prop where
  call : s₁.call = s.call
  other : s₁.queue side.other = s.queue side.other
  count : ∀ side, s₁.count side = s.count side
  ready : ∀ side, s₁.ready side = s.ready side

theorem InQueue.serves (hin : InQueue side s s₁) (h : Serves s)
    (hside : Linked ((s₁.setCall t p).view side) ∧ Served ((s₁.setCall t p).view side))
    (hf : Follows (s.count side.other) (s.count side.other) side.other (s.call t) p) : Serves (s₁.setCall t p) := by
  have hsame : Same side.other s s₁ := by
    refine ⟨fun u => ?_, fun u n => ?_, hin.other⟩
    · rw [hin.call]
    · rw [hin.call]
  have hother : Linked ((s₁.setCall t p).view side.other) ∧ Served ((s₁.setCall t p).view side.other) := by
    refine ⟨linked_setCall (h side.other).1 hsame hf.asleep, ?_⟩
    refine served_setCall (h side.other).2 hsame (fun hr => hin.ready side.other ▸ hr) (fun u _ hu => ?_) ?_
    · rw [hin.count]
      exact hu
    · rw [hin.count]
      exact hf
  intro side'
  cases side with
  | readers =>
    cases side' with
    | readers => exact hside
    | writers => exact hother
  | writers =>
    cases side' with
    | readers => exact hother
    | writers => exact hside

/-- **A thread clears the flag** and has yet to try again. -/
theorem Serves.retry (h : Serves s) (side : Side) (hin : InQueue side s s₁)
    (hlist : (s₁.queue side).waitingList = (s.queue side).waitingList) (ht : (s.call t).phase side ≠ .asleep)
    (hp : p.phase side = .retry)
    (hf : Follows (s.count side.other) (s.count side.other) side.other (s.call t) p) :
    Serves (s₁.setCall t p) := by
  refine hin.serves h ⟨?_, served_retry hp⟩ hf
  refine (h side).1.move (t := t) ?_ (fun u hu => ?_) ?_
  · show ((s₁.setCall t p).queue side).waitingList = _
    rw [setCall_queue, hlist]
    rfl
  · show ((s₁.setCall t p).call u).phase side = _
    rw [setCall_of_ne hu, hin.call]
    rfl
  · show ((s₁.setCall t p).call t).phase side = .asleep ↔ _
    rw [setCall_self, hp]
    exact iff_of_false nofun ht

/-- **A thread falls asleep** with the flag clear. -/
theorem Serves.sleep (h : Serves s) (side : Side) (hin : InQueue side s s₁)
    (hqueue : s₁.queue side = ⟨(s.queue side).flag, (s.queue side).waitingList ++ [t]⟩)
    (hflag : (s.queue side).flag = false) (ht : (s.call t).phase side = .about)
    (hwakes : (s.call t).wakes (s.count side) side = false) (hp : p.phase side = .asleep)
    (hf : Follows (s.count side.other) (s.count side.other) side.other (s.call t) p) :
    Serves (s₁.setCall t p) := by
  have hphase : ∀ u, u ≠ t → ((s₁.setCall t p).view side).phase u = (s.view side).phase u := by
    intro u hu
    show ((s₁.setCall t p).call u).phase side = _
    rw [setCall_of_ne hu, hin.call]
    rfl
  have hself : ((s₁.setCall t p).view side).phase t = .asleep := by
    show ((s₁.setCall t p).call t).phase side = .asleep
    rw [setCall_self]
    exact hp
  refine hin.serves h ⟨?_, ?_⟩ hf
  · refine (h side).1.sleep ?_ hphase ?_ hself
    · show ((s₁.setCall t p).queue side).waitingList = _
      rw [setCall_queue, hqueue]
      rfl
    · show (s.call t).phase side ≠ .asleep
      rw [ht]
      nofun
  · refine (h side).2.sleep (t := t) (fun hr => ?_) ⟨hphase, fun u hu hw => ?_, fun hf => ?_⟩ hflag ht hwakes
    · have hr' : (s₁.setCall t p).ready side := hr
      rw [setCall_ready, hin.ready] at hr'
      exact hr'
    · show ((s₁.setCall t p).call u).wakes ((s₁.setCall t p).count side) side = true
      rw [setCall_count, setCall_of_ne hu, hin.call, hin.count]
      exact hw
    · have hf' : (s.queue side).flag = true := hf
      rw [hflag] at hf'
      cases hf'

/-- **A thread ends its try**: the others are backed if it had waited. -/
theorem served_end (h : Served (s.view side)) (hsame : Same side s s₁) (hcount : s₁.count side = s.count side)
    (hready : s₁.ready side → s.ready side) (hp : p.phase side = .away)
    (hwakes : (s.call t).wakes (s.count side) side = false)
    (hbacked : (s.call t).phase side = .away ∨ (s₁.ready side → Backed (s.view side) (· ≠ t))) :
    Served ((s₁.setCall t p).view side) := by
  have hothers : ∀ u, u ≠ t → (s.call u).wakes (s.count side) side = true →
      (s.call u).wakes (s₁.count side) side = true := by
    intro u _ hu
    rw [hcount]
    exact hu
  rcases hbacked with haway | hbacked
  · refine served_setCall h hsame hready hothers (.of_eq (hp.trans haway.symm) fun hw => ?_)
    rw [hwakes] at hw
    cases hw
  · by_cases hr : s₁.ready side
    · refine (hbacked hr).served (hsame.only hothers) ?_
      show ((s₁.setCall t p).call t).phase side = .away
      rw [setCall_self]
      exact hp
    · refine .of_not_ready fun hr' => hr ?_
      have hr'' : (s₁.setCall t p).ready side := hr'
      rwa [setCall_ready] at hr''

/-- A step that changes the mutex at most. -/
theorem Serves.lock (h : Serves s) (lock : Option T)
    (hr : Follows (s.count .readers) (s.count .readers) .readers (s.call t) p)
    (hw : Follows (s.count .writers) (s.count .writers) .writers (s.call t) p) :
    Serves ({ s with lock := lock }.setCall t p) :=
  h.follow (same_of_eq rfl rfl rfl) (both_sides id id) (both_sides rfl rfl) (both_sides hr hw)

/-! ## The mutex -/

/-- The thread owns the mutex. -/
def Call.locked : Call → Bool
  | .closeReaders | .closeWriters | .closeEnd | .readLoop .. | .readRelease .. | .readWake _ | .readOut _
  | .writeLoop .. | .writeRelease .. | .writeEnd .. => true
  | _ => false

def Locked (s : State T) : Prop := ∀ t, (s.call t).locked = true → s.lock = some t

theorem Locked.keep (h : Locked s) (hcall : ∀ u, (s₁.call u).locked = (s.call u).locked) (hlock : s₁.lock = s.lock)
    (hp : p.locked = true → (s.call t).locked = true) : Locked (s₁.setCall t p) := by
  intro u hu
  show s₁.lock = some u
  rw [hlock]
  by_cases hut : u = t
  · rw [hut, setCall_self] at hu
    rw [hut]
    exact h t (hp hu)
  · rw [setCall_of_ne hut, hcall] at hu
    exact h u hu

theorem Locked.acquire (h : Locked s) (hfree : s.lock = none) (hcall : s₁.call = s.call) (hlock : s₁.lock = some t) :
    Locked (s₁.setCall t p) := by
  intro u hu
  show s₁.lock = some u
  by_cases hut : u = t
  · rw [hlock, hut]
  · rw [setCall_of_ne hut, hcall] at hu
    rw [h u hu] at hfree
    cases hfree

theorem Locked.release (h : Locked s) (ht : (s.call t).locked = true) (hcall : s₁.call = s.call)
    (hp : p.locked = false) : Locked (s₁.setCall t p) := by
  intro u hu
  by_cases hut : u = t
  · rw [hut, setCall_self, hp] at hu
    cases hu
  · rw [setCall_of_ne hut, hcall] at hu
    have heq : some t = some u := (h t ht).symm.trans (h u hu)
    exact absurd (Option.some.inj heq).symm hut

omit [DecidableEq T] in
theorem Locked.unlocked (h : Locked s) (hfree : s.lock = none) (u : T) : (s.call u).locked = false := by
  by_contra hu
  rw [h u (eq_true_of_ne_false hu)] at hfree
  cases hfree

theorem wake_locked (s : State T) (side : Side) (u : T) : ((s.wake side).call u).locked = (s.call u).locked := by
  cases side with
  | readers =>
    show (s.wakeReaders.call u).locked = _
    unfold State.wakeReaders
    split
    · rfl
    · rename_i w l _
      split
      · rename_i hc
        by_cases huw : u = w
        · rw [huw, setCall_self, hc]
          rfl
        · rw [setCall_of_ne huw]
      · rfl
  | writers =>
    show (s.wakeWriters.call u).locked = _
    unfold State.wakeWriters
    split
    · rfl
    · rename_i w l _
      split
      · rename_i hc
        by_cases huw : u = w
        · rw [huw, setCall_self, hc]
          rfl
        · rw [setCall_of_ne huw]
      · rfl

/-- What a thread that does not own the mutex is about to wake up does not depend on the counters. -/
theorem wakes_unlocked (h : p.locked = false) (hw : p.wakes n side = true) : p.wakes n' side = true := by
  cases p <;> cases side <;> first | exact hw | cases h

/-! ## Every step -/

/-- What the runs keep. -/
structure Sound (s : State T) : Prop where
  counts : Counts s
  fifo : ∀ rb, s.fifo = some rb → ∃ q, Holds rb q
  locked : Locked s
  serves : Serves s

theorem fifo_step (h : ∀ rb, s.fifo = some rb → ∃ q, Holds rb q) (hs : s.step cfg a = some s') :
    ∀ rb, s'.fifo = some rb → ∃ q, Holds rb q := by
  intro rb' hrb'
  cases step_cases hs ⟨[], []⟩ with
  | same hfifo _ _ => exact h rb' (hfifo ▸ hrb')
  | opened t fd _ _ _ hnew hold _ _ _ _ =>
    by_cases hr : s.refCount = 0#8
    · obtain ⟨-, rb, hcreate, hfifo⟩ := hnew hr
      obtain rfl : rb = rb' := Option.some.inj (hfifo.symm.trans hrb')
      exact ⟨[], create_holds hcreate⟩
    · exact h rb' (hold hr ▸ hrb')
  | closed t fd _ _ _ hfifo _ _ _ _ _ => exact h rb' (hfifo ▸ hrb')
  | destroy hfifo _ =>
    rw [hfifo] at hrb'
    cases hrb'
  | get rb n hold hfifo _ _ =>
    obtain ⟨q, hq⟩ := h rb hold
    obtain rfl : _ = rb' := Option.some.inj (hfifo.symm.trans hrb')
    split
    · exact ⟨_, (hq.get n).2.2⟩
    · exact ⟨q, hq⟩
  | put rb d hold hfifo _ _ =>
    obtain ⟨q, hq⟩ := h rb hold
    obtain rfl : _ = rb' := Option.some.inj (hfifo.symm.trans hrb')
    exact ⟨_, (hq.put d).2⟩

omit [DecidableEq T] in
/-- A file more: whoever had no other side has none that is not new. -/
theorem ready_of_more {fd : File} (hfiles : s₁.files = fd :: s.files)
    (hdata : s₁.data ≠ [] → s.ready .readers) (hroom : s₁.room ≠ 0 → s.ready .writers) :
    s₁.ready side → s.ready side := by
  cases side with
  | readers =>
    rintro (h | h)
    · exact hdata h
    · right
      rw [State.openWriters, hfiles, List.countP_cons] at h
      exact Nat.eq_zero_of_add_eq_zero_right h
  | writers =>
    rintro (h | h)
    · exact hroom h
    · right
      rw [State.openReaders, hfiles, List.countP_cons] at h
      exact Nat.eq_zero_of_add_eq_zero_right h

/-- **An open** keeps what is there, or it makes an empty fifo for nobody. -/
theorem opened_serves (h : Sound s) {fd : File} (hc : s.call t = .openLock fd) (hlock : s.lock = none)
    (hok : s.refCount = 0#8 → s.files = []) (hs : s.opened cfg fd = some s₁) : Serves (s₁.setCall t .idle) := by
  obtain ⟨fifo, hfifo, hs₁⟩ := Option.map_eq_some_iff.1 hs
  have hcall : s₁.call = s.call := by rw [← hs₁]
  have hreaderQueue : s₁.readerQueue = s.readerQueue := by rw [← hs₁]
  have hwriterQueue : s₁.writerQueue = s.writerQueue := by rw [← hs₁]
  have hfiles : s₁.files = fd :: s.files := by rw [← hs₁]
  have hunlocked := h.locked.unlocked hlock
  have hready : ∀ side, s₁.ready side → s.ready side := by
    intro side
    by_cases hr : s.refCount = 0#8
    · rw [if_pos hr] at hfifo
      obtain ⟨rb, hcreate, rfl⟩ := Option.map_eq_some_iff.1 hfifo
      have hnone : s.openReaders = 0 := by rw [State.openReaders, hok hr, List.countP_nil]
      have hdata : s₁.data = [] := data_eq (by rw [← hs₁]) (create_holds hcreate)
      exact ready_of_more hfiles (fun hne => absurd hdata hne) fun _ => .inr hnone
    · rw [if_neg hr] at hfifo
      have hsame : s₁.fifo = s.fifo := by rw [← hs₁, ← Option.some.inj hfifo]
      refine ready_of_more hfiles (fun hne => .inl ?_) fun hne => .inl ?_
      · rwa [State.data, hsame] at hne
      · rwa [State.room, hsame] at hne
  intro side
  have hsame : Same side s s₁ := same_of_eq hcall hreaderQueue hwriterQueue side
  have hold : (s.call t).phase side = .away ∧ ∀ n, (s.call t).wakes n side = false := by
    rw [hc]
    cases side <;> exact ⟨rfl, fun _ => rfl⟩
  have hidle : Call.idle.phase side = .away := by cases side <;> rfl
  refine ⟨linked_setCall (h.serves side).1 hsame ?_, served_setCall (h.serves side).2 hsame (hready side) ?_ ?_⟩
  · rw [hidle, hold.1]
  · exact fun u _ hu => wakes_unlocked (hunlocked u) hu
  · refine .of_eq (hidle.trans hold.1.symm) fun hw => ?_
    rw [hold.2] at hw
    cases hw

/-- **A close** that leaves nobody on a side is about to wake up the other. -/
theorem closed_serves (h : Sound s) {fd : File} (hc : s.call t = .closeLock fd) (hlock : s.lock = none)
    (hmem : fd ∈ s.files) : Serves ({ s with
      lock := some t
      readers := s.readers - one fd.accmode.reads
      writers := s.writers - one fd.accmode.writes
      files := s.files.erase fd }.setCall t .closeReaders) := by
  have hunlocked := h.locked.unlocked hlock
  have hreaders : s.readers - one fd.accmode.reads =
      BitVec.ofNat 8 ((s.files.erase fd).countP (·.accmode.reads)) := by
    rw [h.counts.readers]
    exact count_close (·.accmode.reads) hmem
  have hwriters : s.writers - one fd.accmode.writes =
      BitVec.ofNat 8 ((s.files.erase fd).countP (·.accmode.writes)) := by
    rw [h.counts.writers]
    exact count_close (·.accmode.writes) hmem
  generalize hs₁ : ({ s with
      lock := some t
      readers := s.readers - one fd.accmode.reads
      writers := s.writers - one fd.accmode.writes
      files := s.files.erase fd } : State T) = s₁
  have hcounts : Counts s₁ := by
    rw [← hs₁]
    exact ⟨hreaders, hwriters⟩
  intro side
  have hcall : s₁.call = s.call := by rw [← hs₁]
  have hreaderQueue : s₁.readerQueue = s.readerQueue := by rw [← hs₁]
  have hwriterQueue : s₁.writerQueue = s.writerQueue := by rw [← hs₁]
  have hsame : Same side s s₁ := same_of_eq hcall hreaderQueue hwriterQueue side
  have hold : (s.call t).phase side = .away ∧ ∀ n, (s.call t).wakes n side = false := by
    rw [hc]
    cases side <;> exact ⟨rfl, fun _ => rfl⟩
  have hnew : Call.closeReaders.phase side = .away := by cases side <;> rfl
  refine ⟨linked_setCall (h.serves side).1 hsame (by rw [hnew, hold.1]), ?_⟩
  by_cases hzero : s₁.count side = 0#8
  · refine served_waker ?_
    rw [hzero]
    cases side <;> rfl
  · refine served_setCall (h.serves side).2 hsame ?_ (fun u _ hu => wakes_unlocked (hunlocked u) hu) ?_
    · cases side with
      | readers =>
        rintro (hr | hr)
        · left
          rw [← hs₁] at hr
          exact hr
        · refine absurd ?_ hzero
          rw [State.count, hcounts.writers, hr]
      | writers =>
        rintro (hr | hr)
        · left
          rw [← hs₁] at hr
          exact hr
        · refine absurd ?_ hzero
          rw [State.count, hcounts.readers, hr]
    · refine .of_eq (hnew.trans hold.1.symm) fun hw => ?_
      rw [hold.2] at hw
      cases hw

omit [DecidableEq T] in
theorem room_eq {rb : RingBuffer} {q : List Byte} (hfifo : s.fifo = some rb) (h : Holds rb q) :
    s.room = rb.bufferSize - q.length := by
  rw [State.room, hfifo]
  exact h.spaceLen

theorem put_bufferSize (rb : RingBuffer) (d : List Byte) :
    (rtRingbufferPut rb d d.length).2.bufferSize = rb.bufferSize := by
  unfold rtRingbufferPut
  dsimp only
  split_ifs <;> rfl

omit [DecidableEq T] in
theorem Counts.openWriters_ne_zero (h : Counts s) (hw : s.writers ≠ 0#8) : s.openWriters ≠ 0 := by
  intro hzero
  exact hw (by rw [h.writers, hzero])

omit [DecidableEq T] in
theorem Counts.openReaders_ne_zero (h : Counts s) (hr : s.readers ≠ 0#8) : s.openReaders ≠ 0 := by
  intro hzero
  exact hr (by rw [h.readers, hzero])

/-- **The loop of a read.** -/
theorem readLoop_serves (h : Sound s) {fd : File} {count : ℕ} {retry : Bool}
    (hc : s.call t = .readLoop fd count retry) (hok : KeepsServed s (.cont t))
    (hs : s.readLoop t fd count = some s') : Serves s' := by
  simp only [KeepsServed, hc] at hok
  obtain ⟨hbacked, hcut⟩ := hok
  have hphase : (s.call t).phase .readers = .away ∨ retry = true := by
    rw [hc]
    cases retry
    · exact .inl rfl
    · exact .inr rfl
  have hawake : (s.call t).phase .readers ≠ .asleep := by
    rw [hc]
    cases retry <;> simp [Call.phase]
  have hwakes : (s.call t).wakes (s.count .readers) .readers = false := by
    rw [hc]
    rfl
  have hwriters : ∀ {p}, p.phase .writers = .away → Follows (s.count .writers) (s.count .writers) .writers (s.call t) p := by
    intro p hp
    refine .of_eq ?_ fun hw => ?_
    · rw [hp, hc]
      rfl
    · rw [hc] at hw
      cases hw
  cases readLoop_cases hs with
  | eof hw hs' =>
    subst hs'
    refine both_sides ⟨?_, ?_⟩ ⟨?_, ?_⟩
    · exact linked_setCall (h.serves .readers).1 (same_refl s) (iff_of_false (by simp [Call.phase]) hawake)
    · refine served_end (h.serves .readers).2 (same_refl s) rfl id rfl hwakes (hphase.imp_right fun hr hready => ?_)
      exact hbacked hr (.inl ⟨hw, hready⟩)
    · exact linked_setCall (h.serves .writers).1 (same_refl s) (hwriters rfl).asleep
    · exact served_setCall (h.serves .writers).2 (same_refl s) id (fun _ _ => id) (hwriters rfl)
  | get rb hw hrb hlen hs' =>
    obtain ⟨q, hq⟩ := h.fifo rb hrb
    obtain ⟨hmin, -, hget⟩ := hq.get (uint16 count)
    have hdata : s.data = q := data_eq hrb hq
    generalize hs₁ : ({ s with fifo := some (rtRingbufferGet rb (uint16 count)).2.2 } : State T) = s₁ at hs'
    have hcall : s₁.call = s.call := by rw [← hs₁]
    have hreaderQueue : s₁.readerQueue = s.readerQueue := by rw [← hs₁]
    have hwriterQueue : s₁.writerQueue = s.writerQueue := by rw [← hs₁]
    have hsame : ∀ side, Same side s s₁ := same_of_eq hcall hreaderQueue hwriterQueue
    have hdata₁ : s₁.data = q.drop (uint16 count) := data_eq (by rw [← hs₁]) hget
    have hopen : s₁.openWriters ≠ 0 := by
      rw [← hs₁]
      exact h.counts.openWriters_ne_zero hw
    -- what is left is for the others
    have hleft : s₁.ready .readers → uint16 count < q.length := by
      rintro (hr | hr)
      · rw [hdata₁] at hr
        exact lt_of_not_ge fun hle => hr (List.drop_of_length_le hle)
      · exact absurd hr hopen
    subst hs'
    refine both_sides ⟨?_, ?_⟩ ⟨?_, served_waker rfl⟩
    · exact linked_setCall (h.serves .readers).1 (hsame .readers) (iff_of_false (by simp [Call.phase]) hawake)
    · refine served_end (h.serves .readers).2 (hsame .readers) (by rw [← hs₁]; rfl) (fun hr => ?_) rfl hwakes
        (hphase.imp_right fun hretry hready => ?_)
      · refine .inl ?_
        have hlt := hleft hr
        rw [hdata]
        rintro rfl
        exact absurd hlt (Nat.not_lt_zero _)
      · exact hbacked hretry (.inr (hdata ▸ hleft hready))
    · exact linked_setCall (h.serves .writers).1 (hsame .writers) (hwriters rfl).asleep
  | none rb p hw hrb hlen hs' hp =>
    obtain ⟨q, hq⟩ := h.fifo rb hrb
    obtain ⟨hmin, -, -⟩ := hq.get (uint16 count)
    have hdata : s.data = q := data_eq hrb hq
    have hnone : uint16 count = 0 ∨ q = [] := by
      rw [hmin] at hlen
      rcases Nat.eq_zero_or_pos (uint16 count) with hzero | hpos
      · exact .inl hzero
      · exact .inr (List.length_eq_zero_iff.1 (by omega))
    have hopen := h.counts.openWriters_ne_zero hw
    subst hs'
    rcases hp with rfl | ⟨hblock, rfl⟩
    · refine both_sides ⟨?_, ?_⟩ ⟨?_, ?_⟩
      · exact linked_setCall (h.serves .readers).1 (same_refl s) (iff_of_false (by simp [Call.phase]) hawake)
      · refine served_end (h.serves .readers).2 (same_refl s) rfl id rfl hwakes
          (hphase.imp_right fun hretry hready => hbacked hretry (.inr ?_))
        have hne : s.data ≠ [] := hready.resolve_right hopen
        rcases hnone with hzero | hnil
        · rw [hzero]
          exact List.length_pos_iff.2 hne
        · exact absurd (hdata.trans hnil) hne
      · exact linked_setCall (h.serves .writers).1 (same_refl s) (hwriters rfl).asleep
      · exact served_setCall (h.serves .writers).2 (same_refl s) id (fun _ _ => id) (hwriters rfl)
    · -- who is to wait has found nothing
      have hempty : s.data = [] := by
        rcases hnone with hzero | hnil
        · exact hcut hw hblock hzero
        · exact hdata.trans hnil
      refine both_sides ⟨?_, .of_not_ready ?_⟩ ⟨?_, served_waker rfl⟩
      · exact linked_setCall (h.serves .readers).1 (same_refl s) (iff_of_false (by simp [Call.phase]) hawake)
      · show ¬(s.data ≠ [] ∨ s.openWriters = 0)
        rintro (hne | hzero)
        · exact hne hempty
        · exact hopen hzero
      · exact linked_setCall (h.serves .writers).1 (same_refl s)
          (iff_of_false (by simp [Call.phase]) (by rw [hc]; simp [Call.phase]))

/-- **The loop of a write.** -/
theorem writeLoop_serves (h : Sound s) {fd : File} {buf : List Byte} {ret : ℕ} {wakeup : Bool}
    (hc : s.call t = .writeLoop fd buf ret wakeup) (hok : KeepsServed s (.cont t))
    (hs : s.writeLoop t fd buf ret wakeup = some s') : Serves s' := by
  simp only [KeepsServed, hc] at hok
  obtain ⟨hbacked, hcut⟩ := hok
  have hphase : (s.call t).phase .writers = .away ∨ wakeup = true := by
    rw [hc]
    cases wakeup
    · exact .inl rfl
    · exact .inr rfl
  have hawake : (s.call t).phase .writers ≠ .asleep := by
    rw [hc]
    cases wakeup <;> simp [Call.phase]
  have hwakes : (s.call t).wakes (s.count .writers) .writers = false := by
    rw [hc]
    rfl
  have hreaders : ∀ {p}, p.phase .readers = .away →
      Follows (s.count .readers) (s.count .readers) .readers (s.call t) p := by
    intro p hp
    refine .of_eq ?_ fun hw => ?_
    · rw [hp, hc]
      rfl
    · rw [hc] at hw
      cases hw
  cases writeLoop_cases hs with
  | epipe n hr hs' =>
    subst hs'
    refine both_sides ⟨?_, ?_⟩ ⟨?_, ?_⟩
    · exact linked_setCall (h.serves .readers).1 (same_refl s) (hreaders rfl).asleep
    · exact served_setCall (h.serves .readers).2 (same_refl s) id (fun _ _ => id) (hreaders rfl)
    · exact linked_setCall (h.serves .writers).1 (same_refl s) (iff_of_false (by simp [Call.phase]) hawake)
    · refine served_end (h.serves .writers).2 (same_refl s) rfl id rfl hwakes (hphase.imp_right fun hw hready => ?_)
      exact hbacked hw (.inl ⟨hr, hready⟩)
  | put rb p hr hrb hs' hp =>
    obtain ⟨q, hq⟩ := h.fifo rb hrb
    generalize hd : State.chunk buf ret = d at *
    obtain ⟨hlen, hput⟩ := hq.put d
    have hroom : s.room = rb.bufferSize - q.length := room_eq hrb hq
    generalize hs₁ : ({ s with fifo := some (rtRingbufferPut rb d d.length).2 } : State T) = s₁ at hs'
    have hcall : s₁.call = s.call := by rw [← hs₁]
    have hreaderQueue : s₁.readerQueue = s.readerQueue := by rw [← hs₁]
    have hwriterQueue : s₁.writerQueue = s.writerQueue := by rw [← hs₁]
    have hsame : ∀ side, Same side s s₁ := same_of_eq hcall hreaderQueue hwriterQueue
    have hopen : s₁.openReaders ≠ 0 := by
      rw [← hs₁]
      exact h.counts.openReaders_ne_zero hr
    -- the room that is left is for the others
    have hleft : s₁.ready .writers → d.length < s.room := by
      rintro (hne | hzero)
      · rw [room_eq (by rw [← hs₁]) hput, List.length_append, List.length_take] at hne
        have hsize : (rtRingbufferPut rb d d.length).2.bufferSize = rb.bufferSize := put_bufferSize rb d
        rw [hsize] at hne
        omega
      · exact absurd hzero hopen
    subst hs'
    have hdone : p.wakes (s₁.count .readers) .readers = true ∧ p.phase .readers = .away := by
      rcases hp with ⟨n, rfl⟩ | ⟨-, ⟨n, rfl⟩, -⟩
      · exact ⟨rfl, rfl⟩
      · exact ⟨rfl, rfl⟩
    refine both_sides ⟨?_, served_waker hdone.1⟩ ?_
    · exact linked_setCall (h.serves .readers).1 (hsame .readers) (hreaders hdone.2).asleep
    rcases hp with ⟨n, rfl⟩ | ⟨hblock, ⟨n, rfl⟩, hmore⟩
    · refine ⟨linked_setCall (h.serves .writers).1 (hsame .writers) (iff_of_false (by simp [Call.phase]) hawake), ?_⟩
      refine served_end (h.serves .writers).2 (hsame .writers) (by rw [← hs₁]; rfl) (fun hready => ?_) rfl hwakes
        (hphase.imp_right fun hw hready => hbacked hw (.inr (hleft hready)))
      exact .inl (Nat.ne_of_gt (Nat.lt_of_le_of_lt (Nat.zero_le _) (hleft hready)))
    · refine ⟨linked_setCall (h.serves .writers).1 (hsame .writers) (iff_of_false (by simp [Call.phase]) hawake),
        .of_not_ready ?_⟩
      intro hready
      -- who is to wait has filled the pipe
      have hlt : d.length < s.room := hleft hready
      refine hmore ?_
      rw [hlen, ← hroom, Nat.min_eq_left hlt.le]
      exact hcut hr hblock hlt

/-! ## Every step of a call -/

/-- What a thread that is nothing to a queue does elsewhere. -/
theorem Follows.away (hold : p.phase side = .away) (hnew : p'.phase side = .away)
    (hwakes : p.wakes n side = false) : Follows n n' side p p' := by
  refine .of_eq (hnew.trans hold.symm) fun hw => ?_
  rw [hwakes] at hw
  cases hw

/-- The two tests before a call takes the mutex. -/
theorem Serves.test (h : Serves s) (hold : ∀ side, (s.call t).phase side = .away)
    (hnew : ∀ side, p.phase side = .away) (hwakes : ∀ side, (s.call t).wakes (s.count side) side = false) :
    Serves (s.setCall t p) :=
  h.lock s.lock (.away (hold .readers) (hnew .readers) (hwakes .readers))
    (.away (hold .writers) (hnew .writers) (hwakes .writers))

theorem cont_serves (h : Sound s) (hok : KeepsServed s (.cont t)) (hs : s.cont cfg t = some s') : Serves s' := by
  simp only [State.cont] at hs
  cases hc : s.call t with
  | idle | readSuspended | writeSuspended => simp [hc] at hs
  | openLock fd =>
    simp only [hc] at hs
    split at hs
    swap
    · cases hs
    rename_i hlock
    obtain ⟨s₁, hopen, rfl⟩ := Option.map_eq_some_iff.1 hs
    simp only [KeepsServed, hc] at hok
    exact opened_serves h hc hlock hok hopen
  | closeLock fd =>
    simp only [hc] at hs
    split at hs
    swap
    · cases hs
    rename_i hlock
    cases hs
    exact closed_serves h hc hlock.1 hlock.2
  | closeReaders =>
    simp only [hc] at hs
    cases hs
    split
    · refine h.serves.wake .readers (by rw [hc]; nofun) nofun ?_
      rw [hc]
      exact .of_eq rfl id
    · rename_i hsome
      refine h.serves.lock s.lock ?_ ?_
      · rw [hc]
        exact .of_eq rfl fun hw => absurd (of_decide_eq_true hw) hsome
      · rw [hc]
        exact .of_eq rfl id
  | closeWriters =>
    simp only [hc] at hs
    cases hs
    split
    · refine h.serves.wake .writers (by rw [hc]; nofun) nofun ?_
      rw [hc]
      exact .of_eq rfl nofun
    · rename_i hsome
      refine h.serves.lock s.lock ?_ ?_
      · rw [hc]
        exact .of_eq rfl nofun
      · rw [hc]
        exact .of_eq rfl fun hw => absurd (of_decide_eq_true hw) hsome
  | closeEnd =>
    simp only [hc] at hs
    have hfollows : ∀ side, Follows (s.count side) (s.count side) side (s.call t) .idle := by
      rw [hc]
      exact both_sides (.of_eq rfl nofun) (.of_eq rfl nofun)
    split at hs
    · obtain ⟨rb, -, rfl⟩ := Option.map_eq_some_iff.1 hs
      refine h.serves.follow (same_of_eq rfl rfl rfl) (both_sides ?_ ?_) (both_sides rfl rfl) hfollows
      · exact Or.imp_left fun hne => absurd rfl hne
      · exact Or.imp_left fun hne => absurd rfl hne
    · cases hs
      exact h.serves.follow (same_of_eq rfl rfl rfl) (both_sides id id) (both_sides rfl rfl) hfollows
  | readEntry fd count =>
    simp only [hc] at hs
    cases hs
    refine h.serves.test ?_ ?_ ?_
    · rw [hc]
      exact both_sides rfl rfl
    · split
      · exact both_sides rfl rfl
      · exact both_sides rfl rfl
    · rw [hc]
      exact both_sides rfl rfl
  | readLock fd count retry =>
    simp only [hc] at hs
    split at hs
    · cases hs
      refine h.serves.lock (some t) ?_ ?_
      · rw [hc]
        exact .of_eq rfl nofun
      · rw [hc]
        exact .of_eq rfl nofun
    · cases hs
  | readLoop fd count retry =>
    simp only [hc] at hs
    exact readLoop_serves h hc hok hs
  | readRelease fd count =>
    simp only [hc] at hs
    cases hs
    refine h.serves.lock none ?_ ?_
    · rw [hc]
      exact .of_eq rfl nofun
    · rw [hc]
      exact .of_eq rfl id
  | readWakeWriter fd count =>
    simp only [hc] at hs
    cases hs
    refine h.serves.wake .writers (by rw [hc]; nofun) nofun ?_
    rw [hc]
    exact .of_eq rfl nofun
  | readWait fd count =>
    simp only [hc] at hs
    split at hs
    · cases hs
      refine h.serves.retry .readers ⟨rfl, rfl, both_sides rfl rfl, both_sides rfl rfl⟩ rfl
        (by rw [hc]; nofun) rfl ?_
      rw [hc]
      exact .of_eq rfl nofun
    · rename_i hflag
      cases hs
      refine h.serves.sleep .readers ⟨rfl, rfl, both_sides rfl rfl, both_sides rfl rfl⟩ rfl
        (eq_false_of_ne_true hflag) (by rw [hc]; rfl) (by rw [hc]; rfl) rfl ?_
      rw [hc]
      exact .of_eq rfl nofun
  | readResumed fd count =>
    simp only [hc] at hs
    cases hs
    refine h.serves.retry .readers ⟨rfl, rfl, both_sides rfl rfl, both_sides rfl rfl⟩ rfl
      (by rw [hc]; nofun) rfl ?_
    rw [hc]
    exact .of_eq rfl nofun
  | readWake len =>
    simp only [hc] at hs
    cases hs
    refine h.serves.wake .writers (by rw [hc]; nofun) nofun ?_
    rw [hc]
    exact .of_eq rfl nofun
  | readOut len =>
    simp only [hc] at hs
    cases hs
    refine h.serves.lock none ?_ ?_
    · rw [hc]
      exact .of_eq rfl nofun
    · rw [hc]
      exact .of_eq rfl nofun
  | writeEntry fd buf =>
    simp only [hc] at hs
    cases hs
    refine h.serves.test ?_ ?_ ?_
    · rw [hc]
      exact both_sides rfl rfl
    · split
      · exact both_sides rfl rfl
      · exact both_sides rfl rfl
    · rw [hc]
      exact both_sides rfl rfl
  | writeLock fd buf ret wakeup =>
    simp only [hc] at hs
    split at hs
    · cases hs
      refine h.serves.lock (some t) ?_ ?_
      · rw [hc]
        exact .of_eq rfl nofun
      · rw [hc]
        exact .of_eq rfl nofun
    · cases hs
  | writeLoop fd buf ret wakeup =>
    simp only [hc] at hs
    exact writeLoop_serves h hc hok hs
  | writeRelease fd buf ret =>
    simp only [hc] at hs
    cases hs
    refine h.serves.lock none ?_ ?_
    · rw [hc]
      exact .of_eq rfl id
    · rw [hc]
      exact .of_eq rfl nofun
  | writeWakeReader fd buf ret =>
    simp only [hc] at hs
    cases hs
    refine h.serves.wake .readers (by rw [hc]; nofun) nofun ?_
    rw [hc]
    exact .of_eq rfl nofun
  | writeWait fd buf ret =>
    simp only [hc] at hs
    split at hs
    · cases hs
      refine h.serves.retry .writers ⟨rfl, rfl, both_sides rfl rfl, both_sides rfl rfl⟩ rfl
        (by rw [hc]; nofun) rfl ?_
      rw [hc]
      exact .of_eq rfl nofun
    · rename_i hflag
      cases hs
      refine h.serves.sleep .writers ⟨rfl, rfl, both_sides rfl rfl, both_sides rfl rfl⟩ rfl
        (eq_false_of_ne_true hflag) (by rw [hc]; rfl) (by rw [hc]; rfl) rfl ?_
      rw [hc]
      exact .of_eq rfl nofun
  | writeResumed fd buf ret =>
    simp only [hc] at hs
    cases hs
    refine h.serves.retry .writers ⟨rfl, rfl, both_sides rfl rfl, both_sides rfl rfl⟩ rfl
      (by rw [hc]; nofun) rfl ?_
    rw [hc]
    exact .of_eq rfl nofun
  | writeEnd len wakeup =>
    simp only [hc] at hs
    cases hs
    refine h.serves.lock none ?_ ?_
    · rw [hc]
      cases wakeup with
      | false => exact .of_eq rfl nofun
      | true => exact .of_eq rfl id
    · rw [hc]
      cases wakeup with
      | false => exact .of_eq rfl nofun
      | true => exact .of_eq rfl nofun
  | writeEndWake =>
    simp only [hc] at hs
    cases hs
    refine h.serves.wake .readers (by rw [hc]; nofun) nofun ?_
    rw [hc]
    exact .of_eq rfl nofun

theorem cont_locked (h : Locked s) (hs : s.cont cfg t = some s') : Locked s' := by
  simp only [State.cont] at hs
  cases hc : s.call t with
  | idle | readSuspended | writeSuspended => simp [hc] at hs
  | openLock fd =>
    simp only [hc] at hs
    split at hs
    swap
    · cases hs
    obtain ⟨s₁, hopen, rfl⟩ := Option.map_eq_some_iff.1 hs
    obtain ⟨fifo, -, rfl⟩ := Option.map_eq_some_iff.1 hopen
    exact h.keep (fun _ => rfl) rfl fun hin => absurd hin Bool.false_ne_true
  | closeLock fd =>
    simp only [hc] at hs
    split at hs
    · rename_i hlock
      cases hs
      exact h.acquire hlock.1 rfl rfl
    · cases hs
  | closeReaders =>
    simp only [hc] at hs
    cases hs
    split
    · exact h.keep (wake_locked s .readers) wakeReaders_lock (by rw [hc]; exact id)
    · exact h.keep (fun _ => rfl) rfl (by rw [hc]; exact id)
  | closeWriters =>
    simp only [hc] at hs
    cases hs
    split
    · exact h.keep (wake_locked s .writers) wakeWriters_lock (by rw [hc]; exact id)
    · exact h.keep (fun _ => rfl) rfl (by rw [hc]; exact id)
  | closeEnd =>
    simp only [hc] at hs
    split at hs
    · obtain ⟨rb, -, rfl⟩ := Option.map_eq_some_iff.1 hs
      exact h.release (by rw [hc]; rfl) rfl rfl
    · cases hs
      exact h.release (by rw [hc]; rfl) rfl rfl
  | readLock | writeLock =>
    simp only [hc] at hs
    split at hs
    · rename_i hlock
      cases hs
      exact h.acquire hlock rfl rfl
    · cases hs
  | readLoop fd count retry =>
    simp only [hc] at hs
    cases readLoop_cases hs with
    | eof _ hs' =>
      subst hs'
      exact h.keep (fun _ => rfl) rfl (by rw [hc]; exact id)
    | get rb _ _ _ hs' =>
      subst hs'
      exact h.keep (fun _ => rfl) rfl (by rw [hc]; exact id)
    | none rb p _ _ _ hs' _ =>
      subst hs'
      exact h.keep (fun _ => rfl) rfl (by rw [hc]; exact fun _ => rfl)
  | writeLoop fd buf ret wakeup =>
    simp only [hc] at hs
    cases writeLoop_cases hs with
    | epipe n _ hs' =>
      subst hs'
      exact h.keep (fun _ => rfl) rfl (by rw [hc]; exact id)
    | put rb p _ _ hs' _ =>
      subst hs'
      exact h.keep (fun _ => rfl) rfl (by rw [hc]; exact fun _ => rfl)
  | readRelease | readOut | writeRelease =>
    simp only [hc] at hs
    cases hs
    exact h.release (by rw [hc]; rfl) rfl rfl
  | writeEnd len wakeup =>
    simp only [hc] at hs
    cases hs
    refine h.release (by rw [hc]; rfl) rfl ?_
    split
    · rfl
    · rfl
  | readEntry | writeEntry =>
    simp only [hc] at hs
    cases hs
    refine h.keep (fun _ => rfl) rfl ?_
    split
    · exact fun hin => absurd hin Bool.false_ne_true
    · exact fun hin => absurd hin Bool.false_ne_true
  | readWait | writeWait =>
    simp only [hc] at hs
    split at hs
    · cases hs
      exact h.keep (fun _ => rfl) rfl fun hin => absurd hin Bool.false_ne_true
    · cases hs
      exact h.keep (fun _ => rfl) rfl fun hin => absurd hin Bool.false_ne_true
  | readResumed | writeResumed =>
    simp only [hc] at hs
    cases hs
    exact h.keep (fun _ => rfl) rfl fun hin => absurd hin Bool.false_ne_true
  | readWakeWriter =>
    simp only [hc] at hs
    cases hs
    exact h.keep (wake_locked s .writers) wakeWriters_lock fun hin => absurd hin Bool.false_ne_true
  | readWake =>
    simp only [hc] at hs
    cases hs
    exact h.keep (wake_locked s .writers) wakeWriters_lock (by rw [hc]; exact id)
  | writeWakeReader | writeEndWake =>
    simp only [hc] at hs
    cases hs
    exact h.keep (wake_locked s .readers) wakeReaders_lock fun hin => absurd hin Bool.false_ne_true

/-- A thread begins a call. -/
theorem begin_keeps (hlocked : Locked s) (hserves : Serves s) (hp : p.locked = false)
    (haway : ∀ side, p.phase side = .away) (hs : s.begin t p = some s') : Locked s' ∧ Serves s' := by
  unfold State.begin at hs
  split at hs
  swap
  · cases hs
  rename_i hc
  cases hs
  refine ⟨hlocked.keep (fun _ => rfl) rfl fun hl => ?_, hserves.test ?_ haway ?_⟩
  · rw [hp] at hl
    cases hl
  · rw [hc]
    exact both_sides rfl rfl
  · rw [hc]
    exact both_sides rfl rfl

theorem sound_step (h : Sound s) (hok : KeepsServed s a) (hs : s.step cfg a = some s') : Sound s' := by
  have hkeeps : Locked s' ∧ Serves s' := by
    cases a with
    | «open» t fd => exact begin_keeps h.locked h.serves rfl (both_sides rfl rfl) hs
    | close t fd =>
      simp only [State.step] at hs
      split at hs
      · exact begin_keeps h.locked h.serves rfl (both_sides rfl rfl) hs
      · cases hs
    | read t fd count =>
      simp only [State.step] at hs
      split at hs
      · exact begin_keeps h.locked h.serves rfl (both_sides rfl rfl) hs
      · cases hs
    | write t fd buf =>
      simp only [State.step] at hs
      split at hs
      · exact begin_keeps h.locked h.serves rfl (both_sides rfl rfl) hs
      · cases hs
    | cont t => exact ⟨cont_locked h.locked hs, cont_serves h hok hs⟩
  exact ⟨counts_step h.counts hs, fifo_step h.fifo hs, hkeeps.1, hkeeps.2⟩

omit [DecidableEq T] in
theorem sound_init : Sound (rtPipeCreate T) := by
  refine ⟨⟨rfl, rfl⟩, nofun, nofun, fun side => ⟨⟨?_, fun t => ?_⟩, fun _ => .inr (.inr ⟨?_, .inr ?_⟩)⟩⟩
  · cases side <;> exact List.nodup_nil
  · cases side <;> exact iff_of_false nofun nofun
  · cases side <;> nofun
  · cases side <;> nofun

/-- **Nobody is stranded on a pipe** where everybody is quiet, in every run whose steps leave nobody behind. -/
theorem none_stranded {T : Type} [DecidableEq T] (cfg : Config) {s : State T} {g : Log}
    (h : Runs cfg KeepsServed (s, g)) (hquiet : s.Quiet) : s.NoneStranded := by
  have hinv : Sound s := by
    refine Run.Reach.inv (I := fun p => Sound p.1) ?_ ?_ h
    · rintro ⟨s, g⟩ ⟨rfl, rfl⟩
      exact sound_init
    · rintro ⟨s, g⟩ a ⟨s', g'⟩ hsound hok ⟨hs, -⟩
      exact sound_step hsound hok hs
  have hnone : ∀ t side, s.ready side → (s.call t).phase side ≠ .asleep := fun t side hready =>
    (hinv.serves side).2.not_asleep hready (fun u => (hquiet u side).1) fun u => (hquiet u side).2
  refine ⟨fun t fd count hc => ?_, fun t fd buf ret hc => ?_⟩
  · have hready : ¬(s.data ≠ [] ∨ s.openWriters = 0) := fun hr => hnone t .readers hr (by rw [hc]; rfl)
    exact ⟨not_not.1 fun hne => hready (.inl hne), fun hzero => hready (.inr hzero)⟩
  · have hready : ¬(s.room ≠ 0 ∨ s.openReaders = 0) := fun hr => hnone t .writers hr (by rw [hc]; rfl)
    exact ⟨not_not.1 fun hne => hready (.inl hne), fun hzero => hready (.inr hzero)⟩

/-- The pipe is opened for reading and for writing. -/
def twoEnds : List (Act (Fin 3)) :=
  [.open 0 ⟨.rdonly, false⟩, .cont 0, .open 2 ⟨.wronly, false⟩, .cont 2]

/-- A reader that finds nothing falls asleep. -/
def readsNothing (t : Fin 3) : List (Act (Fin 3)) := .read t ⟨.rdonly, false⟩ 1 :: List.replicate 6 (.cont t)

/-- The writer puts bytes into the pipe, and wakes up a reader. -/
def putsBytes (buf : List Byte) : List (Act (Fin 3)) := .write 2 ⟨.wronly, false⟩ buf :: List.replicate 5 (.cont 2)

/-- A reader that has been resumed takes a byte. -/
def takesByte (t : Fin 3) : List (Act (Fin 3)) := List.replicate 5 (.cont t)

/-- The reader takes the byte. -/
example : (Run.exec (fun s a => s.step fourBytes a) (rtPipeCreate (Fin 3))
    (twoEnds ++ readsNothing 0 ++ putsBytes [7] ++ takesByte 0)).map State.data = some [] := by decide

/-- Everybody is quiet, and the thread sleeps in `reader_queue`. -/
def quietAsleep (t : Fin 3) (s : State (Fin 3)) : Bool :=
  decide (∀ u : Fin 3, (s.call u).wakes (s.count .readers) .readers = false ∧ (s.call u).phase .readers ≠ .retry) &&
    (decide (∀ u : Fin 3, (s.call u).wakes (s.count .writers) .writers = false ∧
      (s.call u).phase .writers ≠ .retry) && decide (s.call t = .readSuspended ⟨.rdonly, false⟩ 1))

theorem quietAsleep_eq {t : Fin 3} {s : State (Fin 3)} (h : quietAsleep t s = true) :
    s.Quiet ∧ s.call t = .readSuspended ⟨.rdonly, false⟩ 1 := by
  simp only [quietAsleep, Bool.and_eq_true, decide_eq_true_eq] at h
  obtain ⟨hr, hw, hcall⟩ := h
  exact ⟨fun u side => both_sides (P := fun side => (s.call u).wakes (s.count side) side = false ∧
    (s.call u).phase side ≠ .retry) (hr u) (hw u) side, hcall⟩

/-- A reader takes the byte that it has waited for, and sleeps until there is another. -/
theorem none_stranded_once : ∃ s : State (Fin 3), s.call 0 = .readSuspended ⟨.rdonly, false⟩ 1 ∧ s.NoneStranded := by
  obtain ⟨⟨s, g⟩, hr, h⟩ := Run.Reach.exec_logged (fun (s : State (Fin 3)) a => s.step fourBytes a)
    (fun _ => (⟨[], []⟩ : Log)) log KeepsServed (show (rtPipeCreate (Fin 3)).Init from rfl)
    (twoEnds ++ readsNothing 0 ++ putsBytes [7] ++ takesByte 0 ++ readsNothing 0) (fun p => quietAsleep 0 p.1)
    (by decide)
  obtain ⟨hquiet, hcall⟩ := quietAsleep_eq h
  exact ⟨s, hcall, none_stranded fourBytes hr hquiet⟩

/-- **A reader is stranded**: two wait, and the one that the writer wakes up leaves a byte behind. -/
theorem reader_stranded : ∃ (s : State (Fin 3)) (g : Log), Runs fourBytes Run.Any (s, g) ∧ s.Quiet ∧ ¬s.NoneStranded := by
  obtain ⟨⟨s, g⟩, hr, h⟩ := Run.Reach.exec_logged (fun (s : State (Fin 3)) a => s.step fourBytes a)
    (fun _ => (⟨[], []⟩ : Log)) log Run.Any (show (rtPipeCreate (Fin 3)).Init from rfl)
    (twoEnds ++ readsNothing 0 ++ readsNothing 1 ++ putsBytes [7, 8] ++ takesByte 0)
    (fun p => quietAsleep 1 p.1 && decide (p.1.data = [8])) (by decide)
  rw [Bool.and_eq_true, decide_eq_true_eq] at h
  obtain ⟨hquiet, hcall⟩ := quietAsleep_eq h.1
  refine ⟨s, g, hr, hquiet, fun hnone => ?_⟩
  have hempty : s.data = [] := (hnone.1 1 _ _ hcall).1
  rw [h.2] at hempty
  cases hempty

end RtThread.Pipe
