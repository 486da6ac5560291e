import RtThread.Spec.Ipc

/-!
# The running kernel

Threads make calls, are switched at every `rt_schedule`, and are interrupted between any two
sections, as interrupt handlers are themselves. `step` takes one step: an interrupt handler runs a
section or, if none is active, the current thread does. Which thread is current is for
`rt_schedule` alone to say.

Signals (`signal.c`): a thread handles its pending signals when it comes back from a context
switch, or in `_signal_entry`. Signal handlers make no kernel calls here. The sections of
`rt_thread_kill` are calls of their own: `kill`, `killAlloc`, `killAppend` and `killDeliver`, in this
order. `kill` may be the last one, if the signal was pending already: the walk through its nodes
starts at a node instead of its link, so memory outside of the list says whether it finds one.

The idle thread makes no calls, as `idle.c` demands of its hooks.
-/

namespace RtThread.Ipc

open Sched

/-- The kernel calls of a thread. -/
inductive Call (T O : Type)
  | startup (t : T)
  /-- `rt_thread_resume` of a thread that suspended itself, and `rt_schedule` -/
  | resume (t : T)
  /-- `rt_thread_suspend` of the calling thread, and `rt_schedule` -/
  | suspend
  | sleep
  | yield
  | enterCritical
  | exitCritical
  | semTake (o : O) (time : Time)
  | semRelease (o : O)
  | mutexTake (o : O) (time : Time)
  | mutexRelease (o : O)
  | eventSend (o : O) (set : BitVec 32)
  | eventRecv (o : O) (set : BitVec 32) (option : BitVec 8) (timeout : Time)
  | mbSendWait (o : O) (value : BitVec 32) (timeout : Time)
  | mbRecv (o : O) (timeout : Time)
  | mqSend (o : O) (buffer : List (BitVec 8))
  | mqUrgent (o : O) (buffer : List (BitVec 8))
  | mqRecv (o : O) (size : ℕ) (timeout : Time)
  | mqReset (o : O)
  | mpAlloc (o : O) (time : Time)
  | mpFree (o : O) (block : ℕ)
  | kill (t : T) (sig : ℕ)
  | killAlloc
  | killAppend (t : T) (sig : ℕ)
  | killDeliver (t : T)
  | signalMask (sig : ℕ)
  | signalUnmask (sig : ℕ)

/-- What interrupt handlers call; `timeout` is the thread timer of a thread. -/
inductive Isr (T O : Type)
  | timeout (t : T)
  | semTrytake (o : O)
  | semRelease (o : O)
  | eventSend (o : O) (set : BitVec 32)
  | mbSend (o : O) (value : BitVec 32)
  /-- `rt_mb_recv` with `timeout` 0 -/
  | mbRecv (o : O)
  | mqSend (o : O) (buffer : List (BitVec 8))
  | mqUrgent (o : O) (buffer : List (BitVec 8))
  /-- `rt_mq_recv` with `timeout` 0 -/
  | mqRecv (o : O) (size : ℕ)
  /-- `rt_mp_alloc` with `time` 0 -/
  | mpAlloc (o : O)
  | mpFree (o : O) (block : ℕ)
  | kill (t : T) (sig : ℕ)
  | killAlloc
  | killAppend (t : T) (sig : ℕ)
  | killDeliver (t : T)

/-- One step of the system. -/
inductive Act (T O : Type)
  /-- `rt_thread_startup`, before the scheduler runs -/
  | boot (t : T)
  /-- `rt_system_scheduler_start` -/
  | start
  /-- the current thread makes a call -/
  | call (c : Call T O)
  /-- the current thread runs `rt_schedule` -/
  | schedule
  /-- the current thread comes back from a context switch in `rt_schedule` -/
  | switched
  /-- the current thread runs `_signal_entry` -/
  | signalEntry
  /-- the current thread goes on in its call, `elapsed` ticks after it last waited -/
  | cont (elapsed : Time)
  /-- an interrupt: its handler makes a call -/
  | isr (i : Isr T O)
  /-- the innermost interrupt handler goes on in its call -/
  | isrCont

/-- `sig_mask(sig_no)`. -/
def sigMask (sig : ℕ) : BitVec 32 := 1#32 <<< sig

/-- The loop of `rt_thread_handle_sig`: the nodes left and the signals left pending. -/
def handleLoop (mask : BitVec 32) : List ℕ → BitVec 32 → List ℕ × BitVec 32
  | [], pending => ([], pending)
  | signo :: l, pending =>
    if pending &&& mask = 0#32 then (signo :: l, pending)
    else handleLoop mask l (pending &&& ~~~(sigMask signo))

namespace Kernel

variable {T O : Type} [DecidableEq T] [DecidableEq O] (cfg : Config) (s : Kernel T O)

/-! ## Signals -/

/-- `rt_thread_handle_sig`. -/
def rtThreadHandleSig (self : T) (cleanState : Bool) : Kernel T O :=
  let th := s.thread self
  if th.sigPending &&& th.sigMask ≠ 0#32 then
    let (siList, sigPending) := handleLoop th.sigMask th.siList th.sigPending
    { s with
      sched := s.sched.update self fun th => { th with
        siList
        sigPending
        error := if siList.length < th.siList.length then .eintr else th.error
        statSignal := if cleanState then false else th.statSignal }
      siginfoPool := s.siginfoPool + (th.siList.length - siList.length) }
  else s

/-- `_signal_deliver`. -/
def signalDeliver (t : T) : Option (Kernel T O × Next O) :=
  let th := s.thread t
  let signal := s.sched.update t fun th => { th with statSignal := true }
  if th.sigPending &&& th.sigMask = 0#32 then some (s, .ret .eok .none)
  else if th.stat = .suspend then do
    let (_, sched) ← s.sched.rtThreadResume cfg t
    return ({ s with sched := sched.update t fun th => { th with statSignal := true } },
      .schedule (.ret .eok .none))
  else if s.sched.current = some t then
    some ({ s with sched := signal }.rtThreadHandleSig t true, .ret .eok .none)
  else if th.statSignal = false then
    some ({ s with sched := s.sched.update t fun th => { th with statSignal := true, sigRet := true } },
      .schedule (.ret .eok .none))
  else some (s, .ret .eok .none)

/-- `rt_thread_kill` marks the signal as pending. -/
def rtThreadKill (t : T) (sig : ℕ) : Kernel T O × Next O :=
  if 32 ≤ sig then (s, .ret .einval .none)
  else ({ s with sched := s.sched.update t fun th => { th with sigPending := th.sigPending ||| sigMask sig } },
    .ret .eok .none)

/-- `rt_thread_kill` allocates a node; without one it goes on to `_signal_deliver`. -/
def killAlloc : Kernel T O × Next O :=
  if s.siginfoPool = 0 then (s, .ret .enomem .none)
  else ({ s with siginfoPool := s.siginfoPool - 1 }, .ret .eok .none)

/-- `rt_thread_kill` appends the node. -/
def killAppend (t : T) (sig : ℕ) : Kernel T O × Next O :=
  ({ s with sched := s.sched.update t fun th => { th with siList := th.siList ++ [sig] } }, .ret .eok .none)

/-- `rt_signal_mask`. -/
def rtSignalMask (self : T) (sig : ℕ) : Kernel T O × Next O :=
  ({ s with sched := s.sched.update self fun th => { th with sigMask := th.sigMask &&& ~~~(sigMask sig) } },
   .ret .eok .none)

/-- `rt_signal_unmask`. -/
def rtSignalUnmask (self : T) (sig : ℕ) : Option (Kernel T O × Next O) :=
  { s with sched := s.sched.update self fun th => { th with sigMask := th.sigMask ||| sigMask sig } }
    |>.signalDeliver cfg self

/-! ## Steps -/

/-- The thread suspended itself, outside of any IPC object. -/
def parked (t : T) : Bool :=
  match s.pc t with
  | .schedule (.ret _ _) | .switched (.ret _ _) | .schedule .sleep | .switched .sleep => true
  | _ => false

/-- The first section of a call. -/
def call (self : T) : Call T O → Option (Kernel T O × Next O)
  | .startup t => do
    let sched ← s.sched.makeReady cfg t
    return ({ s with sched }, .schedule (.ret .eok .none))
  | .resume t => do
    if s.parked t then
      let (err, sched) ← s.sched.rtThreadResume cfg t
      return ({ s with sched }, .schedule (.ret err .none))
    else none
  | .suspend => do
    let (err, sched) ← s.sched.rtThreadSuspend cfg self
    return ({ s with sched }, .schedule (.ret err .none))
  | .sleep => s.rtThreadSleep cfg self
  | .yield => some (s, .schedule (.ret .eok .none))
  | .enterCritical => some ({ s with sched := s.sched.rtEnterCritical }, .ret .eok .none)
  | .exitCritical =>
    let nest := s.sched.lockNest - 1
    if nest.toInt ≤ 0 then
      some ({ s with sched := { s.sched with lockNest := 0#16 } }, .schedule (.ret .eok .none))
    else some ({ s with sched := { s.sched with lockNest := nest } }, .ret .eok .none)
  | .semTake o time => s.rtSemTake cfg self o time
  | .semRelease o => s.rtSemRelease cfg o
  | .mutexTake o time => s.rtMutexTake cfg self o time
  | .mutexRelease o => s.rtMutexRelease cfg self o
  | .eventSend o set => s.rtEventSend cfg o set
  | .eventRecv o set option timeout => s.rtEventRecv cfg self o set option timeout
  | .mbSendWait o value timeout => s.rtMbSendWait cfg self o value timeout
  | .mbRecv o timeout => s.rtMbRecv cfg self o timeout
  | .mqSend o buffer => s.rtMqSend o buffer false
  | .mqUrgent o buffer => s.rtMqSend o buffer true
  | .mqRecv o size timeout => s.rtMqRecv cfg self o size timeout
  | .mqReset o => s.mqReset cfg o
  | .mpAlloc o time => s.mpAllocLoop cfg self o time
  | .mpFree o block => s.rtMpFree cfg o block
  | .kill t sig => some (s.rtThreadKill t sig)
  | .killAlloc => some s.killAlloc
  | .killAppend t sig => some (s.killAppend t sig)
  | .killDeliver t => s.signalDeliver cfg t
  | .signalMask sig => some (s.rtSignalMask self sig)
  | .signalUnmask sig => s.rtSignalUnmask cfg self sig

/-- The section at which a call goes on. -/
def resume (self : T) (elapsed : Time) : Cont O → Option (Kernel T O × Next O)
  | .ret e out => some (s, .ret e out)
  | .sleep => some (s.sleepResumed self)
  | .semTake _ =>
    let err := (s.thread self).error
    some (s, .ret err .none)
  | .mutexTake o time => some (s.mutexTakeResumed self o time)
  | .mutexOwn o => some (s.mutexOwn self o, .ret .eok .none)
  | .mutexWait o time => s.mutexWait cfg self o time
  | .eventRecv _ => some (s.eventRecvResumed self)
  | .mbSend o value timeout => s.mbSendResumed cfg self o value timeout elapsed
  | .mbRecv o timeout => s.mbRecvResumed cfg self o timeout elapsed
  | .mqLink o msg buffer urgent => s.mqLink cfg o msg buffer urgent
  | .mqRecv o size timeout => s.mqRecvResumed cfg self o size timeout elapsed
  | .mqFree o msg size => some (s.mqFree o msg size)
  | .mpAlloc o time => s.mpAllocResumed cfg self o time elapsed

/-- The first section of a call of an interrupt handler, which does not wait. The signals of the
interrupted thread are not handled inside the interrupt. -/
def isr (self : T) : Isr T O → Option (Kernel T O × Next O)
  | .timeout t =>
    if (s.thread t).timerActive then do
      let sched ← (s.sched.setTimer t false).rtThreadTimeout cfg t
      return ({ s with sched }, .ret .eok .none)
    else none
  | .semTrytake o => s.rtSemTake cfg self o 0
  | .semRelease o => s.rtSemRelease cfg o
  | .eventSend o set => s.rtEventSend cfg o set
  | .mbSend o value => s.rtMbSendWait cfg self o value 0
  | .mbRecv o => s.rtMbRecv cfg self o 0
  | .mqSend o buffer => s.rtMqSend o buffer false
  | .mqUrgent o buffer => s.rtMqSend o buffer true
  | .mqRecv o size => s.rtMqRecv cfg self o size 0
  | .mpAlloc o =>
    -- `rt_set_errno` leaves the interrupted thread alone
    if (s.memPool o).blockFreeCount = 0 then some (s, .ret .etimeout .none)
    else s.mpAllocLoop cfg self o 0
  | .mpFree o block => s.rtMpFree cfg o block
  | .kill t sig => some (s.rtThreadKill t sig)
  | .killAlloc => some s.killAlloc
  | .killAppend t sig => some (s.killAppend t sig)
  | .killDeliver t => if t = self ∧ s.sched.stat t ≠ .suspend then none else s.signalDeliver cfg t

/-- The section at which a call of an interrupt handler goes on. -/
def isrResume : Next O → Option (Kernel T O × Next O)
  | .schedule (.ret e out) => do
    let sched ← s.sched.rtSchedule cfg
    return ({ s with sched }, .ret e out)
  | .run (.mqLink o msg buffer urgent) => s.mqLink cfg o msg buffer urgent
  | .run (.mqFree o msg size) => some (s.mqFree o msg size)
  | _ => none

/-- The current thread, unless an interrupt handler is active. -/
def running : Option T := if s.handlers.isEmpty then s.sched.current else none

/-- The running thread, unless it has `_signal_entry` to run first. -/
def self : Option T :=
  s.running.bind fun t => if (s.thread t).sigRet then none else some t

/-- The thread that a section ran on goes to where the section ended. -/
def after (self : T) (r : Kernel T O × Next O) : Kernel T O := r.1.setPc self r.2.pc

/-- The handler that a section ran on goes to where the section ended. -/
def handled (r : Kernel T O × Next O) : Kernel T O :=
  match r.2 with
  | .ret _ _ => r.1
  | n => { r.1 with handlers := n :: r.1.handlers }

/-- `rt_schedule` of a thread: it goes on, or waits for its switch back. -/
def scheduled (self : T) (k : Cont O) (sched : Scheduler T (WaitList O)) : Kernel T O :=
  { s with sched }.setPc self (if sched.current = some self then k.pc else .switched k)

/-- One step. -/
def step (idle : T) : Act T O → Option (Kernel T O)
  | .boot t =>
    if s.sched.current = none then (s.sched.makeReady cfg t).map fun sched => { s with sched }
    else none
  | .start =>
    if s.sched.current = none ∧ s.sched.stat idle = .ready then
      (s.sched.rtSystemSchedulerStart cfg).map fun sched => { s with sched }
    else none
  | .call c => s.self.bind fun self =>
    match s.pc self with
    | .user _ _ => if self = idle then none else (s.call cfg self c).map (after self)
    | _ => none
  | .schedule => s.self.bind fun self =>
    match s.pc self with
    | .schedule k => (s.sched.rtSchedule cfg).map (s.scheduled self k)
    | _ => none
  | .switched => s.self.bind fun self =>
    match s.pc self with
    | .switched k => some ((s.rtThreadHandleSig self true).setPc self k.pc)
    | _ => none
  | .signalEntry => s.running.bind fun self =>
    if (s.thread self).sigRet then
      let s := s.rtThreadHandleSig self false
      some { s with sched := s.sched.update self fun th => { th with sigRet := false, statSignal := false } }
    else none
  | .cont elapsed => s.self.bind fun self =>
    match s.pc self with
    | .cont k => (s.resume cfg self elapsed k).map (after self)
    | _ => none
  | .isr i => s.sched.current.bind fun self => (s.isr cfg self i).map handled
  | .isrCont =>
    match s.handlers with
    | n :: handlers => ({ s with handlers }.isrResume cfg n).map handled
    | [] => none

/-- Before the scheduler starts: no thread and no object has been used. -/
structure Init : Prop where
  sched : s.sched.Init cfg
  mutex : ∀ o, ∃ flag, s.mutex o = rtMutexInit T flag
  mailbox : ∀ o, ∃ flag pool size, s.mailbox o = rtMbInit flag pool size
  mq : ∀ o, ∃ flag msgSize maxMsgs bytes, s.mq o = rtMqInit flag msgSize maxMsgs bytes
  memPool : ∀ o, ∃ start step count head, s.memPool o = rtMpInit start step count head
  pc : ∀ t, s.pc t = .user .eok .none
  handlers : s.handlers = []

/-- A system before it starts: thread `t` has priority `prio t`. -/
def fresh (prio : T → ℕ) : Kernel T O where
  sched := Scheduler.rtSystemSchedulerInit fun t => { initPriority := prio t, currentPriority := prio t }
  sem := fun _ => { flag := .fifo, value := 0#16 }
  mutex := fun _ => rtMutexInit T .prio
  event := fun _ => { flag := .fifo, set := 0#32 }
  mailbox := fun _ => rtMbInit .fifo (fun _ => 0#32) 2#16
  mq := fun _ => rtMqInit .fifo 4#16 2#16 fun _ => []
  memPool := fun _ => rtMpInit 0 8 2 fun _ => .next none
  pc := fun _ => .user .eok .none
  handlers := []
  siginfoPool := 32

omit [DecidableEq T] [DecidableEq O] in
theorem fresh_init {prio : T → ℕ} (h : ∀ t, prio t < cfg.priorityMax) :
    (fresh prio : Kernel T O).Init cfg where
  sched := ⟨_, fun t => ⟨prio t, false, _, false, if_pos (h t), rfl⟩, rfl⟩
  mutex := fun _ => ⟨_, rfl⟩
  mailbox := fun _ => ⟨_, _, _, rfl⟩
  mq := fun _ => ⟨_, _, _, _, rfl⟩
  memPool := fun _ => ⟨_, _, _, _, rfl⟩
  pc := fun _ => rfl
  handlers := rfl

end Kernel

/-- A system with all 256 priorities. -/
def board : Config := ⟨256, le_rfl⟩

/-- Its threads are numbered, and those below 256 by their priorities. -/
def Kernel.onBoard (O : Type) : Kernel ℕ O := Kernel.fresh fun n => n % 256

theorem Kernel.onBoard_init (O : Type) : (Kernel.onBoard O).Init board :=
  fresh_init board fun n => Nat.mod_lt n (by decide)

/-- The runs of the kernel under a condition on steps. -/
abbrev Runs {T O : Type} [DecidableEq T] [DecidableEq O] (cfg : Config) (idle : T)
    (ok : Kernel T O → Act T O → Prop) : Kernel T O → Prop :=
  Run.Reach (fun s => s.Init cfg) (fun s a s' => s.step cfg idle a = some s') ok

end RtThread.Ipc
