import RtThread.Spec.Sched

/-!
# Inter-thread communication (`ipc.c`, `mempool.c`)

Semaphores, mutexes, events, mailboxes, message queues and memory pools. A call runs in sections: a section
is what runs with interrupts off, and ends where the call returns (`Next.ret`), enables
interrupts and calls `rt_schedule` (`Next.schedule`), or enables interrupts and goes on
(`Next.run`). A `Cont` says where the call goes on.

`rt_mutex_take` goes back to its label `__again` after a signal; it does so with interrupts
on, so there the test of `value`, the taking and the waiting are sections of their own.
-/

namespace RtThread.Ipc

open Sched

/-- `rt_int32_t` waiting times in ticks: 0 does not wait, a negative time waits for ever. -/
abbrev Time := BitVec 32

/-- `RT_WAITING_FOREVER`. -/
def rtWaitingForever : Time := -1#32

/-- The wait lists of the objects `O`. -/
inductive WaitList (O : Type)
  | sem (o : O)
  | mutex (o : O)
  | event (o : O)
  /-- `parent.suspend_thread` of a mailbox: receivers -/
  | mailbox (o : O)
  /-- `suspend_sender_thread` of a mailbox -/
  | mailboxSender (o : O)
  | messageQueue (o : O)
  | memPool (o : O)
  deriving DecidableEq

/-- `struct rt_semaphore`. -/
structure Semaphore where
  flag : IpcFlag
  value : BitVec 16

/-- `struct rt_mutex`. -/
structure Mutex (T : Type) where
  flag : IpcFlag
  value : BitVec 16
  originalPriority : ℕ
  hold : BitVec 8
  owner : Option T

/-- `rt_mutex_init`. -/
def rtMutexInit (T : Type) (flag : IpcFlag) : Mutex T :=
  { flag, value := 1#16, originalPriority := 0xff, hold := 0#8, owner := none }

/-- `struct rt_event`. -/
structure Event where
  flag : IpcFlag
  set : BitVec 32

/-- `struct rt_mailbox`. -/
structure Mailbox where
  flag : IpcFlag
  msgPool : ℕ → BitVec 32
  size : BitVec 16
  entry : BitVec 16
  inOffset : BitVec 16
  outOffset : BitVec 16

/-- `struct rt_messagequeue`; a message is a node of the pool, with its `next` link and its
bytes. -/
structure MessageQueue where
  flag : IpcFlag
  msgSize : BitVec 16
  maxMsgs : BitVec 16
  entry : BitVec 16
  msgQueueHead : Option ℕ
  msgQueueTail : Option ℕ
  msgQueueFree : Option ℕ
  next : ℕ → Option ℕ
  bytes : ℕ → List (BitVec 8)

/-- The word before a block of a memory pool: the next free block, or the pool of a block that
is in use. -/
inductive BlockHead
  | next (block : Option ℕ)
  | pool

/-- `struct rt_mempool`; a block is named by its address. -/
structure MemPool where
  blockList : Option ℕ
  blockTotalCount : ℕ
  blockFreeCount : ℕ
  suspendThreadCount : ℕ
  head : ℕ → BlockHead

/-- `rt_mb_init`. -/
def rtMbInit (flag : IpcFlag) (msgPool : ℕ → BitVec 32) (size : BitVec 16) : Mailbox :=
  { flag, msgPool, size, entry := 0#16, inOffset := 0#16, outOffset := 0#16 }

/-- The loop of `rt_mq_init`: `msg_queue_free` and the links after `n` rounds. -/
def mqInitFree : ℕ → Option ℕ × (ℕ → Option ℕ)
  | 0 => (none, fun _ => none)
  | n + 1 =>
    let (free, next) := mqInitFree n
    (some n, Function.update next n free)

/-- `rt_mq_init`; a message node is named by its place in the pool. -/
def rtMqInit (flag : IpcFlag) (msgSize maxMsgs : BitVec 16) (bytes : ℕ → List (BitVec 8)) :
    MessageQueue :=
  let (msgQueueFree, next) := mqInitFree maxMsgs.toNat
  { flag, msgSize, maxMsgs, bytes, msgQueueFree, next, entry := 0#16, msgQueueHead := none,
    msgQueueTail := none }

/-- The loop of `rt_mp_init`: the words before the first `n` blocks, `step` bytes apart. -/
def mpInitHead (start step : ℕ) (head : ℕ → BlockHead) : ℕ → ℕ → BlockHead
  | 0 => head
  | n + 1 => Function.update (mpInitHead start step head n) (start + n * step)
      (.next (some (start + (n + 1) * step)))

/-- `rt_mp_init` of a pool with `count` blocks, `step` bytes apart. -/
def rtMpInit (start step count : ℕ) (head : ℕ → BlockHead) : MemPool :=
  { blockList := some start, blockTotalCount := count, blockFreeCount := count,
    suspendThreadCount := 0,
    head := Function.update (mpInitHead start step head count) (start + (count - 1) * step)
      (.next none) }

/-- What a call hands out besides its error code. -/
inductive Out
  | none
  | word (w : BitVec 32)
  | bytes (b : List (BitVec 8))
  | block (b : ℕ)
  deriving DecidableEq

/-- Where a call goes on. -/
inductive Cont (O : Type)
  /-- it returns -/
  | ret (e : Err) (out : Out)
  /-- `rt_thread_sleep`, behind `rt_schedule` -/
  | sleep
  | semTake (o : O)
  /-- `rt_mutex_take`, behind `rt_schedule` -/
  | mutexTake (o : O) (time : Time)
  /-- `rt_mutex_take`, again: it has seen `value > 0` -/
  | mutexOwn (o : O)
  /-- `rt_mutex_take`, again: it has seen `value = 0` -/
  | mutexWait (o : O) (time : Time)
  | eventRecv (o : O)
  | mbSend (o : O) (value : BitVec 32) (timeout : Time)
  | mbRecv (o : O) (timeout : Time)
  /-- `rt_mq_send` or `rt_mq_urgent`, with its message node -/
  | mqLink (o : O) (msg : ℕ) (buffer : List (BitVec 8)) (urgent : Bool)
  | mqRecv (o : O) (size : ℕ) (timeout : Time)
  /-- `rt_mq_recv`, with the message it took off the queue -/
  | mqFree (o : O) (msg : ℕ) (size : ℕ)
  | mpAlloc (o : O) (time : Time)
  deriving DecidableEq

/-- How a section ends. -/
inductive Next (O : Type)
  | ret (e : Err) (out : Out)
  | schedule (k : Cont O)
  | run (k : Cont O)

/-- Where a thread is. -/
inductive Pc (O : Type)
  /-- in its own code; its last call returned `e` and `out` -/
  | user (e : Err) (out : Out)
  /-- about to call `rt_schedule` -/
  | schedule (k : Cont O)
  /-- in `rt_schedule`, behind the context switch -/
  | switched (k : Cont O)
  /-- inside a call, interrupts on -/
  | cont (k : Cont O)
  deriving DecidableEq

/-- The wait list of a call that has had to wait. -/
def Cont.waits {O : Type} : Cont O → Option (WaitList O)
  | .semTake o => some (.sem o)
  | .mutexTake o _ | .mutexOwn o | .mutexWait o _ => some (.mutex o)
  | .eventRecv o => some (.event o)
  | .mbSend o _ _ => some (.mailboxSender o)
  | .mbRecv o _ => some (.mailbox o)
  | .mqRecv o _ _ => some (.messageQueue o)
  | .mpAlloc o _ => some (.memPool o)
  | .ret _ _ | .sleep | .mqLink _ _ _ _ | .mqFree _ _ _ => none

def Pc.waits {O : Type} : Pc O → Option (WaitList O)
  | .user _ _ => none
  | .schedule k | .switched k | .cont k => k.waits

/-- Where a thread is once `rt_schedule` has returned. -/
def Cont.pc {O : Type} : Cont O → Pc O
  | .ret e out => .user e out
  | k => .cont k

/-- Where a thread is after a section. -/
def Next.pc {O : Type} : Next O → Pc O
  | .ret e out => .user e out
  | .schedule k => .schedule k
  | .run k => .cont k

/-- Threads `T`, objects `O`, and the pool of signal nodes. -/
structure Kernel (T O : Type) where
  sched : Scheduler T (WaitList O)
  sem : O → Semaphore
  mutex : O → Mutex T
  event : O → Event
  mailbox : O → Mailbox
  mq : O → MessageQueue
  memPool : O → MemPool
  pc : T → Pc O
  /-- the active interrupt handlers, innermost first: where the call of each goes on -/
  handlers : List (Next O)
  /-- free blocks of `_rt_siginfo_pool` -/
  siginfoPool : ℕ

namespace Kernel

variable {T O : Type} [DecidableEq T] [DecidableEq O] (cfg : Config) (s : Kernel T O)

def thread (t : T) : Thread := s.sched.thread t

/-- The threads waiting in a list, first to wake first. -/
def waiting (q : WaitList O) : List T := s.sched.list (.wait q)

def setSem (o : O) (x : Semaphore) : Kernel T O := { s with sem := Function.update s.sem o x }
def setMutex (o : O) (x : Mutex T) : Kernel T O := { s with mutex := Function.update s.mutex o x }
def setEvent (o : O) (x : Event) : Kernel T O := { s with event := Function.update s.event o x }
def setMailbox (o : O) (x : Mailbox) : Kernel T O := { s with mailbox := Function.update s.mailbox o x }
def setMq (o : O) (x : MessageQueue) : Kernel T O := { s with mq := Function.update s.mq o x }
def setMemPool (o : O) (x : MemPool) : Kernel T O := { s with memPool := Function.update s.memPool o x }
def setPc (t : T) (p : Pc O) : Kernel T O := { s with pc := Function.update s.pc t p }

/-- `thread->error = e`. -/
def setError (t : T) (e : Err) : Kernel T O := { s with sched := s.sched.setError t e }

/-- The way every object suspends its caller: `rt_ipc_list_suspend`, the thread's timer if there
is a waiting time, and `rt_schedule`. -/
def suspendOn (self : T) (q : WaitList O) (flag : IpcFlag) (time : Time) (k : Cont O) :
    Option (Kernel T O × Next O) := do
  let sched ← s.sched.rtIpcListSuspend cfg q self flag
  let sched := if 0 < time.toInt then sched.setTimer self true else sched
  return ({ s with sched }, .schedule k)

/-- The way every object resumes a waiter: `rt_ipc_list_resume` and `rt_schedule`. -/
def resumeFirst (q : WaitList O) (k : Cont O) : Option (Kernel T O × Next O) := do
  let sched ← s.sched.rtIpcListResume cfg q
  return ({ s with sched }, .schedule k)

/-! ## Semaphores -/

/-- `rt_sem_take`. -/
def rtSemTake (self : T) (o : O) (time : Time) : Option (Kernel T O × Next O) :=
  let sem := s.sem o
  if 0 < sem.value then some (s.setSem o { sem with value := sem.value - 1 }, .ret .eok .none)
  else if time = 0 then some (s, .ret .etimeout .none)
  else (s.setError self .eok).suspendOn cfg self (.sem o) sem.flag time (.semTake o)

/-- `rt_sem_release`. -/
def rtSemRelease (o : O) : Option (Kernel T O × Next O) :=
  let sem := s.sem o
  if s.waiting (.sem o) ≠ [] then s.resumeFirst cfg (.sem o) (.ret .eok .none)
  else some (s.setSem o { sem with value := sem.value + 1 }, .ret .eok .none)

/-! ## Mutexes -/

/-- `rt_mutex_take` takes the free mutex. -/
def mutexOwn (self : T) (o : O) : Kernel T O :=
  let mutex := s.mutex o
  s.setMutex o { mutex with
    value := mutex.value - 1
    owner := some self
    originalPriority := s.sched.priority self
    hold := mutex.hold + 1 }

/-- `rt_mutex_take` waits: the owner gets the caller's priority if it is more urgent. -/
def mutexWait (self : T) (o : O) (time : Time) : Option (Kernel T O × Next O) := do
  let owner ← (s.mutex o).owner
  let sched ← (if s.sched.priority self < s.sched.priority owner then
    s.sched.rtThreadChangePriority cfg owner (s.sched.priority self) else some s.sched)
  { s with sched }.suspendOn cfg self (.mutex o) (s.mutex o).flag time (.mutexTake o time)

/-- `rt_mutex_take`. -/
def rtMutexTake (self : T) (o : O) (time : Time) : Option (Kernel T O × Next O) :=
  let s := s.setError self .eok
  let mutex := s.mutex o
  if mutex.owner = some self then
    some (s.setMutex o { mutex with hold := mutex.hold + 1 }, .ret .eok .none)
  else if 0 < mutex.value then some (s.mutexOwn self o, .ret .eok .none)
  else if time = 0 then some (s.setError self .etimeout, .ret .etimeout .none)
  else s.mutexWait cfg self o time

/-- `rt_mutex_take`, behind `rt_schedule`: the caller's error tells why it was resumed. -/
def mutexTakeResumed (self : T) (o : O) (time : Time) : Kernel T O × Next O :=
  let err := (s.thread self).error
  if err ≠ .eok then
    if err = .eintr then
      if 0 < (s.mutex o).value then (s, .run (.mutexOwn o))
      else if time = 0 then (s.setError self .etimeout, .ret .etimeout .none)
      else (s, .run (.mutexWait o time))
    else (s, .ret err .none)
  else (s, .ret .eok .none)

/-- `rt_mutex_release`. -/
def rtMutexRelease (self : T) (o : O) : Option (Kernel T O × Next O) :=
  let mutex := s.mutex o
  if mutex.owner ≠ some self then some (s.setError self .error, .ret .error .none)
  else
    let mutex := { mutex with hold := mutex.hold - 1 }
    if mutex.hold = 0 then do
      let sched ← (if mutex.originalPriority ≠ s.sched.priority self then
        s.sched.rtThreadChangePriority cfg self mutex.originalPriority else some s.sched)
      let s := { s with sched }
      match s.waiting (.mutex o) with
      | thread :: _ =>
        (s.setMutex o { mutex with
          owner := some thread
          originalPriority := s.sched.priority thread
          hold := mutex.hold + 1 }).resumeFirst cfg (.mutex o) (.ret .eok .none)
      | [] =>
        return (s.setMutex o { mutex with
          value := mutex.value + 1
          owner := none
          originalPriority := 0xff }, .ret .eok .none)
    else some (s.setMutex o mutex, .ret .eok .none)

/-! ## Events -/

/-- `RT_EVENT_FLAG_AND`, `RT_EVENT_FLAG_OR` and `RT_EVENT_FLAG_CLEAR` of an option. -/
def flagAnd (option : BitVec 8) : Bool := option &&& 1#8 ≠ 0#8
def flagOr (option : BitVec 8) : Bool := option &&& 2#8 ≠ 0#8
def flagClear (option : BitVec 8) : Bool := option &&& 4#8 ≠ 0#8

/-- The walk of `rt_event_send` over the waiting threads; whether one was resumed. -/
def eventWake (o : O) : List T → Kernel T O → Option (Kernel T O × Bool)
  | [], s => some (s, false)
  | t :: ts, s => do
    let th := s.thread t
    let event := s.event o
    -- the event set the thread keeps, if its condition holds
    let received := if flagAnd th.eventInfo then
        if th.eventSet &&& event.set = th.eventSet then some th.eventSet else none
      else if flagOr th.eventInfo then
        if th.eventSet &&& event.set ≠ 0#32 then some (th.eventSet &&& event.set) else none
      else none
    match received with
    | none => eventWake o ts s
    | some set => do
      let s := { s with sched := s.sched.update t fun th => { th with eventSet := set } }
      let s := if flagClear th.eventInfo then
        s.setEvent o { event with set := event.set &&& ~~~set } else s
      let (_, sched) ← s.sched.rtThreadResume cfg t
      let (s, _) ← eventWake o ts { s with sched }
      return (s, true)

/-- `rt_event_send`. -/
def rtEventSend (o : O) (set : BitVec 32) : Option (Kernel T O × Next O) :=
  if set = 0#32 then some (s, .ret .error .none)
  else do
    let event := s.event o
    let s := s.setEvent o { event with set := event.set ||| set }
    let (s, needSchedule) ← eventWake cfg o (s.waiting (.event o)) s
    return (s, if needSchedule then .schedule (.ret .eok .none) else .ret .eok .none)

/-- `rt_event_recv`'s test of the event's set. -/
def eventTest (event : Event) (set : BitVec 32) (option : BitVec 8) : Bool :=
  if flagAnd option then event.set &&& set = set else event.set &&& set ≠ 0#32

/-- `rt_event_recv`. -/
def rtEventRecv (self : T) (o : O) (set : BitVec 32) (option : BitVec 8) (timeout : Time) :
    Option (Kernel T O × Next O) :=
  if set = 0#32 then some (s, .ret .error .none)
  else
    let s := s.setError self .eok
    let event := s.event o
    if !flagAnd option && !flagOr option then none
    else if eventTest event set option then
      let s := if flagClear option then s.setEvent o { event with set := event.set &&& ~~~set } else s
      some (s, .ret .eok (.word (event.set &&& set)))
    else if timeout = 0 then some (s.setError self .etimeout, .ret .etimeout .none)
    else
      let sched := s.sched.update self fun th => { th with eventSet := set, eventInfo := option }
      { s with sched }.suspendOn cfg self (.event o) event.flag timeout (.eventRecv o)

/-- `rt_event_recv`, behind `rt_schedule`. -/
def eventRecvResumed (self : T) : Kernel T O × Next O :=
  let th := s.thread self
  if th.error ≠ .eok then (s, .ret th.error .none) else (s, .ret .eok (.word th.eventSet))

/-! ## Mailboxes -/

/-- The waiting time left after `elapsed` ticks. -/
def timeLeft (timeout elapsed : Time) : Time :=
  if 0 < timeout.toInt then
    if (timeout - elapsed).toInt < 0 then 0 else timeout - elapsed
  else timeout

/-- The offset behind `offset`. -/
def Mailbox.wrap (mb : Mailbox) (offset : BitVec 16) : BitVec 16 :=
  if offset + 1 ≥ mb.size then 0#16 else offset + 1

/-- `rt_mb_send_wait`, behind its loop: store the mail. -/
def mbStore (o : O) (value : BitVec 32) : Option (Kernel T O × Next O) :=
  let mb := s.mailbox o
  let s := s.setMailbox o { mb with
    msgPool := Function.update mb.msgPool mb.inOffset.toNat value
    inOffset := Mailbox.wrap mb mb.inOffset
    entry := mb.entry + 1 }
  if s.waiting (.mailbox o) ≠ [] then s.resumeFirst cfg (.mailbox o) (.ret .eok .none)
  else some (s, .ret .eok .none)

/-- `rt_mb_send_wait`, the head of its loop. -/
def mbSendLoop (self : T) (o : O) (value : BitVec 32) (timeout : Time) :
    Option (Kernel T O × Next O) :=
  let mb := s.mailbox o
  if mb.entry = mb.size then
    let s := s.setError self .eok
    if timeout = 0 then some (s, .ret .efull .none)
    else s.suspendOn cfg self (.mailboxSender o) mb.flag timeout (.mbSend o value timeout)
  else s.mbStore cfg o value

/-- `rt_mb_send_wait`; `rt_mb_send` is this with `timeout` 0. -/
def rtMbSendWait (self : T) (o : O) (value : BitVec 32) (timeout : Time) :
    Option (Kernel T O × Next O) :=
  let mb := s.mailbox o
  if mb.entry = mb.size ∧ timeout = 0 then some (s, .ret .efull .none)
  else s.mbSendLoop cfg self o value timeout

/-- `rt_mb_send_wait`, behind `rt_schedule`. -/
def mbSendResumed (self : T) (o : O) (value : BitVec 32) (timeout elapsed : Time) :
    Option (Kernel T O × Next O) :=
  let err := (s.thread self).error
  if err ≠ .eok then some (s, .ret err .none)
  else s.mbSendLoop cfg self o value (timeLeft timeout elapsed)

/-- `rt_mb_recv`, behind its loop: fetch the mail. -/
def mbFetch (o : O) : Option (Kernel T O × Next O) :=
  let mb := s.mailbox o
  let out := Out.word (mb.msgPool mb.outOffset.toNat)
  let s := s.setMailbox o { mb with
    outOffset := Mailbox.wrap mb mb.outOffset
    entry := mb.entry - 1 }
  if s.waiting (.mailboxSender o) ≠ [] then s.resumeFirst cfg (.mailboxSender o) (.ret .eok out)
  else some (s, .ret .eok out)

/-- `rt_mb_recv`, the head of its loop. -/
def mbRecvLoop (self : T) (o : O) (timeout : Time) : Option (Kernel T O × Next O) :=
  let mb := s.mailbox o
  if mb.entry = 0#16 then
    let s := s.setError self .eok
    if timeout = 0 then some (s.setError self .etimeout, .ret .etimeout .none)
    else s.suspendOn cfg self (.mailbox o) mb.flag timeout (.mbRecv o timeout)
  else s.mbFetch cfg o

/-- `rt_mb_recv`. -/
def rtMbRecv (self : T) (o : O) (timeout : Time) : Option (Kernel T O × Next O) :=
  if (s.mailbox o).entry = 0#16 ∧ timeout = 0 then some (s, .ret .etimeout .none)
  else s.mbRecvLoop cfg self o timeout

/-- `rt_mb_recv`, behind `rt_schedule`. -/
def mbRecvResumed (self : T) (o : O) (timeout elapsed : Time) : Option (Kernel T O × Next O) :=
  let err := (s.thread self).error
  if err ≠ .eok then some (s, .ret err .none)
  else s.mbRecvLoop cfg self o (timeLeft timeout elapsed)

/-! ## Message queues -/

/-- `rt_mq_send`, or `rt_mq_urgent`: take a node off the free list. -/
def rtMqSend (o : O) (buffer : List (BitVec 8)) (urgent : Bool) : Option (Kernel T O × Next O) :=
  let mq := s.mq o
  if buffer.length = 0 then none
  else if mq.msgSize.toNat < buffer.length then some (s, .ret .error .none)
  else match mq.msgQueueFree with
    | none => some (s, .ret .efull .none)
    | some msg =>
      some (s.setMq o { mq with msgQueueFree := mq.next msg }, .run (.mqLink o msg buffer urgent))

/-- Link a message behind the tail of the queue. -/
def MessageQueue.append (mq : MessageQueue) (msg : ℕ) : MessageQueue :=
  { mq with
    next := match mq.msgQueueTail with
      | some tail => Function.update (Function.update mq.next msg none) tail (some msg)
      | none => Function.update mq.next msg none
    msgQueueTail := some msg
    msgQueueHead := if mq.msgQueueHead = none then some msg else mq.msgQueueHead
    entry := mq.entry + 1 }

/-- Link a message before the head of the queue. -/
def MessageQueue.prepend (mq : MessageQueue) (msg : ℕ) : MessageQueue :=
  { mq with
    next := Function.update mq.next msg mq.msgQueueHead
    msgQueueHead := some msg
    msgQueueTail := if mq.msgQueueTail = none then some msg else mq.msgQueueTail
    entry := mq.entry + 1 }

/-- `rt_mq_send`, or `rt_mq_urgent`, with the node: copy the bytes and link it. -/
def mqLink (o : O) (msg : ℕ) (buffer : List (BitVec 8)) (urgent : Bool) :
    Option (Kernel T O × Next O) :=
  let mq := s.mq o
  let mq := { mq with
    bytes := Function.update mq.bytes msg (buffer ++ (mq.bytes msg).drop buffer.length) }
  let s := s.setMq o (if urgent then MessageQueue.prepend mq msg else MessageQueue.append mq msg)
  if s.waiting (.messageQueue o) ≠ [] then s.resumeFirst cfg (.messageQueue o) (.ret .eok .none)
  else some (s, .ret .eok .none)

/-- `rt_mq_recv`, the head of its loop. -/
def mqRecvLoop (self : T) (o : O) (size : ℕ) (timeout : Time) : Option (Kernel T O × Next O) :=
  let mq := s.mq o
  if mq.entry = 0#16 then
    let s := s.setError self .eok
    if timeout = 0 then some (s.setError self .etimeout, .ret .etimeout .none)
    else s.suspendOn cfg self (.messageQueue o) mq.flag timeout (.mqRecv o size timeout)
  else do
    let msg ← mq.msgQueueHead
    return (s.setMq o { mq with
      msgQueueHead := mq.next msg
      msgQueueTail := if mq.msgQueueTail = some msg then none else mq.msgQueueTail
      entry := mq.entry - 1 }, .run (.mqFree o msg size))

/-- `rt_mq_recv`. -/
def rtMqRecv (self : T) (o : O) (size : ℕ) (timeout : Time) : Option (Kernel T O × Next O) :=
  if size = 0 then none
  else if (s.mq o).entry = 0#16 ∧ timeout = 0 then some (s, .ret .etimeout .none)
  else s.mqRecvLoop cfg self o size timeout

/-- `rt_mq_recv`, behind `rt_schedule`. -/
def mqRecvResumed (self : T) (o : O) (size : ℕ) (timeout elapsed : Time) :
    Option (Kernel T O × Next O) :=
  let err := (s.thread self).error
  if err ≠ .eok then some (s, .ret err .none)
  else s.mqRecvLoop cfg self o size (timeLeft timeout elapsed)

/-- `rt_mq_recv`, with the message: copy its bytes and free the node. -/
def mqFree (o : O) (msg : ℕ) (size : ℕ) : Kernel T O × Next O :=
  let mq := s.mq o
  (s.setMq o { mq with
    next := Function.update mq.next msg mq.msgQueueFree
    msgQueueFree := some msg },
   .ret .eok (.bytes ((mq.bytes msg).take (min size mq.msgSize.toNat))))

/-- `rt_ipc_list_resume_all`, over the threads of the list. -/
def rtIpcListResumeAll : List T → Scheduler T (WaitList O) → Option (Scheduler T (WaitList O))
  | [], sched => some sched
  | t :: ts, sched => do
    let (err, sched) ← (sched.setError t .error).rtThreadResume cfg t
    -- the loop would not end with a thread that stays in the list
    if err = .eok then rtIpcListResumeAll ts sched else none

/-- The loop of `rt_mq_control` that frees the queued messages; `fuel` bounds its rounds. -/
def MessageQueue.drain : ℕ → MessageQueue → Option MessageQueue
  | fuel, mq => match mq.msgQueueHead with
    | none => some mq
    | some msg => match fuel with
      | 0 => none
      | fuel + 1 => drain fuel { mq with
          msgQueueHead := mq.next msg
          msgQueueTail := if mq.msgQueueTail = some msg then none else mq.msgQueueTail
          next := Function.update mq.next msg mq.msgQueueFree
          msgQueueFree := some msg }

/-- `rt_mq_control` with `RT_IPC_CMD_RESET`. -/
def mqReset (o : O) : Option (Kernel T O × Next O) := do
  let sched ← rtIpcListResumeAll cfg (s.waiting (.messageQueue o)) s.sched
  let mq ← MessageQueue.drain (s.mq o).maxMsgs.toNat (s.mq o)
  return ({ s with sched }.setMq o { mq with entry := 0 }, .schedule (.ret .eok .none))

/-! ## Memory pools -/

/-- `rt_mp_alloc`, the head of its loop. -/
def mpAllocLoop (self : T) (o : O) (time : Time) : Option (Kernel T O × Next O) :=
  let mp := s.memPool o
  if mp.blockFreeCount = 0 then
    if time = 0 then some (s.setError self .etimeout, .ret .etimeout .none)
    else do
      let s := s.setError self .eok
      let (err, sched) ← s.sched.rtThreadSuspend cfg self
      -- as in `rt_ipc_list_suspend`
      if err = .eok then
        let sched := sched.rtListInsertAfter (.wait (.memPool o)) self
        let sched := if 0 < time.toInt then sched.setTimer self true else sched
        some ({ s with sched }.setMemPool o { mp with
          suspendThreadCount := mp.suspendThreadCount + 1 }, .schedule (.mpAlloc o time))
      else none
  else do
    let block ← mp.blockList
    match mp.head block with
    | .next block' =>
      return (s.setMemPool o { mp with
        blockFreeCount := mp.blockFreeCount - 1
        blockList := block'
        head := Function.update mp.head block .pool }, .ret .eok (.block block))
    | .pool => none

/-- `rt_mp_alloc`, behind `rt_schedule`. -/
def mpAllocResumed (self : T) (o : O) (time elapsed : Time) : Option (Kernel T O × Next O) :=
  let err := (s.thread self).error
  if err ≠ .eok then some (s, .ret err .none)
  else s.mpAllocLoop cfg self o (timeLeft time elapsed)

/-- `rt_mp_free` of a block of pool `o`. -/
def rtMpFree (o : O) (block : ℕ) : Option (Kernel T O × Next O) :=
  let mp := s.memPool o
  match mp.head block with
  | .next _ => none
  | .pool =>
    let mp := { mp with
      blockFreeCount := mp.blockFreeCount + 1
      head := Function.update mp.head block (.next mp.blockList)
      blockList := some block }
    if 0 < mp.suspendThreadCount then do
      -- an empty list has no thread to take
      let thread ← (s.waiting (.memPool o)).head?
      let (_, sched) ← (s.sched.setError thread .eok).rtThreadResume cfg thread
      return ({ s with sched }.setMemPool o { mp with
        suspendThreadCount := mp.suspendThreadCount - 1 }, .schedule (.ret .eok .none))
    else some (s.setMemPool o mp, .ret .eok .none)

/-! ## Threads -/

/-- `rt_thread_sleep`. -/
def rtThreadSleep (self : T) : Option (Kernel T O × Next O) := do
  let (_, sched) ← s.sched.rtThreadSuspend cfg self
  return ({ s with sched := sched.setTimer self true }, .schedule .sleep)

/-- `rt_thread_sleep`, behind `rt_schedule`. -/
def sleepResumed (self : T) : Kernel T O × Next O :=
  (if (s.thread self).error = .etimeout then s.setError self .eok else s, .ret .eok .none)

end Kernel

end RtThread.Ipc
