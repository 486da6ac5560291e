import RtThread.Lib.Queue
import RtThread.Lib.Run
import RtThread.Lib.Bits
import Mathlib.Logic.Function.Basic

/-!
# The scheduler (`scheduler.c`, `thread.c`, one CPU)

Ready threads wait in one list for each priority; a bitmap says which of these lists hold
threads. A thread is linked through its one `tlist` node, which ready lists, the wait lists
of IPC objects and the defunct list share.

A function returns `none` where the system stops: a failed `RT_ASSERT`, a null pointer, an
index outside an array, or a shift by the width of the word or more. `Op` lists the calls
that move threads; each is one step.
-/

namespace RtThread.Sched

/-- `RT_THREAD_PRIORITY_MAX`; "maximum priority level, 256". -/
structure Config where
  priorityMax : ℕ
  priorityMax_le : priorityMax ≤ 256

/-- `#if RT_THREAD_PRIORITY_MAX > 32`. -/
def Config.wide (cfg : Config) : Bool := 32 < cfg.priorityMax

/-- The thread states, `stat & RT_THREAD_STAT_MASK`. -/
inductive Stat
  | init
  | ready
  | suspend
  | running
  | close
  deriving DecidableEq, Repr

/-- The error codes of `rtdef.h`; all but `eok` are returned negated. -/
inductive Err
  | eok
  | error
  | etimeout
  | efull
  | eempty
  | enomem
  | enosys
  | ebusy
  | eio
  | eintr
  | einval
  deriving DecidableEq, Repr

/-- `struct rt_thread`. -/
structure Thread where
  stat : Stat := .init
  initPriority : ℕ
  currentPriority : ℕ
  number : ℕ := 0
  numberMask : BitVec 32 := 0#32
  highMask : BitVec 8 := 0#8
  error : Err := .eok
  /-- `thread_timer` is active -/
  timerActive : Bool := false
  /-- the object is static: `rt_object_is_systemobject` -/
  systemObject : Bool := false
  /-- `cleanup` is not null -/
  cleanup : Bool := false
  eventSet : BitVec 32 := 0#32
  eventInfo : BitVec 8 := 0#8
  /-- `RT_THREAD_STAT_SIGNAL` of `stat` -/
  statSignal : Bool := false
  sigPending : BitVec 32 := 0#32
  sigMask : BitVec 32 := 0#32
  /-- the signal numbers of `si_list` -/
  siList : List ℕ := []
  /-- `sig_ret` is set: the thread goes on in `_signal_entry` -/
  sigRet : Bool := false

/-- `_rt_thread_init`. -/
def rtThreadInit (cfg : Config) (priority : ℕ) (systemObject : Bool) : Option Thread :=
  if priority < cfg.priorityMax then
    some { initPriority := priority, currentPriority := priority, systemObject }
  else none

/-- The recalculation of the priority attributes for `current_priority = p`. -/
def Thread.setPriority (cfg : Config) (th : Thread) (p : ℕ) : Option Thread :=
  if cfg.wide then
    some { th with
      currentPriority := p
      number := p >>> 3
      numberMask := 1#32 <<< (p >>> 3)
      highMask := 1#8 <<< (p % 8) }
  else if p < 32 then some { th with currentPriority := p, numberMask := 1#32 <<< p }
  else none

/-- The lists a `tlist` node can be linked in: ready lists, wait lists `Q`, and
`rt_thread_defunct`. -/
inductive Head (Q : Type)
  | priority (n : ℕ)
  | wait (q : Q)
  | defunct
  deriving DecidableEq

/-- `RT_IPC_FLAG_FIFO` and `RT_IPC_FLAG_PRIO`. -/
inductive IpcFlag
  | fifo
  | prio
  deriving DecidableEq, Repr

/-- The threads `T` and the scheduler's data. -/
structure Scheduler (T Q : Type) where
  thread : T → Thread
  /-- the lists; `.priority n` is `rt_thread_priority_table[n]` -/
  list : Head Q → List T
  /-- `rt_thread_ready_priority_group` -/
  readyGroup : BitVec 32
  /-- `rt_thread_ready_table` -/
  readyTable : ℕ → BitVec 8
  /-- `rt_current_thread` -/
  current : Option T
  /-- `rt_scheduler_lock_nest`, an `rt_int16_t` -/
  lockNest : BitVec 16

/-- `__lowest_bit_bitmap`. -/
def lowestBitBitmap : List ℕ :=
  [0, 0, 1, 0, 2, 0, 1, 0, 3, 0, 1, 0, 2, 0, 1, 0,
   4, 0, 1, 0, 2, 0, 1, 0, 3, 0, 1, 0, 2, 0, 1, 0,
   5, 0, 1, 0, 2, 0, 1, 0, 3, 0, 1, 0, 2, 0, 1, 0,
   4, 0, 1, 0, 2, 0, 1, 0, 3, 0, 1, 0, 2, 0, 1, 0,
   6, 0, 1, 0, 2, 0, 1, 0, 3, 0, 1, 0, 2, 0, 1, 0,
   4, 0, 1, 0, 2, 0, 1, 0, 3, 0, 1, 0, 2, 0, 1, 0,
   5, 0, 1, 0, 2, 0, 1, 0, 3, 0, 1, 0, 2, 0, 1, 0,
   4, 0, 1, 0, 2, 0, 1, 0, 3, 0, 1, 0, 2, 0, 1, 0,
   7, 0, 1, 0, 2, 0, 1, 0, 3, 0, 1, 0, 2, 0, 1, 0,
   4, 0, 1, 0, 2, 0, 1, 0, 3, 0, 1, 0, 2, 0, 1, 0,
   5, 0, 1, 0, 2, 0, 1, 0, 3, 0, 1, 0, 2, 0, 1, 0,
   4, 0, 1, 0, 2, 0, 1, 0, 3, 0, 1, 0, 2, 0, 1, 0,
   6, 0, 1, 0, 2, 0, 1, 0, 3, 0, 1, 0, 2, 0, 1, 0,
   4, 0, 1, 0, 2, 0, 1, 0, 3, 0, 1, 0, 2, 0, 1, 0,
   5, 0, 1, 0, 2, 0, 1, 0, 3, 0, 1, 0, 2, 0, 1, 0,
   4, 0, 1, 0, 2, 0, 1, 0, 3, 0, 1, 0, 2, 0, 1, 0]

/-- `__rt_ffs`: the least one bit, counted from 1, or 0. -/
def rtFfs (value : BitVec 32) : ℕ :=
  if value = 0#32 then 0
  else if value &&& 0xff#32 ≠ 0#32 then
    lowestBitBitmap.getD (value &&& 0xff#32).toNat 0 + 1
  else if value &&& 0xff00#32 ≠ 0#32 then
    lowestBitBitmap.getD ((value &&& 0xff00#32) >>> 8).toNat 0 + 9
  else if value &&& 0xff0000#32 ≠ 0#32 then
    lowestBitBitmap.getD ((value &&& 0xff0000#32) >>> 16).toNat 0 + 17
  else lowestBitBitmap.getD ((value &&& 0xff000000#32) >>> 24).toNat 0 + 25

namespace Scheduler

variable {T Q : Type} [DecidableEq T] [DecidableEq Q] (cfg : Config) (s : Scheduler T Q)

def stat (t : T) : Stat := (s.thread t).stat

def priority (t : T) : ℕ := (s.thread t).currentPriority

/-- Change one thread's control block. -/
def update (t : T) (f : Thread → Thread) : Scheduler T Q :=
  { s with thread := Function.update s.thread t (f (s.thread t)) }

def setStat (t : T) (v : Stat) : Scheduler T Q := s.update t fun th => { th with stat := v }

def setError (t : T) (e : Err) : Scheduler T Q := s.update t fun th => { th with error := e }

def setTimer (t : T) (v : Bool) : Scheduler T Q := s.update t fun th => { th with timerActive := v }

/-- `rt_list_remove` of the thread's node, from whatever list it is in. -/
def rtListRemove (t : T) : Scheduler T Q :=
  { s with list := fun h => (s.list h).filter (· ≠ t) }

/-- `rt_list_insert_before` the head of list `h`: the thread goes to the end. -/
def rtListInsertBefore (h : Head Q) (t : T) : Scheduler T Q :=
  { s with list := Function.update s.list h (s.list h ++ [t]) }

/-- `rt_list_insert_after` the head of list `h`: the thread goes to the front. -/
def rtListInsertAfter (h : Head Q) (t : T) : Scheduler T Q :=
  { s with list := Function.update s.list h (t :: s.list h) }

/-- Set the bits of the thread's priority, through its masks. -/
def setReadyBit (t : T) : Scheduler T Q :=
  let th := s.thread t
  if cfg.wide then
    { s with
      readyTable := Function.update s.readyTable th.number (s.readyTable th.number ||| th.highMask)
      readyGroup := s.readyGroup ||| th.numberMask }
  else { s with readyGroup := s.readyGroup ||| th.numberMask }

/-- Clear the bits of the thread's priority, through its masks. -/
def clearReadyBit (t : T) : Scheduler T Q :=
  let th := s.thread t
  if cfg.wide then
    let row := s.readyTable th.number &&& ~~~th.highMask
    { s with
      readyTable := Function.update s.readyTable th.number row
      readyGroup := if row = 0#8 then s.readyGroup &&& ~~~th.numberMask else s.readyGroup }
  else { s with readyGroup := s.readyGroup &&& ~~~th.numberMask }

/-- `rt_schedule_insert_thread`. -/
def rtScheduleInsertThread (t : T) : Option (Scheduler T Q) :=
  if s.current = some t then some (s.setStat t .running)
  else if s.priority t < cfg.priorityMax then
    some (((s.setStat t .ready).rtListInsertBefore (.priority (s.priority t)) t).setReadyBit cfg t)
  else none

/-- `rt_schedule_remove_thread`. -/
def rtScheduleRemoveThread (t : T) : Option (Scheduler T Q) :=
  if s.priority t < cfg.priorityMax then
    let s := s.rtListRemove t
    some (if (s.list (.priority (s.priority t))).isEmpty then s.clearReadyBit cfg t else s)
  else none

/-- The priority `_get_highest_priority_thread` reads off the bitmap. -/
def highestReadyPriority : Option ℕ :=
  if s.readyGroup = 0#32 then none
  else if cfg.wide then
    let number := rtFfs s.readyGroup - 1
    let row := s.readyTable number
    if row = 0#8 then none else some ((number <<< 3) + rtFfs (row.setWidth 32) - 1)
  else some (rtFfs s.readyGroup - 1)

/-- `_get_highest_priority_thread`: the thread, and `*highest_prio`. -/
def getHighestPriorityThread : Option (T × ℕ) := do
  let highest ← s.highestReadyPriority cfg
  if highest < cfg.priorityMax then
    let toThread ← (s.list (.priority highest)).head?
    return (toThread, highest)
  else none

/-- `rt_system_scheduler_start`. -/
def rtSystemSchedulerStart : Option (Scheduler T Q) := do
  let (toThread, _) ← s.getHighestPriorityThread cfg
  let s ← { s with current := some toThread }.rtScheduleRemoveThread cfg toThread
  return s.setStat toThread .running

/-- The switch of `rt_schedule`. -/
def switchTo (toThread fromThread : T) (needInsert : Bool) : Option (Scheduler T Q) := do
  let s := { s with current := some toThread }
  let s ← (if needInsert then s.rtScheduleInsertThread cfg fromThread else some s)
  let s ← s.rtScheduleRemoveThread cfg toThread
  return s.setStat toThread .running

/-- `rt_schedule`. -/
def rtSchedule : Option (Scheduler T Q) :=
  if s.lockNest = 0#16 then
    if s.readyGroup ≠ 0#32 then do
      let (highestThread, highest) ← s.getHighestPriorityThread cfg
      let cur ← s.current
      let stays := s.stat cur = .running ∧ s.priority cur < highest
      let toThread := if stays then cur else highestThread
      if toThread ≠ cur then s.switchTo cfg toThread cur (s.stat cur = .running)
      else
        let s ← s.rtScheduleRemoveThread cfg cur
        return s.setStat cur .running
    else some s
  else some s

/-- `rt_thread_resume`. -/
def rtThreadResume (t : T) : Option (Err × Scheduler T Q) :=
  if s.stat t = .suspend then do
    let s ← ((s.rtListRemove t).setTimer t false).rtScheduleInsertThread cfg t
    return (.eok, s)
  else some (.error, s)

/-- `rt_thread_startup`, up to `rt_schedule`. -/
def makeReady (t : T) : Option (Scheduler T Q) :=
  if s.stat t = .init then do
    let th ← (s.thread t).setPriority cfg (s.thread t).initPriority
    let (_, s) ← (s.update t fun _ => { th with stat := .suspend }).rtThreadResume cfg t
    return s
  else none

/-- `rt_thread_startup`. -/
def rtThreadStartup (t : T) : Option (Scheduler T Q) := do
  let s ← s.makeReady cfg t
  if s.current.isSome then s.rtSchedule cfg else return s

/-- `rt_thread_suspend`. -/
def rtThreadSuspend (t : T) : Option (Err × Scheduler T Q) :=
  if s.stat t = .ready ∨ s.stat t = .running then
    if s.stat t = .running → s.current = some t then do
      let s ← s.rtScheduleRemoveThread cfg t
      return (.eok, (s.setStat t .suspend).setTimer t false)
    else none
  else some (.error, s)

/-- `rt_thread_timeout`. -/
def rtThreadTimeout (t : T) : Option (Scheduler T Q) :=
  if s.stat t = .suspend then do
    let s ← ((s.setError t .etimeout).rtListRemove t).rtScheduleInsertThread cfg t
    s.rtSchedule cfg
  else none

/-- `rt_thread_control` with `RT_THREAD_CTRL_CHANGE_PRIORITY`. -/
def rtThreadChangePriority (t : T) (p : ℕ) : Option (Scheduler T Q) :=
  if s.stat t = .ready then do
    let s ← s.rtScheduleRemoveThread cfg t
    let th ← (s.thread t).setPriority cfg p
    (s.update t fun _ => th).rtScheduleInsertThread cfg t
  else do
    let th ← (s.thread t).setPriority cfg p
    return s.update t fun _ => th

/-- The end of a thread that is off the ready list: timer stopped, closed, and into the defunct
list unless its object is just detached. -/
def close (t : T) : Scheduler T Q :=
  let s := (s.setTimer t false).setStat t .close
  if (s.thread t).systemObject && !(s.thread t).cleanup then s
  else s.rtListInsertAfter .defunct t

/-- `rt_thread_delete`. -/
def rtThreadDelete (t : T) : Option (Scheduler T Q) :=
  if (s.thread t).systemObject = false then do
    let s ← (if s.stat t ≠ .init then s.rtScheduleRemoveThread cfg t else some s)
    return s.close t
  else none

/-- `rt_thread_detach`. -/
def rtThreadDetach (t : T) : Option (Scheduler T Q) :=
  if (s.thread t).systemObject = true then do
    let s ← (if s.stat t ≠ .init then s.rtScheduleRemoveThread cfg t else some s)
    return s.close t
  else none

/-- `rt_thread_exit`, run by the current thread. -/
def rtThreadExit : Option (Scheduler T Q) := do
  let t ← s.current
  let s ← s.rtScheduleRemoveThread cfg t
  (s.close t).rtSchedule cfg

/-- `rt_enter_critical`. -/
def rtEnterCritical : Scheduler T Q := { s with lockNest := s.lockNest + 1 }

/-- `rt_exit_critical`. -/
def rtExitCritical : Option (Scheduler T Q) :=
  let nest := s.lockNest - 1
  if nest.toInt ≤ 0 then
    let s := { s with lockNest := 0#16 }
    if s.current.isSome then s.rtSchedule cfg else some s
  else some { s with lockNest := nest }

/-- `rt_ipc_list_suspend`. The node is put into list `q` also where `rt_thread_suspend` refuses
because the thread waits already; the lists it would then corrupt are not modelled. -/
def rtIpcListSuspend (q : Q) (t : T) (flag : IpcFlag) : Option (Scheduler T Q) := do
  let (err, s) ← s.rtThreadSuspend cfg t
  if err = .eok then
    match flag with
    | .fifo => return s.rtListInsertBefore (.wait q) t
    | .prio =>
      let l := Queue.insertBefore (fun x => decide (s.priority t < s.priority x)) t (s.list (.wait q))
      return { s with list := Function.update s.list (.wait q) l }
  else none

/-- `rt_ipc_list_resume`. -/
def rtIpcListResume (q : Q) : Option (Scheduler T Q) := do
  let t ← (s.list (.wait q)).head?
  let (_, s) ← s.rtThreadResume cfg t
  return s

/-- The state `rt_system_scheduler_init` leaves. -/
def rtSystemSchedulerInit (thread : T → Thread) : Scheduler T Q :=
  { thread, list := fun _ => [], readyGroup := 0#32, readyTable := fun _ => 0#8, current := none,
    lockNest := 0#16 }

end Scheduler

/-- The calls that move threads. -/
inductive Op (T Q : Type)
  | startup (t : T)
  | suspend (t : T)
  | resume (t : T)
  | delete (t : T)
  | detach (t : T)
  | exit
  | timeout (t : T)
  | changePriority (t : T) (p : ℕ)
  | schedule
  /-- `rt_system_scheduler_start`, which `rtthread_startup` calls once -/
  | schedulerStart
  | enterCritical
  | exitCritical
  /-- the current thread waits in list `q` of an IPC object -/
  | ipcListSuspend (q : Q) (flag : IpcFlag)
  | ipcListResume (q : Q)

namespace Scheduler

variable {T Q : Type} [DecidableEq T] [DecidableEq Q] (cfg : Config) (s : Scheduler T Q)

/-- One call. -/
def step : Op T Q → Option (Scheduler T Q)
  | .startup t => s.rtThreadStartup cfg t
  | .suspend t => (s.rtThreadSuspend cfg t).map Prod.snd
  | .resume t => (s.rtThreadResume cfg t).map Prod.snd
  | .delete t => s.rtThreadDelete cfg t
  | .detach t => s.rtThreadDetach cfg t
  | .exit => s.rtThreadExit cfg
  | .timeout t => s.rtThreadTimeout cfg t
  | .changePriority t p => s.rtThreadChangePriority cfg t p
  | .schedule => s.rtSchedule cfg
  | .schedulerStart => if s.current = none then s.rtSystemSchedulerStart cfg else none
  | .enterCritical => some s.rtEnterCritical
  | .exitCritical => s.rtExitCritical cfg
  | .ipcListSuspend q flag => s.current.bind fun t => s.rtIpcListSuspend cfg q t flag
  | .ipcListResume q => s.rtIpcListResume cfg q

/-- The system before the scheduler starts: threads are initialised, none is started. -/
def Init : Prop :=
  ∃ thread : T → Thread,
    (∀ t, ∃ p sys th cleanup, rtThreadInit cfg p sys = some th ∧ thread t = { th with cleanup }) ∧
    s = rtSystemSchedulerInit thread

/-- The bit of priority `n` in the bitmap. -/
def readyBit (n : ℕ) : Bool :=
  if cfg.wide then (s.readyTable (n / 8)).getLsbD (n % 8) else s.readyGroup.getLsbD n

/-- **The ready lists and the bitmap represent the ready threads.** -/
structure Represents : Prop where
  /-- a ready thread is linked once, in the list of its priority, and nowhere else -/
  ready : ∀ t, s.stat t = .ready →
    ∀ h, (s.list h).count t = if h = .priority (s.priority t) then 1 else 0
  /-- no other thread is in a ready list -/
  other : ∀ t n, t ∈ s.list (.priority n) → s.stat t = .ready
  /-- a bit is set exactly when its list holds a thread -/
  bit : ∀ n, s.readyBit cfg n = true ↔ s.list (.priority n) ≠ []
  /-- with the wide bitmap, a bit of the group is set exactly when its row has a thread -/
  group : cfg.wide = true →
    ∀ r, s.readyGroup.getLsbD r = true ↔ ∃ n, n / 8 = r ∧ s.list (.priority n) ≠ []
  /-- `_get_highest_priority_thread` finds a ready thread of the least priority number -/
  highest : ∀ t, s.stat t = .ready → ∃ u p, s.getHighestPriorityThread cfg = some (u, p) ∧
    s.stat u = .ready ∧ s.priority u = p ∧ ∀ r, s.stat r = .ready → p ≤ s.priority r

end Scheduler

end RtThread.Sched
