import RtThread.Spec.Sched

/-!
# Data queues (`components/drivers/src/dataqueue.c`)

A ring of `size` items with two 16-bit counters, and two lists of suspended threads. A step is what a call
does with interrupts off: from its entry, or from where it runs again, to its return or to `rt_schedule`.
The indices are promoted to `int` where they are subtracted.

`T` are the threads and interrupt handlers that use the queue. What `evt_notify` does is a caller of its own.
-/

namespace RtThread.DataQueue

open Sched

/-- `struct rt_data_item`. -/
structure DataItem where
  dataPtr : BitVec 32
  dataSize : BitVec 32
  deriving DecidableEq

/-- `struct rt_data_queue`, without its lists. -/
structure Queue where
  size : ℕ
  lwm : ℕ
  getIndex : ℕ
  putIndex : ℕ
  queue : ℕ → DataItem

/-- A value in a `rt_uint16_t`. -/
def uint16 (n : ℕ) : ℕ := n % 2 ^ 16

/-- `rt_data_queue_init`; the items are what `rt_malloc` gives. -/
def rtDataQueueInit (pool : ℕ → DataItem) (size lwm : ℕ) : Queue := ⟨uint16 size, uint16 lwm, 0, 0, pool⟩

namespace Queue

variable (q : Queue)

/-- `put_index - get_index`. -/
def difference : ℤ := (q.putIndex : ℤ) - q.getIndex

/-- Store an item behind the others. -/
def put (item : DataItem) : Queue :=
  { q with queue := Function.update q.queue (q.putIndex % q.size) item, putIndex := uint16 (q.putIndex + 1) }

/-- The item that `rt_data_queue_pop` reads. -/
def head : DataItem := q.queue (q.getIndex % q.size)

def get : Queue := { q with getIndex := uint16 (q.getIndex + 1) }

end Queue

/-- Where the call of a thread is. -/
inductive Call
  | idle
  /-- suspended in `rt_data_queue_push`, and resumed there with `thread->error` -/
  | pushSuspended (item : DataItem) (timeout : ℤ)
  | pushResumed (item : DataItem) (timeout : ℤ) (result : Err)
  /-- suspended in `rt_data_queue_pop`, and resumed there -/
  | popSuspended (timeout : ℤ)
  | popResumed (timeout : ℤ) (result : Err)
  deriving DecidableEq

structure State (T : Type) where
  queue : Queue
  suspendedPushList : List T
  suspendedPopList : List T
  call : T → Call

inductive Act (T : Type)
  | push (t : T) (item : DataItem) (timeout : ℤ)
  | pop (t : T) (timeout : ℤ)
  /-- a resumed thread runs again -/
  | resume (t : T)
  /-- the timer of a suspended thread runs out -/
  | timer (t : T)

variable {T : Type} [DecidableEq T]

namespace State

variable (s : State T)

def setCall (t : T) (p : Call) : State T := { s with call := Function.update s.call t p }

/-- `rt_thread_resume` of the first thread in `suspended_pop_list`. -/
def resumePop : State T :=
  match s.suspendedPopList with
  | [] => s
  | u :: l =>
    match s.call u with
    | .popSuspended timeout => { s with suspendedPopList := l }.setCall u (.popResumed timeout .eok)
    | _ => { s with suspendedPopList := l }

/-- `rt_thread_resume` of the first thread in `suspended_push_list`. -/
def resumePush : State T :=
  match s.suspendedPushList with
  | [] => s
  | u :: l =>
    match s.call u with
    | .pushSuspended item timeout => { s with suspendedPushList := l }.setCall u (.pushResumed item timeout .eok)
    | _ => { s with suspendedPushList := l }

/-- `rt_data_queue_push` from the test of its loop on. -/
def push (t : T) (item : DataItem) (timeout : ℤ) : State T :=
  if s.queue.difference = s.queue.size then
    if timeout = 0 then s.setCall t .idle
    else { s with suspendedPushList := s.suspendedPushList ++ [t] }.setCall t (.pushSuspended item timeout)
  else ({ s with queue := s.queue.put item }.setCall t .idle).resumePop

/-- `rt_data_queue_pop` from the test of its loop on. -/
def pop (t : T) (timeout : ℤ) : State T :=
  if s.queue.getIndex = s.queue.putIndex then
    if timeout = 0 then s.setCall t .idle
    else { s with suspendedPopList := s.suspendedPopList ++ [t] }.setCall t (.popSuspended timeout)
  else
    let s := { s with queue := s.queue.get }.setCall t .idle
    if s.queue.difference ≤ s.queue.lwm then s.resumePush else s

def step : Act T → Option (State T)
  | .push t item timeout => if s.call t = .idle then some (s.push t item timeout) else none
  | .pop t timeout => if s.call t = .idle then some (s.pop t timeout) else none
  | .resume t =>
    match s.call t with
    | .pushResumed item timeout result =>
      some (if result = .eok then s.push t item timeout else s.setCall t .idle)
    | .popResumed timeout result => some (if result = .eok then s.pop t timeout else s.setCall t .idle)
    | _ => none
  | .timer t =>
    match s.call t with
    | .pushSuspended item timeout =>
      if timeout > 0 then
        some ({ s with suspendedPushList := s.suspendedPushList.erase t }.setCall t
          (.pushResumed item timeout .etimeout))
      else none
    | .popSuspended timeout =>
      if timeout > 0 then
        some ({ s with suspendedPopList := s.suspendedPopList.erase t }.setCall t (.popResumed timeout .etimeout))
      else none
    | _ => none

end State

/-! ## The queue that it stands for -/

/-- The item that a step is to push. -/
def State.pushes (s : State T) : Act T → Option DataItem
  | .push _ item _ => some item
  | .resume t =>
    match s.call t with
    | .pushResumed item _ result => if result = .eok then some item else none
    | _ => none
  | _ => none

/-- The step is to pop an item. -/
def State.pops (s : State T) : Act T → Bool
  | .pop _ _ => true
  | .resume t =>
    match s.call t with
    | .popResumed _ result => result = .eok
    | _ => false
  | _ => false

/-- The item that a step stores. -/
def State.stores (s : State T) (a : Act T) : Option DataItem :=
  if s.queue.difference = s.queue.size then none else s.pushes a

/-- The item that a step returns. -/
def State.returns (s : State T) (a : Act T) : Option DataItem :=
  if s.queue.getIndex ≠ s.queue.putIndex ∧ s.pops a = true then some s.queue.head else none

/-- The items stored and the items returned, in their orders. -/
structure Log where
  pushed : List DataItem
  popped : List DataItem

def log (s : State T) (a : Act T) (_ : State T) (g : Log) : Log :=
  ⟨g.pushed ++ (s.stores a).toList, g.popped ++ (s.returns a).toList⟩

/-- A queue that has just been initialised. -/
def State.Init (size lwm : ℕ) (s : State T) : Prop :=
  ∃ pool, s = ⟨rtDataQueueInit pool size lwm, [], [], fun _ => .idle⟩

/-- The runs of a queue of `size` items whose steps all satisfy `ok`. -/
abbrev Runs (size lwm : ℕ) (ok : State T → Act T → Prop) : State T × Log → Prop :=
  Run.Reach (fun p => p.1.Init size lwm ∧ p.2 = ⟨[], []⟩)
    (Run.Logged (fun s a s' => s.step a = some s') log) (fun p a => ok p.1 a)

/-- The number of items between the counters. -/
def Queue.count (q : Queue) : ℕ := uint16 (q.putIndex + 2 ^ 16 - q.getIndex)

/-- Where item number `i` from the oldest on stands; item `count` is the one that comes next. -/
def Queue.slot (q : Queue) (i : ℕ) : ℕ := uint16 (q.getIndex + i) % q.size

/-- **The queue holds the items `stored`**, the oldest first. -/
structure Holds (size : ℕ) (s : State T) (g : Log) (stored : List DataItem) : Prop where
  /-- what was pushed has been returned in its order, or is stored -/
  fifo : g.pushed = g.popped ++ stored
  bounded : stored.length ≤ size
  /-- no item has been overwritten -/
  slots : ∀ i < stored.length, some (s.queue.queue (s.queue.slot i)) = stored[i]?
  empty : s.queue.getIndex = s.queue.putIndex ↔ stored = []

/-- A push behind a wrapped `put_index` finds fewer than `size` items, and none in its slot. -/
def KeepsItems (s : State T) (a : Act T) : Prop :=
  (s.pushes a).isSome → s.queue.getIndex ≤ s.queue.putIndex ∨ s.queue.count < s.queue.size ∧
    (s.queue.putIndex < 2 ^ 16 % s.queue.size → s.queue.count < 2 ^ 16 % s.queue.size)

instance (s : State T) (a : Act T) : Decidable (KeepsItems s a) := by
  unfold KeepsItems
  infer_instance

end RtThread.DataQueue
