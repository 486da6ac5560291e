import RtThread.Lib.Chain
import RtThread.Lib.Run
import RtThread.Spec.Sched

/-!
# Priority queues (`components/vbus/prio_queue.c`)

Items lie in blocks of a memory pool, and are linked into one list for each of 32 priorities. A step is what a call
does with interrupts off, from its entry or from where it runs again to where it returns or enables them, and what it
does alone before that: a push that has a block copies its data there, a pop that has an item copies its data and
frees the block.

`T` are the threads, `D` the data of an item. The blocks of the pool are numbered (`Spec/MemBlocks` has their
addresses); the waiting for a block is that of `rt_mp_alloc`. A thread that times out there does not decrement
`suspend_thread_count`, and where that count is not 0 and nobody waits, `rt_mp_free` takes the empty list for a thread
and writes to it: `stray` is what this does to the memory of the items, which may be anything.
-/

namespace RtThread.PrioQueue

open Sched (Err rtFfs)

/-! ## The lists -/

/-- The items: `next`, and the data behind it. -/
structure Items (D : Type) where
  next : ℕ → Option ℕ
  data : ℕ → D

/-- `struct rt_prio_queue`, without its pool and its threads. -/
structure Queue (D : Type) where
  bitmap : BitVec 32
  head : ℕ → Option ℕ
  tail : ℕ → Option ℕ
  items : Items D

def rtPrioQueuePrioMax : ℕ := 32

namespace Queue

variable {D : Type} (que : Queue D)

/-- `_do_push`; an assertion that fails is `none`. -/
def doPush (prio item : ℕ) : Option (Queue D) :=
  match que.head prio with
  | none => some { que with
      head := Function.update que.head prio (some item)
      bitmap := que.bitmap ||| 1#32 <<< prio
      tail := Function.update que.tail prio (some item) }
  | some _ =>
    match que.tail prio with
    | none => none
    | some last => some { que with
        items := { que.items with next := Function.update que.items.next last (some item) }
        tail := Function.update que.tail prio (some item) }

/-- `_do_pop`: the item, if there is one. -/
def doPop : Option (Option ℕ × Queue D) :=
  let ffs := rtFfs que.bitmap
  if ffs = 0 then some (none, que)
  else
    match que.head (ffs - 1) with
    | none => none
    | some item => some (some item, { que with
        head := Function.update que.head (ffs - 1) (que.items.next item)
        bitmap := if que.items.next item = none then que.bitmap &&& ~~~(1#32 <<< (ffs - 1)) else que.bitmap })

end Queue

/-! ## The threads -/

/-- Where the call of a thread is. -/
inductive Call (D : Type)
  | idle
  /-- suspended in `rt_mp_alloc`, and resumed there with `thread->error` -/
  | allocSuspended (prio : ℕ) (data : D) (timeout : ℤ)
  | allocResumed (prio : ℕ) (data : D) (timeout : ℤ) (result : Err)
  /-- `_do_push` is next -/
  | linking (prio : ℕ) (data : D) (item : ℕ)
  /-- suspended in `rt_prio_queue_pop`, and resumed there -/
  | popSuspended (timeout : ℤ)
  | popResumed (timeout : ℤ) (result : Err)
  /-- it has unlinked an item -/
  | copying (item : ℕ)
  deriving DecidableEq

/-- The block that a thread holds. -/
def Call.item {D : Type} : Call D → Option ℕ
  | .linking _ _ item => some item
  | .copying item => some item
  | _ => none

structure State (T D : Type) where
  queue : Queue D
  /-- the pool; `block_free_count` is the length of the list -/
  blockList : List ℕ
  suspendThread : List T
  suspendThreadCount : ℕ
  suspendedPopList : List T
  call : T → Call D

inductive Act (T D : Type)
  | push (t : T) (prio : ℕ) (data : D) (timeout : ℤ)
  | link (t : T)
  | pop (t : T) (timeout : ℤ)
  | copy (t : T)
  /-- a resumed thread runs again, `elapsed` ticks after it was suspended -/
  | resume (t : T) (elapsed : ℕ)
  /-- the timer of a suspended thread runs out -/
  | timer (t : T)

variable {T D : Type} [DecidableEq T]

namespace State

variable (stray : Items D → Items D) (s : State T D)

def setCall (t : T) (p : Call D) : State T D := { s with call := Function.update s.call t p }

def setItems (items : Items D) : State T D := { s with queue := { s.queue with items } }

/-- `rt_mp_alloc` from the test of its loop on, and what `rt_prio_queue_push` does with the block. -/
def mpAlloc (t : T) (prio : ℕ) (data : D) (timeout : ℤ) : State T D :=
  match s.blockList with
  | [] =>
    if timeout = 0 then s.setCall t .idle
    else { s with
      suspendThread := t :: s.suspendThread
      suspendThreadCount := s.suspendThreadCount + 1 }.setCall t (.allocSuspended prio data timeout)
  | item :: blockList =>
    ({ s with blockList }.setItems
      { next := Function.update s.queue.items.next item none
        data := Function.update s.queue.items.data item data }).setCall t (.linking prio data item)

/-- `rt_thread_resume` of the first thread in `suspended_pop_list`. -/
def resumePop : State T D :=
  match s.suspendedPopList with
  | [] => s
  | u :: l =>
    match s.call u with
    | .popSuspended timeout => { s with suspendedPopList := l }.setCall u (.popResumed timeout .eok)
    | _ => { s with suspendedPopList := l }

/-- `rt_prio_queue_pop` from the test of its loop on. -/
def pop (t : T) (timeout : ℤ) : Option (State T D) :=
  match s.queue.doPop with
  | none => none
  | some (some item, queue) => some ({ s with queue }.setCall t (.copying item))
  | some (none, queue) =>
    if timeout = 0 then some ({ s with queue }.setCall t .idle)
    else some ({ s with queue, suspendedPopList := s.suspendedPopList ++ [t] }.setCall t (.popSuspended timeout))

/-- `rt_mp_free`. -/
def mpFree (item : ℕ) : State T D :=
  let s := { s with blockList := item :: s.blockList }
  if 0 < s.suspendThreadCount then
    let s := { s with suspendThreadCount := s.suspendThreadCount - 1 }
    match s.suspendThread with
    | [] => s.setItems (stray s.queue.items)
    | u :: l =>
      match s.call u with
      | .allocSuspended prio data timeout =>
        { s with suspendThread := l }.setCall u (.allocResumed prio data timeout .eok)
      | _ => { s with suspendThread := l }
  else s

/-- What is left of a timeout. -/
def timeLeft (timeout : ℤ) (elapsed : ℕ) : ℤ := if 0 < timeout then max (timeout - elapsed) 0 else timeout

def step : Act T D → Option (State T D)
  | .push t prio data timeout =>
    match s.call t with
    | .idle => some (if rtPrioQueuePrioMax ≤ prio then s else s.mpAlloc t prio data timeout)
    | _ => none
  | .link t =>
    match s.call t with
    | .linking prio _ item => (s.queue.doPush prio item).map fun queue => ({ s with queue }.setCall t .idle).resumePop
    | _ => none
  | .pop t timeout =>
    match s.call t with
    | .idle => s.pop t timeout
    | _ => none
  | .copy t =>
    match s.call t with
    | .copying item => some ((s.setCall t .idle).mpFree stray item)
    | _ => none
  | .resume t elapsed =>
    match s.call t with
    | .allocResumed prio data timeout result =>
      some (if result = .eok then s.mpAlloc t prio data (timeLeft timeout elapsed) else s.setCall t .idle)
    | .popResumed timeout result => if result = .eok then s.pop t timeout else some (s.setCall t .idle)
    | _ => none
  | .timer t =>
    match s.call t with
    | .allocSuspended prio data timeout =>
      if 0 < timeout then
        some ({ s with suspendThread := s.suspendThread.erase t }.setCall t
          (.allocResumed prio data timeout .etimeout))
      else none
    | .popSuspended timeout =>
      if 0 < timeout then
        some ({ s with suspendedPopList := s.suspendedPopList.erase t }.setCall t (.popResumed timeout .etimeout))
      else none
    | _ => none

/-- `rt_prio_queue_init`, with a pool of `n` blocks. -/
def init (n : ℕ) (items : Items D) : State T D where
  queue := ⟨0#32, fun _ => none, fun _ => none, items⟩
  blockList := List.range n
  suspendThread := []
  suspendThreadCount := 0
  suspendedPopList := []
  call _ := .idle

end State

/-! ## The queue that it stands for -/

/-- An item that was pushed, as number `seq`. -/
structure Entry (D : Type) where
  seq : ℕ
  prio : ℕ
  data : D
  item : ℕ
  deriving DecidableEq

/-- The items pushed: how many, those that are queued, the oldest first, and those taken out. A thread that has taken
one holds it until it returns with data. -/
structure Log (T D : Type) where
  pushed : ℕ
  queued : List (Entry D)
  taken : List (Entry D)
  holds : T → Option (Entry D)
  returned : List (Entry D × D)

/-- A thread unlinks an item. -/
def Log.take (g : Log T D) (t : T) (item : ℕ) : Log T D :=
  { g with
    queued := g.queued.eraseP (·.item = item)
    taken := g.taken ++ (g.queued.find? (·.item = item)).toList
    holds := Function.update g.holds t (g.queued.find? (·.item = item)) }

def log (s : State T D) (a : Act T D) (s' : State T D) (g : Log T D) : Log T D :=
  match a with
  | .link t =>
    match s.call t with
    | .linking prio data item =>
      { g with pushed := g.pushed + 1, queued := g.queued ++ [⟨g.pushed, prio, data, item⟩] }
    | _ => g
  | .pop t _ | .resume t _ =>
    match s'.call t with
    | .copying item => g.take t item
    | _ => g
  | .copy t =>
    match s.call t, g.holds t with
    | .copying item, some e => { g with returned := g.returned ++ [(e, s.queue.items.data item)] }
    | _, _ => g
  | _ => g

def Log.start : Log T D := ⟨0, [], [], fun _ => none, []⟩

/-- A queue that was just initialised, with `n` blocks. -/
def Initial (n : ℕ) (s : State T D) : Prop := ∃ items, s = .init n items

/-- The runs of a queue with `n` blocks whose steps all satisfy `ok`. -/
abbrev Runs (stray : Items D → Items D) (n : ℕ) (ok : State T D → Act T D → Prop) : State T D × Log T D → Prop :=
  Run.Reach (fun p => Initial n p.1 ∧ p.2 = Log.start)
    (Run.Logged (fun s a s' => s.step stray a = some s') log) (fun p a => ok p.1 a)

/-- `rt_mp_free` finds a thread where it counts one. -/
def FindsThread (s : State T D) : Act T D → Prop
  | .copy _ => 0 < s.suspendThreadCount → s.suspendThread ≠ []
  | _ => True

instance (s : State T D) (a : Act T D) : Decidable (FindsThread s a) := by
  unfold FindsThread
  split <;> infer_instance

/-- The oldest entry of the smallest priority number. -/
def First (l : List (Entry D)) (e : Entry D) : Prop :=
  ∃ l₁ l₂, l = l₁ ++ e :: l₂ ∧ (∀ e' ∈ l₁, e.prio < e'.prio) ∧ ∀ e' ∈ l₂, e.prio ≤ e'.prio

/-- The thread that a step lets take an item. -/
def Act.pops : Act T D → Option T
  | .pop t _ => some t
  | .resume t _ => some t
  | _ => none

/-- **Order and delivery**: the lists and the bitmap are those of the queued items, each of which is taken once. -/
structure Delivers (stray : Items D → Items D) (s : State T D) (g : Log T D) : Prop where
  /-- the items pushed are the queued ones and the taken ones, each once -/
  once : ((g.taken ++ g.queued).map Entry.seq).Perm (List.range g.pushed)
  order : (g.queued.map Entry.seq).Pairwise (· < ·)
  /-- what pops returned are items taken, each at most once, with their data -/
  returned : (g.returned.map (·.1.seq)).Nodup
  data : ∀ x ∈ g.returned, x.1 ∈ g.taken ∧ x.2 = x.1.data
  /-- an item that a step unlinks is the first one -/
  first : ∀ a t s' item, a.pops = some t → s.step stray a = some s' → s'.call t = .copying item →
    ∃ e, e.item = item ∧ First g.queued e
  lists : ∀ p < 32, Chain s.queue.items.next (s.queue.head p) ((g.queued.filter (·.prio = p)).map Entry.item)
  bitmap : ∀ p < 32, s.queue.bitmap.getLsbD p = true ↔ s.queue.head p ≠ none
  /-- the list of suspended threads is that -/
  suspended : s.suspendedPopList.Nodup ∧ ∀ t, t ∈ s.suspendedPopList ↔ ∃ timeout, s.call t = .popSuspended timeout
  /-- for the suspended threads and the queued items, threads have been resumed -/
  awake : ∃ l : List T, l.Nodup ∧ (∀ t ∈ l, ∃ timeout, s.call t = .popResumed timeout .eok) ∧
    min s.suspendedPopList.length g.queued.length ≤ l.length

end RtThread.PrioQueue
