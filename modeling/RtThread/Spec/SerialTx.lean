import RtThread.Spec.DataQueue

/-!
# DMA transmission of serial devices (`components/drivers/serial/serial.c`)

A writer pushes its buffer to a data queue, and starts the transfer if it then finds the channel idle. The
interrupt handler of a finished transfer takes the first buffer off the queue, and starts the next one.

`_serial_dma_tx` takes three steps: `rt_data_queue_push`, the test of `activated`, and `dma_transmit`. The
handler runs between them, in one step. `T` are the threads, and `none` in `Option T` is the handler.
-/

namespace RtThread.SerialTx

open DataQueue (DataItem)

/-- Where `_serial_dma_tx` of a thread is. -/
inductive Writer
  | idle
  /-- suspended in `rt_data_queue_push` -/
  | pushing (item : DataItem)
  /-- behind `rt_data_queue_push` -/
  | pushed (item : DataItem)
  /-- in front of `dma_transmit` -/
  | starting (item : DataItem)
  deriving DecidableEq

/-- `struct rt_serial_tx_dma`, the writers, and the transfers that the hardware has not finished. -/
structure State (T : Type) where
  dataQueue : DataQueue.State (Option T)
  activated : Bool
  writer : T → Writer
  inFlight : List DataItem

inductive Act (T : Type)
  /-- `_serial_dma_tx` is called -/
  | write (t : T) (item : DataItem)
  /-- a writer that was resumed runs again -/
  | resume (t : T)
  /-- the test of `activated` -/
  | test (t : T)
  /-- `dma_transmit` -/
  | start (t : T)
  /-- `RT_SERIAL_EVENT_TX_DMADONE` -/
  | dmadone

/-- `RT_WAITING_FOREVER`. -/
def rtWaitingForever : ℤ := -1

variable {T : Type} [DecidableEq T]

namespace State

variable (s : State T)

def setWriter (t : T) (w : Writer) : State T := { s with writer := Function.update s.writer t w }

/-- A writer goes on, once `rt_data_queue_push` has returned. -/
def pushed (t : T) (item : DataItem) (dq : DataQueue.State (Option T)) : State T :=
  { s with dataQueue := dq }.setWriter t (if dq.call (some t) = DataQueue.Call.idle then .pushed item else .pushing item)

/-- `RT_SERIAL_EVENT_TX_DMADONE`, when the first transfer has finished. -/
def dmadone (rest : List DataItem) : State T :=
  let dq := s.dataQueue.pop none 0
  -- `rt_data_queue_peak`
  if dq.queue.getIndex = dq.queue.putIndex then { s with dataQueue := dq, activated := false, inFlight := rest }
  else { s with dataQueue := dq, activated := true, inFlight := rest ++ [dq.queue.head] }

def step : Act T → Option (State T)
  | .write t item =>
    if s.writer t = .idle then some (s.pushed t item (s.dataQueue.push (some t) item rtWaitingForever)) else none
  | .resume t =>
    match s.writer t, s.dataQueue.call (some t) with
    | .pushing item, .pushResumed item' timeout result =>
      if result = .eok then some (s.pushed t item (s.dataQueue.push (some t) item' timeout))
      else some ({ s with dataQueue := s.dataQueue.setCall (some t) .idle }.setWriter t .idle)
    | _, _ => none
  | .test t =>
    match s.writer t with
    | .pushed item =>
      if s.activated then some (s.setWriter t .idle)
      else some ({ s with activated := true }.setWriter t (.starting item))
    | _ => none
  | .start t =>
    match s.writer t with
    | .starting item => some ({ s with inFlight := s.inFlight ++ [item] }.setWriter t .idle)
    | _ => none
  | .dmadone =>
    match s.inFlight with
    | [] => none
    | _ :: rest => some (s.dmadone rest)

/-- What a step does with the data queue. -/
def queueAct : Act T → Option (DataQueue.Act (Option T))
  | .write t item => some (.push (some t) item rtWaitingForever)
  | .resume t => some (.resume (some t))
  | .dmadone => some (.pop none 0)
  | .test _ | .start _ => none

/-- The buffer that a step gives to `dma_transmit`. -/
def transmits : Act T → Option DataItem
  | .start t =>
    match s.writer t with
    | .starting item => some item
    | _ => none
  | .dmadone =>
    let dq := s.dataQueue.pop none 0
    if dq.queue.getIndex = dq.queue.putIndex then none else some dq.queue.head
  | .write _ _ | .resume _ | .test _ => none

/-- The buffer whose transfer has finished, and what `tx_complete` is called with; nothing, where the queue
was empty. -/
def completes : Act T → Option (DataItem × Option DataItem)
  | .dmadone => s.inFlight.head?.map fun item => (item, s.dataQueue.returns (.pop none 0))
  | _ => none

end State

/-- The buffers that went through the data queue, those given to `dma_transmit`, and those that finished. -/
structure Log where
  queue : DataQueue.Log
  transmitted : List DataItem
  completed : List (DataItem × Option DataItem)

def log (s : State T) (a : Act T) (s' : State T) (g : Log) : Log :=
  { queue :=
      match State.queueAct a with
      | some b => DataQueue.log s.dataQueue b s'.dataQueue g.queue
      | none => g.queue
    transmitted := g.transmitted ++ (s.transmits a).toList
    completed := g.completed ++ (s.completes a).toList }

/-- A channel that `rt_serial_open` has opened. -/
def State.Init (s : State T) : Prop :=
  ∃ pool, s = ⟨⟨DataQueue.rtDataQueueInit pool 8 4, [], [], fun _ => .idle⟩, false, fun _ => .idle, []⟩

/-- The runs whose steps all satisfy `ok`. -/
abbrev Runs (ok : State T → Act T → Prop) : State T × Log → Prop :=
  Run.Reach (fun p => p.1.Init ∧ p.2 = ⟨⟨[], []⟩, [], []⟩)
    (Run.Logged (fun s a s' => s.step a = some s') log) (fun p a => ok p.1 a)

/-- **The buffers are sent once and in order**, one after the other, and `tx_complete` gets the one that has
finished. -/
structure InOrder (s : State T) (g : Log) : Prop where
  sent : g.transmitted <+: g.queue.pushed
  single : s.inFlight.length ≤ 1
  complete : ∀ p ∈ g.completed, p.2 = some p.1

/-- A writer that finds the channel idle has its own buffer at the head of the queue; and a push does not
overwrite a buffer of the queue. -/
def InTurn (s : State T) (a : Act T) : Prop :=
  match a with
  | .test t =>
    match s.writer t with
    | .pushed item =>
      s.activated = false → s.dataQueue.queue.getIndex ≠ s.dataQueue.queue.putIndex ∧ s.dataQueue.queue.head = item
    | _ => True
  | .write t item => DataQueue.KeepsItems s.dataQueue (.push (some t) item rtWaitingForever)
  | .resume t => DataQueue.KeepsItems s.dataQueue (.resume (some t))
  | .start _ | .dmadone => True

instance (s : State T) (a : Act T) : Decidable (InTurn s a) :=
  match a with
  | .test t =>
    match h : s.writer t with
    | .pushed item => decidable_of_iff (s.activated = false →
        s.dataQueue.queue.getIndex ≠ s.dataQueue.queue.putIndex ∧ s.dataQueue.queue.head = item) (by simp [InTurn, h])
    | .idle | .pushing _ | .starting _ => isTrue (by simp [InTurn, h])
  | .write t item => inferInstanceAs (Decidable (DataQueue.KeepsItems _ _))
  | .resume t => inferInstanceAs (Decidable (DataQueue.KeepsItems _ _))
  | .start _ | .dmadone => instDecidableTrue

end RtThread.SerialTx
