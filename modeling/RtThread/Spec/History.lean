import RtThread.Spec.Kernel

/-!
# What the calls of a run have done

Histories that a run keeps next to the kernel, one for each kind of object: what the calls on one
object have returned so far. They read off how each section ended and change nothing.
-/

namespace RtThread.Ipc

open Sched

/-- What a call returns, once a section has settled it. -/
def Next.result {O : Type} : Next O → Option (Err × Out)
  | .ret e out | .schedule (.ret e out) => some (e, out)
  | _ => none

namespace Kernel

variable {T O : Type} [DecidableEq T] [DecidableEq O] (cfg : Config) (s : Kernel T O)

/-- The section that an action runs. -/
def ran : Act T O → Option (Kernel T O × Next O)
  | .call a => s.sched.current.bind fun c => s.call cfg c a
  | .cont elapsed => s.sched.current.bind fun c =>
    match s.pc c with
    | .cont k => s.resume cfg c elapsed k
    | _ => none
  | .isr i => s.sched.current.bind fun c => s.isr cfg c i
  | .isrCont =>
    match s.handlers with
    | n :: handlers => { s with handlers }.isrResume cfg n
    | [] => none
  | _ => none

/-- Where the call of an action goes on. -/
def goesOn : Act T O → Option (Cont O)
  | .cont _ => s.sched.current.bind fun c =>
    match s.pc c with
    | .cont k => some k
    | _ => none
  | .isrCont =>
    match s.handlers with
    | .run k :: _ => some k
    | _ => none
  | _ => none

/-- What the call of an action returns, if the action settles it. -/
def outcome (a : Act T O) : Option (Err × Out) := (s.ran cfg a).bind fun r => r.2.result

end Kernel

variable {T O : Type} [DecidableEq T] [DecidableEq O] (cfg : Config)

/-- Runs with a history. -/
abbrev LogRuns {γ : Type} (idle : T) (ok : Kernel T O → Act T O → Prop) (start : Kernel T O → γ)
    (log : Kernel T O → Act T O → Kernel T O → γ → γ) : Kernel T O × γ → Prop :=
  Run.Reach (fun p => p.1.Init cfg ∧ p.2 = start p.1)
    (Run.Logged (fun s a s' => s.step cfg idle a = some s') log) (fun p a => ok p.1 a)

/-! ## Semaphores -/

/-- The tokens of a semaphore. -/
structure SemLog (T : Type) where
  initial : ℕ
  /-- takes that returned `RT_EOK` -/
  taken : ℕ
  /-- waiters that a release resumed and that have not returned -/
  resumed : List T
  /-- releases that returned `RT_EOK` -/
  released : ℕ
  deriving DecidableEq

def semStart (o : O) (s : Kernel T O) : SemLog T :=
  { initial := (s.sem o).value.toNat, taken := 0, resumed := [], released := 0 }

def semLog (o : O) (s : Kernel T O) (a : Act T O) (s' : Kernel T O) (g : SemLog T) : SemLog T :=
  match a with
  | .call (.semTake o' _) | .isr (.semTrytake o') =>
    if o' = o ∧ s.outcome cfg a = some (.eok, .none) then { g with taken := g.taken + 1 } else g
  | .call (.semRelease o') | .isr (.semRelease o') =>
    if o' = o ∧ s.outcome cfg a = some (.eok, .none) then
      { g with
        released := g.released + 1
        resumed := (s.waiting (.sem o)).filter (· ∉ s'.waiting (.sem o)) ++ g.resumed }
    else g
  | .cont _ =>
    match s.sched.current with
    | some c => match s.pc c with
      | .cont (.semTake o') =>
        if o' = o then
          { g with
            taken := if s.outcome cfg a = some (.eok, .none) then g.taken + 1 else g.taken
            resumed := g.resumed.erase c }
        else g
      | _ => g
    | none => g
  | _ => g

/-! ## Mutexes -/

/-- By thread: the takes and the releases of a mutex that returned `RT_EOK`. -/
structure MutexLog (T : Type) where
  taken : T → ℕ
  released : T → ℕ

def MutexLog.take (g : MutexLog T) (t : T) : MutexLog T :=
  { g with taken := Function.update g.taken t (g.taken t + 1) }

def MutexLog.release (g : MutexLog T) (t : T) : MutexLog T :=
  { g with released := Function.update g.released t (g.released t + 1) }

/-- The call of an action is to take mutex `o`. -/
def mutexTakes (o : O) (s : Kernel T O) (a : Act T O) : Bool :=
  match a, s.goesOn a with
  | .call (.mutexTake o' _), _ | _, some (.mutexTake o' _) | _, some (.mutexOwn o') => o' = o
  | _, _ => false

def mutexLog (o : O) (s : Kernel T O) (a : Act T O) (_ : Kernel T O) (g : MutexLog T) : MutexLog T :=
  match s.sched.current, s.outcome cfg a with
  | some c, some (.eok, _) =>
    if mutexTakes o s a then g.take c
    else match a with
      | .call (.mutexRelease o') => if o' = o then g.release c else g
      | _ => g
  | _, _ => g

/-- For each mutex: its owner got it at another priority than its own. -/
def raisedLog (s : Kernel T O) (_ : Act T O) (s' : Kernel T O) (g : O → Bool) (o : O) : Bool :=
  match (s'.mutex o).owner with
  | some t =>
    if (s.mutex o).owner = some t then g o else s.sched.priority t ≠ (s.thread t).initPriority
  | none => g o

/-- The waiters that a release of mutex `o` made its owner, and that have not returned. -/
def grantLog (o : O) (s : Kernel T O) (a : Act T O) (s' : Kernel T O) (g : List T) : List T :=
  match a, s.goesOn a, s.sched.current with
  | .call (.mutexRelease o'), _, _ =>
    if o' = o ∧ s.outcome cfg a = some (.eok, .none) then
      (s.waiting (.mutex o)).filter (· ∉ s'.waiting (.mutex o)) ++ g
    else g
  | _, some (.mutexTake o' _), some c =>
    if o' = o ∧ (s.outcome cfg a).isSome then g.filter (· ≠ c) else g
  | _, _, _ => g

/-! ## Mailboxes -/

/-- The mails sent with `RT_EOK` and those received with `RT_EOK`, in their orders. -/
structure MbLog where
  sent : List (BitVec 32)
  received : List (BitVec 32)

/-- The mail that the call of an action is to send to mailbox `o`. -/
def mbSends (o : O) (s : Kernel T O) (a : Act T O) : Option (BitVec 32) :=
  match a, s.goesOn a with
  | .call (.mbSendWait o' value _), _ | .isr (.mbSend o' value), _ | _, some (.mbSend o' value _) =>
    if o' = o then some value else none
  | _, _ => none

/-- The call of an action is to receive from mailbox `o`. -/
def mbReceives (o : O) (s : Kernel T O) (a : Act T O) : Bool :=
  match a, s.goesOn a with
  | .call (.mbRecv o' _), _ | .isr (.mbRecv o'), _ | _, some (.mbRecv o' _) => o' = o
  | _, _ => false

def mbLog (o : O) (s : Kernel T O) (a : Act T O) (_ : Kernel T O) (g : MbLog) : MbLog :=
  match s.outcome cfg a with
  | some (.eok, out) =>
    { sent := g.sent ++ (mbSends o s a).toList
      received := match mbReceives o s a, out with
        | true, .word w => g.received ++ [w]
        | _, _ => g.received }
  | _ => g

/-! ## Events -/

/-- The threads of a list in their order, each as if it called `rt_event_recv` with its arguments at
its turn: what is left of the event, and who receives what. -/
def eventServe (o : O) (s : Kernel T O) : List T → Event → Event × List (T × BitVec 32)
  | [], event => (event, [])
  | t :: ts, event =>
    match (s.setEvent o event).rtEventRecv cfg t o (s.thread t).eventSet (s.thread t).eventInfo 0 with
    | some (s', .ret .eok (.word w)) =>
      let (event', l) := eventServe o s ts (s'.event o)
      (event', (t, w) :: l)
    | _ => eventServe o s ts event

/-- The waiters of event `o` when `set` is sent. -/
def eventServed (o : O) (s : Kernel T O) (set : BitVec 32) : Event × List (T × BitVec 32) :=
  eventServe cfg o s (s.waiting (.event o)) { s.event o with set := (s.event o).set ||| set }

/-- The waiters that a send resumed and that have not returned, each with what it would have received
from a call of its own. -/
def evLog (o : O) (s : Kernel T O) (a : Act T O) (_ : Kernel T O) (g : List (T × BitVec 32)) :
    List (T × BitVec 32) :=
  match a with
  | .call (.eventSend o' set) | .isr (.eventSend o' set) =>
    if o' = o ∧ set ≠ 0#32 then (eventServed cfg o s set).2 ++ g else g
  | .cont _ =>
    match s.sched.current with
    | some c => match s.pc c with
      | .cont (.eventRecv o') => if o' = o then g.filter fun q => q.1 ≠ c else g
      | _ => g
    | none => g
  | _ => g

/-! ## Message queues -/

/-- What a message queue stands for: the messages to come, first to come first, and the message of each
node that was taken off. -/
structure MqLog where
  queue : List (List (BitVec 8))
  taken : ℕ → Option (List (BitVec 8))

/-- A message is queued where it is linked: behind the others, or before them if it is urgent. The first
one comes out where a call takes it off. -/
def mqLog (o : O) (s : Kernel T O) (a : Act T O) (_ : Kernel T O) (g : MqLog) : MqLog :=
  match s.goesOn a with
  | some (.mqLink o' _ buffer urgent) =>
    if o' = o then { g with queue := if urgent then buffer :: g.queue else g.queue ++ [buffer] } else g
  | _ => match a with
    | .call (.mqReset o') => if o' = o then { g with queue := [] } else g
    | _ => match (s.ran cfg a).map Prod.snd with
      | some (.run (.mqFree o' msg _)) =>
        if o' = o then { queue := g.queue.tail, taken := Function.update g.taken msg g.queue.head? } else g
      | _ => g

end RtThread.Ipc
