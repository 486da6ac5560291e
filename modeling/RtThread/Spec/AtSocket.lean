import RtThread.Spec.Ipc
import RtThread.Spec.Timer

/-!
# Received data of an AT socket (`components/net/at/at_socket/at_socket.c`)

A TCP socket that is connected. `at_recv_notice_cb` puts chunks into the packet list, `at_closed_notice_cb`
closes the socket, and the threads `T` call `at_recvfrom`. Chunks and the close are announced by the semaphore
`recv_notice`. What is done under `recv_lock` is one step; each test of `state` is one, for it is made outside.

The link of a packet that has been freed is read as it was. The counters of `at_do_event_changes` are left out:
only `at_poll` reads them.
-/

namespace RtThread.AtSocket

open Sched Ipc Timer

abbrev Byte := BitVec 8

/-- `struct at_recv_pkt`; `bfsz_totle` is the length of `buff`. A packet of the list has bytes left. -/
structure RecvPkt where
  buff : List Byte
  bfszIndex : ℕ
  bfszIndex_lt : bfszIndex < buff.length
  deriving DecidableEq

/-- The bytes that are left. -/
def RecvPkt.rest (pkt : RecvPkt) : List Byte := pkt.buff.drop pkt.bfszIndex

/-- `at_recvpkt_put` of `length ≥ 1` bytes; without memory the list stays as it is. -/
def atRecvpktPut (rlist : List RecvPkt) (ptr : List Byte) (hptr : 0 < ptr.length) (memory : Bool) : List RecvPkt :=
  if memory = true then rlist ++ [⟨ptr, 0, hptr⟩] else rlist

/-- `at_recvpkt_get`: the bytes that it copies to `mem`, and the list. -/
def atRecvpktGet : List RecvPkt → ℕ → List Byte × List RecvPkt
  | [], _ => ([], [])
  | pkt :: rlist, len =>
    let pagePos := pkt.buff.length - pkt.bfszIndex
    if hpos : pagePos ≥ len then
      (pkt.rest.take len,
        if hend : pkt.bfszIndex + len = pkt.buff.length then rlist
        else
          have := pkt.bfszIndex_lt
          ⟨pkt.buff, pkt.bfszIndex + len, by omega⟩ :: rlist)
    else
      let (mem, rlist) := atRecvpktGet rlist (len - pagePos)
      (pkt.rest ++ mem, rlist)

/-- `enum at_socket_state`. -/
inductive SocketState
  | none
  | listen
  | connect
  | closed
  deriving DecidableEq

/-- Where `at_recvfrom` is; `dontwait` is `MSG_DONTWAIT`, `time` the timeout in ticks. -/
inductive Receiver
  | idle
  /-- at its first `at_recvpkt_get` -/
  | first (len : BitVec 32) (dontwait : Bool)
  /-- at its test for `AT_SOCKET_CLOSED`, and at its test for `AT_SOCKET_CONNECT` -/
  | closed (len : BitVec 32) (dontwait : Bool)
  | connect (len : BitVec 32) (dontwait : Bool)
  /-- at `rt_sem_take`, suspended in it, and resumed with `thread->error` -/
  | take (len : BitVec 32) (time : Time)
  | blocked (len : BitVec 32) (time : Time)
  | resumed (len : BitVec 32) (time : Time) (result : Err)
  /-- behind `rt_sem_take`: at its test of `state`, and at `at_recvpkt_get` -/
  | state (len : BitVec 32) (time : Time)
  | again (len : BitVec 32) (time : Time)
  /-- at `__exit` -/
  | exit (result : ℤ)
  deriving DecidableEq

/-- `struct at_socket`, and the threads. -/
structure State (T : Type) where
  state : SocketState
  recvpktList : List RecvPkt
  /-- `recv_notice->value`, and the threads that wait for it -/
  value : BitVec 16
  waiting : List T
  /-- the calls of `rt_sem_release` to come -/
  due : ℕ
  receiver : T → Receiver

/-- The timeout of the socket in milliseconds, and the ticks of a second. -/
structure Config where
  recvTimeout : ℤ
  tickPerSecond : ℕ

/-- A socket that has just connected. -/
def State.Init {T : Type} (s : State T) : Prop := s = ⟨.connect, [], 0, [], 0, fun _ => .idle⟩

inductive Act (T : Type)
  /-- `at_recvfrom` is called -/
  | recvfrom (t : T) (len : BitVec 32) (dontwait : Bool)
  /-- the call of a thread goes on -/
  | cont (t : T)
  /-- the timer of a suspended thread runs out -/
  | timer (t : T)
  /-- `at_recv_notice_cb`, up to its `rt_sem_release`; `memory` is whether `rt_calloc` finds memory -/
  | recvNotice (buff : List Byte) (memory : Bool)
  /-- `at_closed_notice_cb`, up to its `rt_sem_release` -/
  | closedNotice
  /-- `rt_sem_release(sock->recv_notice)` -/
  | release
  deriving DecidableEq

variable {T : Type} [DecidableEq T]

namespace State

variable (s : State T)

def setReceiver (t : T) (r : Receiver) : State T := { s with receiver := Function.update s.receiver t r }

/-- `rt_sem_release(sock->recv_notice)`. -/
def semRelease : State T :=
  match s.waiting with
  | [] => { s with value := s.value + 1#16 }
  | t :: waiting =>
    match s.receiver t with
    | .blocked len time => { s with waiting }.setReceiver t (.resumed len time .eok)
    | _ => { s with waiting }

/-- `at_recvfrom`, at its `at_recvpkt_get`: with data it returns, and else goes on at `r`. -/
def recvpktGet (t : T) (len : BitVec 32) (r : Receiver) : State T :=
  let (mem, recvpktList) := atRecvpktGet s.recvpktList len.toNat
  if mem.length > 0 then { s with recvpktList }.setReceiver t (.exit (BitVec.ofNat 32 mem.length).toInt)
  else s.setReceiver t r

/-- The call of a thread goes on. -/
def cont (cfg : Config) (t : T) : Option (State T) :=
  match s.receiver t with
  | .idle | .blocked .. => none
  | .first len dontwait => some (s.recvpktGet t len (.closed len dontwait))
  | .closed len dontwait =>
    some (s.setReceiver t (if s.state = .closed then .exit 0 else .connect len dontwait))
  | .connect len dontwait =>
    some (s.setReceiver t
      (if s.state ≠ .connect then .exit (-1)
      else if dontwait = true then .exit 0
      else .take len (if cfg.recvTimeout = 0 then -1 else rtTickFromMillisecond cfg.tickPerSecond cfg.recvTimeout)))
  | .take len time =>
    if s.value ≠ 0#16 then some ({ s with value := s.value - 1#16 }.setReceiver t (.state len time))
    else if time = 0 then some (s.setReceiver t (.exit (-1)))
    else some ({ s with waiting := s.waiting ++ [t] }.setReceiver t (.blocked len time))
  | .resumed len time result =>
    some (s.setReceiver t (if result = .eok then .state len time else .exit (-1)))
  | .state len time => some (s.setReceiver t (if s.state = .connect then .again len time else .exit 0))
  | .again len time => some (s.recvpktGet t len (.take len time))
  | .exit _ => some (s.setReceiver t .idle)

def step (cfg : Config) : Act T → Option (State T)
  | .recvfrom t len dontwait =>
    match s.receiver t with
    | .idle => some (s.setReceiver t (if len = 0 then .exit (-1) else .first len dontwait))
    | _ => none
  | .cont t => s.cont cfg t
  | .timer t =>
    match s.receiver t with
    | .blocked len time =>
      if 0 < time.toInt then
        some ({ s with waiting := s.waiting.erase t }.setReceiver t (.resumed len time .etimeout))
      else none
    | _ => none
  | .recvNotice buff memory =>
    if hbuff : 0 < buff.length then
      some { s with recvpktList := atRecvpktPut s.recvpktList buff hbuff memory, due := s.due + 1 }
    else none
  | .closedNotice => some { s with state := .closed, due := s.due + 1 }
  | .release => if s.due = 0 then none else some { s.semRelease with due := s.due - 1 }

end State

/-! ## What goes through the socket -/

/-- The bytes of the notices, whether a close has been noticed, and the bytes that `at_recvfrom` returned. -/
structure Log where
  notified : List Byte
  closed : Bool
  returned : List Byte
  deriving DecidableEq

def log (s : State T) (a : Act T) (_ : State T) (g : Log) : Log :=
  match a with
  | .recvNotice buff _ => { g with notified := g.notified ++ buff }
  | .closedNotice => { g with closed := true }
  | .cont t =>
    match s.receiver t with
    | .first len _ | .again len _ =>
      { g with returned := g.returned ++ (atRecvpktGet s.recvpktList len.toNat).1 }
    | _ => g
  | _ => g

/-- The runs of a socket whose steps all satisfy `ok`. -/
abbrev Runs (cfg : Config) (ok : State T → Act T → Prop) : State T × Log → Prop :=
  Run.Reach (fun p => p.1.Init ∧ p.2 = ⟨[], false, []⟩) (Run.Logged (fun s a s' => s.step cfg a = some s') log)
    (fun p a => ok p.1 a)

/-- The step is the one by which a call returns 0. -/
def State.returnsZero (s : State T) (cfg : Config) (t : T) : Bool :=
  (s.cont cfg t).any fun s' => s'.receiver t = .exit 0

/-- A notice finds memory for its packet. A call that finds the socket closed, before its wait or behind it, finds
the list empty, and none with `MSG_DONTWAIT` finds the socket connected. -/
def KeepsData (s : State T) : Act T → Prop
  | .recvNotice _ memory => memory = true
  | .cont t =>
    match s.receiver t with
    | .closed .. => s.state = .closed → s.recvpktList = []
    | .connect _ dontwait => dontwait = true → s.state ≠ .connect
    | .state .. => s.state ≠ .connect → s.recvpktList = []
    | _ => True
  | _ => True

instance (s : State T) (a : Act T) : Decidable (KeepsData s a) := by
  unfold KeepsData
  split
  · infer_instance
  · split <;> infer_instance
  · infer_instance

end RtThread.AtSocket
