import RtThread.Spec.Ipc
import RtThread.Spec.Timer

/-!
# The reader of an AT client (`at_client_getchar`, `at_client_rx_ind`)

The parser thread reads the device byte by byte and waits on the semaphore `rx_notice` where it finds
none. Bytes become readable in an interrupt, which then indicates how many. A step of the reader is one
call of `rt_device_read`, `rt_sem_control` or `rt_sem_take`; the parser thread is the only one that takes
`rx_notice`.
-/

namespace RtThread.AtReader

open Sched Ipc Timer

/-- Where `at_client_getchar` is; `time` is its timeout in ticks. -/
inductive Reader
  /-- in no call -/
  | idle
  /-- at `rt_device_read` -/
  | read (time : Time)
  /-- at `rt_sem_control` -/
  | reset (time : Time)
  /-- at `rt_sem_take` -/
  | take (time : Time)
  /-- suspended in `rt_sem_take` -/
  | blocked (time : Time)
  /-- resumed with `thread->error`, and not running yet -/
  | resumed (time : Time) (result : Err)
  deriving DecidableEq

structure State where
  /-- the bytes that `rt_device_read` has yet to give -/
  unread : List (BitVec 8)
  /-- the sizes of the indications to come -/
  due : List ℕ
  /-- `rx_notice->value` -/
  value : BitVec 16
  reader : Reader

/-- A client that has read nothing. -/
def State.Init (s : State) : Prop := s = ⟨[], [], 0, .idle⟩

inductive Act
  /-- `at_client_getchar` is called with a timeout in milliseconds -/
  | getchar (timeout : ℤ)
  /-- the reader goes on -/
  | reader
  /-- the timer of the suspended reader runs out -/
  | timer
  /-- bytes become readable -/
  | receive (data : List (BitVec 8))
  /-- `at_client_rx_ind` -/
  | rxInd (size : ℕ)
  deriving DecidableEq

namespace State

variable (s : State)

/-- `rt_sem_release(rx_notice)`. -/
def release : State :=
  match s.reader with
  | .blocked time => { s with reader := .resumed time .eok }
  | _ => { s with value := s.value + 1 }

/-- `at_client_rx_ind`. -/
def atClientRxInd (size : ℕ) : State := if size > 0 then s.release else s

/-- One step of `at_client_getchar`. -/
def readerStep : Option State :=
  match s.reader with
  | .idle | .blocked _ => none
  | .read time =>
    match s.unread with
    | [] => some { s with reader := .reset time }
    | _ :: unread => some { s with unread, reader := .idle }
  | .reset time => some { s with value := 0, reader := .take time }
  | .take time =>
    if s.value ≠ 0 then some { s with value := s.value - 1, reader := .read time }
    else if time = 0 then some { s with reader := .idle }
    else some { s with reader := .blocked time }
  | .resumed time result => some { s with reader := if result = .eok then .read time else .idle }

def step (tickPerSecond : ℕ) : Act → Option State
  | .getchar timeout =>
    match s.reader with
    | .idle => some { s with reader := .read (rtTickFromMillisecond tickPerSecond timeout) }
    | _ => none
  | .reader => s.readerStep
  | .timer =>
    match s.reader with
    | .blocked time => if 0 < time.toInt then some { s with reader := .resumed time .etimeout } else none
    | _ => none
  | .receive data => some { s with unread := s.unread ++ data, due := data.length :: s.due }
  | .rxInd size => if size ∈ s.due then some { s.atClientRxInd size with due := s.due.erase size } else none

/-- Nothing is unread, or an indication of `due` will release `rx_notice`. -/
def Noticed (due : List ℕ) : Prop := s.unread = [] ∨ ∃ size ∈ due, 0 < size

instance (due : List ℕ) : Decidable (s.Noticed due) := by
  unfold Noticed
  infer_instance

/-- **The reader does not sleep on unread input.** -/
def Awake : Prop := ∀ time, s.reader = .blocked time → s.Noticed s.due

/-- The reset of `rx_notice` finds no bytes that no indication to come announces, and the 65536th release
behind a reset leaves none. -/
def KeepsNotice : Act → Prop
  | .reader =>
    match s.reader with
    | .reset time => time = 0 ∨ s.Noticed s.due
    | _ => True
  | .rxInd size =>
    match s.reader with
    | .take time => time = 0 ∨ s.value ≠ -1 ∨ size = 0 ∨ s.Noticed (s.due.erase size)
    | _ => True
  | _ => True

instance (a : Act) : Decidable (s.KeepsNotice a) := by
  unfold KeepsNotice
  split
  · split <;> infer_instance
  · split <;> infer_instance
  · infer_instance

end State

end RtThread.AtReader
