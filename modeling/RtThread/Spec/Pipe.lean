import RtThread.Lib.WaitQueue
import RtThread.Spec.RingBuffer
import Mathlib.Data.BitVec
import Mathlib.Data.Int.Notation

/-!
# Pipes (`components/drivers/src/pipe.c`, `waitqueue.c`)

The threads `T` open, read, write and close a pipe. A mutex keeps their transfers apart; readers that find no
data and writers that find no room wait in a queue each. A step is one test, transfer or call of a thread:
what a thread does under the mutex with data that only the mutex's owner changes is one step.

`step` is `none` where a thread cannot go on, or where the system stops: a failed `RT_ASSERT`, or a null
`fifo`. `rt_malloc` finds memory.
-/

namespace RtThread.Pipe

open Ringbuffer

/-- `flags & O_ACCMODE`. -/
inductive Accmode
  | rdonly
  | wronly
  | rdwr
  | other
  deriving DecidableEq

def Accmode.reads : Accmode → Bool
  | .rdonly | .rdwr => true
  | _ => false

def Accmode.writes : Accmode → Bool
  | .wronly | .rdwr => true
  | _ => false

/-- `struct dfs_fd`: its `flags`. -/
structure File where
  accmode : Accmode
  nonblock : Bool
  deriving DecidableEq

/-- `rt_wqueue_t`. -/
structure Wqueue (T : Type) where
  flag : Bool
  waitingList : List T

/-- Where the call of a thread is. -/
inductive Call
  | idle
  /-- `pipe_fops_open`, at `rt_mutex_take` -/
  | openLock (fd : File)
  /-- `pipe_fops_close`, at `rt_mutex_take`, at its two wake-ups, and behind them -/
  | closeLock (fd : File)
  | closeReaders
  | closeWriters
  | closeEnd
  /-- `pipe_fops_read`, at its first test, at `rt_mutex_take`, and in its loop; `retry` behind a wait -/
  | readEntry (fd : File) (count : ℕ)
  | readLock (fd : File) (count : ℕ) (retry : Bool)
  | readLoop (fd : File) (count : ℕ) (retry : Bool)
  /-- on its way to wait: at `rt_mutex_release`, `rt_wqueue_wakeup` and `rt_wqueue_wait` -/
  | readRelease (fd : File) (count : ℕ)
  | readWakeWriter (fd : File) (count : ℕ)
  | readWait (fd : File) (count : ℕ)
  | readSuspended (fd : File) (count : ℕ)
  | readResumed (fd : File) (count : ℕ)
  /-- with data: at `rt_wqueue_wakeup` -/
  | readWake (len : ℕ)
  /-- at `out` -/
  | readOut (len : ℤ)
  /-- `pipe_fops_write` of the bytes `buf`, of which `ret` are written -/
  | writeEntry (fd : File) (buf : List Byte)
  | writeLock (fd : File) (buf : List Byte) (ret : ℕ) (wakeup : Bool)
  | writeLoop (fd : File) (buf : List Byte) (ret : ℕ) (wakeup : Bool)
  | writeRelease (fd : File) (buf : List Byte) (ret : ℕ)
  | writeWakeReader (fd : File) (buf : List Byte) (ret : ℕ)
  | writeWait (fd : File) (buf : List Byte) (ret : ℕ)
  | writeSuspended (fd : File) (buf : List Byte) (ret : ℕ)
  | writeResumed (fd : File) (buf : List Byte) (ret : ℕ)
  /-- behind the loop: at `rt_mutex_release`, and at `rt_wqueue_wakeup` -/
  | writeEnd (ret : ℤ) (wakeup : Bool)
  | writeEndWake
  deriving DecidableEq

/-- `struct rt_pipe_device`, the files that are open, and the threads. -/
structure State (T : Type) where
  fifo : Option RingBuffer
  refCount : BitVec 8
  readers : BitVec 8
  writers : BitVec 8
  readerQueue : Wqueue T
  writerQueue : Wqueue T
  /-- the owner of `lock` -/
  lock : Option T
  files : List File
  call : T → Call

/-- `rt_ringbuffer_create`; an `rt_int16_t` above `2 ^ 15` is negative. -/
def rtRingbufferCreate (alignLog : ℕ) (pool : ℕ → Byte) (size : ℕ) : Option RingBuffer :=
  if Word.alignDown 32 alignLog size < 2 ^ 15 then rtRingbufferInit alignLog pool (Word.alignDown 32 alignLog size)
  else none

/-- A pipe of `bufsz` bytes. -/
structure Config where
  alignLog : ℕ
  alignLog_lt : alignLog < 31
  pool : ℕ → Byte
  bufsz : ℕ
  bufsz_lt : bufsz < 2 ^ 16

inductive Act (T : Type)
  | open (t : T) (fd : File)
  | close (t : T) (fd : File)
  | read (t : T) (fd : File) (count : ℕ)
  | write (t : T) (fd : File) (buf : List Byte)
  /-- the call of a thread goes on -/
  | cont (t : T)
  deriving DecidableEq

/-- `rt_pipe_create`. -/
def rtPipeCreate (T : Type) : State T := ⟨none, 0, 0, 0, ⟨false, []⟩, ⟨false, []⟩, none, [], fun _ => .idle⟩

/-- `EAGAIN` and `EPIPE`. -/
def eagain : ℤ := 11

def epipe : ℤ := 32

variable {T : Type} [DecidableEq T]

/-- 1 for a file of the kind, as `readers` and `writers` count it. -/
def one (b : Bool) : BitVec 8 := if b then 1#8 else 0#8

namespace State

variable (s : State T)

def setCall (t : T) (p : Call) : State T := { s with call := Function.update s.call t p }

/-- `rt_wqueue_wakeup(&pipe->reader_queue, ..)`. -/
def wakeReaders : State T :=
  match s.readerQueue.waitingList with
  | [] => { s with readerQueue := ⟨true, []⟩ }
  | u :: l =>
    match s.call u with
    | .readSuspended fd count => { s with readerQueue := ⟨true, l⟩ }.setCall u (.readResumed fd count)
    | _ => { s with readerQueue := ⟨true, l⟩ }

/-- `rt_wqueue_wakeup(&pipe->writer_queue, ..)`. -/
def wakeWriters : State T :=
  match s.writerQueue.waitingList with
  | [] => { s with writerQueue := ⟨true, []⟩ }
  | u :: l =>
    match s.call u with
    | .writeSuspended fd buf ret => { s with writerQueue := ⟨true, l⟩ }.setCall u (.writeResumed fd buf ret)
    | _ => { s with writerQueue := ⟨true, l⟩ }

/-- What `pipe_fops_open` does under the mutex. -/
def opened (cfg : Config) (fd : File) : Option (State T) :=
  let fifo :=
    if s.refCount = 0#8 then (rtRingbufferCreate cfg.alignLog cfg.pool cfg.bufsz).map some else some s.fifo
  fifo.map fun fifo => { s with
    fifo
    readers := s.readers + one fd.accmode.reads
    writers := s.writers + one fd.accmode.writes
    refCount := s.refCount + 1#8
    files := fd :: s.files }

/-- The loop of `pipe_fops_read`, up to its transfer. -/
def readLoop (t : T) (fd : File) (count : ℕ) : Option (State T) :=
  if s.writers = 0#8 then some (s.setCall t (.readOut 0))
  else s.fifo.map fun rb =>
    let (len, _, fifo) := rtRingbufferGet rb (uint16 count)
    if len > 0 then { s with fifo }.setCall t (.readWake len)
    else if fd.nonblock = true then s.setCall t (.readOut (-eagain))
    else s.setCall t (.readRelease fd count)

/-- The bytes that a write hands to `rt_ringbuffer_put`; its length is a `rt_uint16_t`. -/
def chunk (buf : List Byte) (ret : ℕ) : List Byte := (buf.drop ret).take (uint16 (buf.length - ret))

/-- The loop of `pipe_fops_write`, up to its transfer. -/
def writeLoop (t : T) (fd : File) (buf : List Byte) (ret : ℕ) (wakeup : Bool) : Option (State T) :=
  if s.readers = 0#8 then some (s.setCall t (.writeEnd (if ret = 0 then -epipe else ret) wakeup))
  else s.fifo.map fun rb =>
    let (len, fifo) := rtRingbufferPut rb (chunk buf ret) (chunk buf ret).length
    let s := { s with fifo }
    let ret := ret + len
    if ret = buf.length then s.setCall t (.writeEnd ret true)
    else if fd.nonblock = true then s.setCall t (.writeEnd (if ret = 0 then -eagain else ret) true)
    else s.setCall t (.writeRelease fd buf ret)

/-- A call goes on. -/
def cont (cfg : Config) (t : T) : Option (State T) :=
  match s.call t with
  | .idle | .readSuspended .. | .writeSuspended .. => none
  | .openLock fd => if s.lock = none then (s.opened cfg fd).map (·.setCall t .idle) else none
  | .closeLock fd =>
    if s.lock = none ∧ fd ∈ s.files then
      some ({ s with
        lock := some t
        readers := s.readers - one fd.accmode.reads
        writers := s.writers - one fd.accmode.writes
        files := s.files.erase fd }.setCall t .closeReaders)
    else none
  | .closeReaders => some ((if s.writers = 0#8 then s.wakeReaders else s).setCall t .closeWriters)
  | .closeWriters => some ((if s.readers = 0#8 then s.wakeWriters else s).setCall t .closeEnd)
  | .closeEnd =>
    if s.refCount = 1#8 then
      s.fifo.map fun _ => { s with fifo := none, refCount := 0#8, lock := none }.setCall t .idle
    else some ({ s with refCount := s.refCount - 1#8, lock := none }.setCall t .idle)
  | .readEntry fd count => some (s.setCall t (if s.writers = 0#8 then .idle else .readLock fd count false))
  | .readLock fd count retry =>
    if s.lock = none then some ({ s with lock := some t }.setCall t (.readLoop fd count retry)) else none
  | .readLoop fd count _ => s.readLoop t fd count
  | .readRelease fd count => some ({ s with lock := none }.setCall t (.readWakeWriter fd count))
  | .readWakeWriter fd count => some (s.wakeWriters.setCall t (.readWait fd count))
  | .readWait fd count =>
    if s.readerQueue.flag = true then
      some ({ s with readerQueue.flag := false }.setCall t (.readLock fd count true))
    else
      some ({ s with readerQueue.waitingList := s.readerQueue.waitingList ++ [t] }.setCall t
        (.readSuspended fd count))
  | .readResumed fd count => some ({ s with readerQueue.flag := false }.setCall t (.readLock fd count true))
  | .readWake len => some (s.wakeWriters.setCall t (.readOut len))
  | .readOut _ => some ({ s with lock := none }.setCall t .idle)
  | .writeEntry fd buf =>
    some (s.setCall t (if s.readers = 0#8 ∨ buf = [] then .idle else .writeLock fd buf 0 false))
  | .writeLock fd buf ret wakeup =>
    if s.lock = none then some ({ s with lock := some t }.setCall t (.writeLoop fd buf ret wakeup)) else none
  | .writeLoop fd buf ret wakeup => s.writeLoop t fd buf ret wakeup
  | .writeRelease fd buf ret => some ({ s with lock := none }.setCall t (.writeWakeReader fd buf ret))
  | .writeWakeReader fd buf ret => some (s.wakeReaders.setCall t (.writeWait fd buf ret))
  | .writeWait fd buf ret =>
    if s.writerQueue.flag = true then
      some ({ s with writerQueue.flag := false }.setCall t (.writeLock fd buf ret true))
    else
      some ({ s with writerQueue.waitingList := s.writerQueue.waitingList ++ [t] }.setCall t
        (.writeSuspended fd buf ret))
  | .writeResumed fd buf ret =>
    some ({ s with writerQueue.flag := false }.setCall t (.writeLock fd buf ret true))
  | .writeEnd _ wakeup =>
    some ({ s with lock := none }.setCall t (if wakeup = true then .writeEndWake else .idle))
  | .writeEndWake => some (s.wakeReaders.setCall t .idle)

/-- A thread that is in no call begins one on an open file. -/
def begin (t : T) (p : Call) : Option (State T) := if s.call t = .idle then some (s.setCall t p) else none

def step (cfg : Config) : Act T → Option (State T)
  | .open t fd => s.begin t (.openLock fd)
  | .close t fd => if fd ∈ s.files then s.begin t (.closeLock fd) else none
  | .read t fd count => if fd ∈ s.files then s.begin t (.readEntry fd count) else none
  | .write t fd buf => if fd ∈ s.files then s.begin t (.writeEntry fd buf) else none
  | .cont t => s.cont cfg t

/-- The number of open files that write, and that read. -/
def openWriters : ℕ := s.files.countP (·.accmode.writes)

def openReaders : ℕ := s.files.countP (·.accmode.reads)

/-- The bytes in the pipe. -/
def data : List Byte := (s.fifo.map content).getD []

end State

/-! ## What goes through the pipe -/

/-- The bytes that writes accepted and those that reads delivered, since a file was opened last with no other
open. -/
structure Log where
  accepted : List Byte
  delivered : List Byte

def log (s : State T) (a : Act T) (_ : State T) (g : Log) : Log :=
  match a with
  | .cont t =>
    match s.call t, s.fifo with
    | .openLock _, _ => if s.refCount = 0#8 ∧ s.files = [] then ⟨[], []⟩ else g
    | .readLoop _ count _, some rb =>
      if s.writers = 0#8 then g else { g with delivered := g.delivered ++ (rtRingbufferGet rb (uint16 count)).2.1 }
    | .writeLoop _ buf ret _, some rb =>
      if s.readers = 0#8 then g
      else { g with
        accepted := g.accepted ++
          (State.chunk buf ret).take (rtRingbufferPut rb (State.chunk buf ret) (State.chunk buf ret).length).1 }
    | _, _ => g
  | _ => g

/-- A pipe that has just been created. -/
def State.Init (s : State T) : Prop := s = rtPipeCreate T

/-- The runs of a pipe whose steps all satisfy `ok`. -/
abbrev Runs (cfg : Config) (ok : State T → Act T → Prop) : State T × Log → Prop :=
  Run.Reach (fun p => p.1.Init ∧ p.2 = ⟨[], []⟩) (Run.Logged (fun s a s' => s.step cfg a = some s') log)
    (fun p a => ok p.1 a)

/-- The step is the test by which a read of some bytes returns 0. -/
def State.endOfFile (s : State T) : Act T → Bool
  | .cont t =>
    match s.call t with
    | .readEntry _ count | .readLoop _ count _ => s.writers = 0#8 ∧ count ≠ 0
    | _ => false
  | _ => false

/-- The step creates a fifo. -/
def State.creates (s : State T) : Act T → Bool
  | .cont t =>
    match s.call t with
    | .openLock _ => s.refCount = 0#8
    | _ => false
  | _ => false

/-- Where `writers` is 0 for a read, the pipe holds no bytes and fewer than 256 writers have it open; where
`ref_count` is 0 for an open, no file is open. -/
def KeepsData (s : State T) (a : Act T) : Prop :=
  (s.endOfFile a = true → s.data = [] ∧ s.openWriters < 2 ^ 8) ∧ (s.creates a = true → s.files = [])

instance (s : State T) (a : Act T) : Decidable (KeepsData s a) := by
  unfold KeepsData
  infer_instance

/-! ## The two wait queues -/

/-- The readers wait in `reader_queue`, the writers in `writer_queue`. -/
inductive Side
  | readers
  | writers

open WaitQueue

/-- What a thread is to the queue of a side. -/
def Call.phase : Side → Call → Phase
  | .readers, .readRelease .. | .readers, .readWakeWriter .. | .readers, .readWait .. => .about
  | .readers, .readSuspended .. => .asleep
  | .readers, .readResumed .. => .retry
  | .readers, .readLock _ _ retry | .readers, .readLoop _ _ retry => if retry = true then .retry else .away
  | .writers, .writeRelease .. | .writers, .writeWakeReader .. | .writers, .writeWait .. => .about
  | .writers, .writeSuspended .. => .asleep
  | .writers, .writeResumed .. => .retry
  | .writers, .writeLock _ _ _ wakeup | .writers, .writeLoop _ _ _ wakeup =>
    if wakeup = true then .retry else .away
  | _, _ => .away

/-- The thread is between a transfer or a close and the wake-up of the queue; `count` is the number of those
on the other side. -/
def Call.wakes (count : BitVec 8) : Side → Call → Bool
  | .readers, .writeRelease .. | .readers, .writeWakeReader .. | .readers, .writeEndWake => true
  | .readers, .writeEnd _ wakeup => wakeup
  | .readers, .closeReaders => count = 0#8
  | .writers, .readRelease .. | .writers, .readWakeWriter .. | .writers, .readWake _ => true
  | .writers, .closeReaders | .writers, .closeWriters => count = 0#8
  | _, _ => false

namespace State

variable (s : State T)

/-- The room in the pipe. -/
def room : ℕ := (s.fifo.map rtRingbufferSpaceLen).getD 0

/-- What the threads of a side wait for: data or no writer, room or no reader. -/
def ready : Side → Prop
  | .readers => s.data ≠ [] ∨ s.openWriters = 0
  | .writers => s.room ≠ 0 ∨ s.openReaders = 0

instance (side : Side) : Decidable (s.ready side) := by
  cases side <;> unfold ready <;> infer_instance

def queue : Side → Wqueue T
  | .readers => s.readerQueue
  | .writers => s.writerQueue

/-- `writers` for the readers, `readers` for the writers. -/
def count : Side → BitVec 8
  | .readers => s.writers
  | .writers => s.readers

def view (side : Side) : View T where
  ready := s.ready side
  flag := (s.queue side).flag
  list := (s.queue side).waitingList
  phase t := (s.call t).phase side
  waker t := (s.call t).wakes (s.count side) side

/-- No thread is between its transfer and its wake-ups, and no resumed thread has yet to try again. -/
def Quiet : Prop := ∀ t side, (s.call t).wakes (s.count side) side = false ∧ (s.call t).phase side ≠ .retry

/-- **Nobody is stranded**: no reader is suspended while there is data or no writer, and no writer while there is
room or no reader. -/
def NoneStranded : Prop :=
  (∀ t fd count, s.call t = .readSuspended fd count → s.data = [] ∧ s.openWriters ≠ 0) ∧
    ∀ t fd buf ret, s.call t = .writeSuspended fd buf ret → s.room = 0 ∧ s.openReaders ≠ 0

end State

/-- A step leaves nobody behind. A read or write that has waited, and ends with data or room left or with nobody
on the other side, finds the others of its side backed. A read or write that is to wait has asked for as much as
there is: its count was not cut to 16 bits. An open that creates a fifo finds no open file. -/
def KeepsServed (s : State T) : Act T → Prop
  | .cont t =>
    match s.call t with
    | .openLock _ => s.refCount = 0#8 → s.files = []
    | .readLoop fd count retry =>
      (retry = true → s.writers = 0#8 ∧ s.ready .readers ∨ uint16 count < s.data.length →
        Backed (s.view .readers) (· ≠ t)) ∧
      (s.writers ≠ 0#8 → fd.nonblock = false → uint16 count = 0 → s.data = [])
    | .writeLoop fd buf ret wakeup =>
      (wakeup = true → s.readers = 0#8 ∧ s.ready .writers ∨ (State.chunk buf ret).length < s.room →
        Backed (s.view .writers) (· ≠ t)) ∧
      (s.readers ≠ 0#8 → fd.nonblock = false → (State.chunk buf ret).length < s.room →
        ret + (State.chunk buf ret).length = buf.length)
    | _ => True
  | _ => True

instance [Fintype T] (s : State T) (a : Act T) : Decidable (KeepsServed s a) := by
  unfold KeepsServed
  split
  · split <;> infer_instance
  · infer_instance

end RtThread.Pipe
