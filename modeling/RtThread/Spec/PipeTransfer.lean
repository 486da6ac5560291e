import RtThread.Lib.Execution
import RtThread.Spec.Pipe

/-!
# Transfers of a pipe (`rt_pipe_read`, `rt_pipe_write` and `pipe_fops_write` of `pipe.c`)

`rt_pipe_read` and `rt_pipe_write` hold the mutex, and loop until the ring buffer transfers nothing more. Every loop
passes the bytes that are left to a `rt_uint16_t`.
-/

namespace RtThread.Pipe

open Ringbuffer

/-! ## The device -/

/-- The loop of `rt_pipe_write` of the bytes `buf`: `write_bytes`, and the fifo. -/
def rtPipeWriteLoop (rb : RingBuffer) (buf : List Byte) (writeBytes : ℕ) : ℕ × RingBuffer :=
  if writeBytes < buf.length then
    match rtRingbufferPut rb (State.chunk buf writeBytes) (State.chunk buf writeBytes).length with
    | (len, rb) => if len > 0 then rtPipeWriteLoop rb buf (writeBytes + len) else (writeBytes, rb)
  else (writeBytes, rb)
termination_by buf.length - writeBytes

/-- `rt_pipe_write`. -/
def rtPipeWrite (rb : RingBuffer) (buf : List Byte) : ℕ × RingBuffer :=
  if buf.length = 0 then (0, rb) else rtPipeWriteLoop rb buf 0

/-- The loop of `rt_pipe_read`: `read_bytes`, the bytes, and the fifo. -/
def rtPipeReadLoop (rb : RingBuffer) (count readBytes : ℕ) (buffer : List Byte) : ℕ × List Byte × RingBuffer :=
  if readBytes < count then
    match rtRingbufferGet rb (uint16 (count - readBytes)) with
    | (len, bytes, rb) =>
      if len > 0 then rtPipeReadLoop rb count (readBytes + len) (buffer ++ bytes) else (readBytes, buffer, rb)
  else (readBytes, buffer, rb)
termination_by count - readBytes

/-- `rt_pipe_read`. -/
def rtPipeRead (rb : RingBuffer) (count : ℕ) : ℕ × List Byte × RingBuffer :=
  if count = 0 then (0, [], rb) else rtPipeReadLoop rb count 0 []

/-- **A write stores what there is room for**, behind what is in the fifo. -/
def Stores (rb : RingBuffer) (buf : List Byte) : Prop :=
  (rtPipeWrite rb buf).1 = min buf.length (rtRingbufferSpaceLen rb) ∧
    content (rtPipeWrite rb buf).2 = content rb ++ buf.take (min buf.length (rtRingbufferSpaceLen rb))

/-- **A read returns what is there**, from the front of the fifo. -/
def Returns (rb : RingBuffer) (count : ℕ) : Prop :=
  (rtPipeRead rb count).1 = min count (content rb).length ∧
    (rtPipeRead rb count).2.1 = (content rb).take (min count (content rb).length) ∧
      content (rtPipeRead rb count).2.2 = (content rb).drop (min count (content rb).length)

/-! ## A write that blocks -/

/-- The write that a thread is in, behind its first tests, with `ret`. -/
def Call.writing : Call → Option (File × List Byte × ℕ)
  | .writeLock fd buf ret _ | .writeLoop fd buf ret _ | .writeRelease fd buf ret | .writeWakeReader fd buf ret
  | .writeWait fd buf ret | .writeSuspended fd buf ret | .writeResumed fd buf ret => some (fd, buf, ret)
  | _ => none

variable {T : Type} [DecidableEq T]

/-- A pipe that goes on from a state that it can reach. -/
structure Executes (cfg : Config) (s : ℕ → State T) (act : ℕ → Option (Act T)) : Prop where
  start : ∃ g, Runs cfg Run.Any (s 0, g)
  execution : Run.Execution (fun s a s' => s.step cfg a = some s') s act

/-- The write that the thread `t` is in at first has not ended at the time `i`. -/
def During (s : ℕ → State T) (t : T) (i : ℕ) : Prop := ∀ j ≤ i, ((s j).call t).writing.isSome = true

/-- The thread `t` is at a transfer of its write, and goes on. -/
def Transfers (s : ℕ → State T) (act : ℕ → Option (Act T)) (t : T) (i : ℕ) : Prop :=
  act i = some (.cont t) ∧ ∃ fd buf ret wakeup, (s i).call t = .writeLoop fd buf ret wakeup

/-- Readers keep draining the pipe: the pipe has a reader at each transfer of the write, and as long as the write has
not ended it comes to a transfer that finds room. -/
structure Drained (s : ℕ → State T) (act : ℕ → Option (Act T)) (t : T) : Prop where
  reader : ∀ i, During s t i → Transfers s act t i → (s i).readers ≠ 0#8
  room : ∀ i, During s t i → ∃ k ≥ i, During s t k ∧ Transfers s act t k ∧ (s k).room ≠ 0

/-- **The write ends by returning** `count`. -/
def EndsWith (s : ℕ → State T) (t : T) (count : ℕ) : Prop :=
  ∃ i, During s t i ∧ (s (i + 1)).call t = .writeEnd count true

end RtThread.Pipe
