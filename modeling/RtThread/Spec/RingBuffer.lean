import RtThread.Lib.Cyclic
import RtThread.Lib.Run
import RtThread.Lib.Word

/-!
# Ring buffers (`components/drivers/src/ringbuffer.c`)

A ring buffer keeps a read and a write index into a buffer of `buffer_size` bytes, each with
a one-bit mirror that flips when the index wraps. Equal indices mean an empty buffer in the
same mirror and a full one in different mirrors.

The indices are 15-bit and the lengths 16-bit unsigned fields; a value is cut to its field
where it is stored. `memcpy` counts are differences that the indices keep from going below 0
(`Proof/RingBuffer.lean`).

`Fifo` is the queue that a ring buffer stands for.
-/

namespace RtThread.Ringbuffer

/-- `rt_uint8_t`. -/
abbrev Byte := BitVec 8

/-- `struct rt_ringbuffer`. -/
structure RingBuffer where
  bufferPtr : ℕ → Byte
  readMirror : Bool
  readIndex : ℕ
  writeMirror : Bool
  writeIndex : ℕ
  bufferSize : ℕ

/-- `enum rt_ringbuffer_state`. -/
inductive RingbufferState
  | empty
  | full
  | halffull
  deriving DecidableEq

/-- A value in a 15-bit index. -/
def index (n : ℕ) : ℕ := n % 2 ^ 15

/-- A value in a `rt_uint16_t`. -/
def uint16 (n : ℕ) : ℕ := n % 2 ^ 16

/-- `memcpy(&pool[i], src, n)`. -/
def memcpyIn (pool : ℕ → Byte) (i : ℕ) (src : List Byte) (n : ℕ) : ℕ → Byte :=
  Cyclic.copy pool i (src.take n)

/-- The bytes that `memcpy(dst, &pool[i], n)` writes. -/
def memcpyOut (pool : ℕ → Byte) (i n : ℕ) : List Byte := (List.range n).map fun j => pool (i + j)

/-- `rt_ringbuffer_init` with `RT_ALIGN_SIZE = 2 ^ alignLog`. -/
def rtRingbufferInit (alignLog : ℕ) (pool : ℕ → Byte) (size : ℕ) : Option RingBuffer :=
  if size > 0 then
    some
      { bufferPtr := pool
        readMirror := false
        readIndex := 0
        writeMirror := false
        writeIndex := 0
        bufferSize := Word.alignDown 32 alignLog size }
  else none

variable (rb : RingBuffer)

/-- `rt_ringbuffer_status`. -/
def rtRingbufferStatus : RingbufferState :=
  if rb.readIndex = rb.writeIndex then
    if rb.readMirror = rb.writeMirror then .empty else .full
  else .halffull

/-- `rt_ringbuffer_data_len`. -/
def rtRingbufferDataLen : ℕ :=
  match rtRingbufferStatus rb with
  | .empty => 0
  | .full => rb.bufferSize
  | .halffull =>
    if rb.writeIndex > rb.readIndex then rb.writeIndex - rb.readIndex
    else rb.bufferSize - (rb.readIndex - rb.writeIndex)

/-- `rt_ringbuffer_space_len`. -/
def rtRingbufferSpaceLen : ℕ := rb.bufferSize - rtRingbufferDataLen rb

/-- `rt_ringbuffer_put`. -/
def rtRingbufferPut (ptr : List Byte) (length : ℕ) : ℕ × RingBuffer :=
  let size := uint16 (rtRingbufferSpaceLen rb)
  if size = 0 then (0, rb)
  else
    let length := if size < length then size else length
    let room := rb.bufferSize - rb.writeIndex
    if room > length then
      (length,
        { rb with
          bufferPtr := memcpyIn rb.bufferPtr rb.writeIndex ptr length
          writeIndex := index (rb.writeIndex + length) })
    else
      (length,
        { rb with
          bufferPtr :=
            memcpyIn (memcpyIn rb.bufferPtr rb.writeIndex ptr room) 0 (ptr.drop room) (length - room)
          writeMirror := !rb.writeMirror
          writeIndex := index (length - room) })

/-- `rt_ringbuffer_put_force`. -/
def rtRingbufferPutForce (ptr : List Byte) (length : ℕ) : ℕ × RingBuffer :=
  let spaceLength := uint16 (rtRingbufferSpaceLen rb)
  let (ptr, length) :=
    if length > rb.bufferSize then (ptr.drop (length - rb.bufferSize), uint16 rb.bufferSize)
    else (ptr, length)
  let room := rb.bufferSize - rb.writeIndex
  if room > length then
    let writeIndex := index (rb.writeIndex + length)
    (length,
      { rb with
        bufferPtr := memcpyIn rb.bufferPtr rb.writeIndex ptr length
        writeIndex
        readIndex := if length > spaceLength then writeIndex else rb.readIndex })
  else
    let writeIndex := index (length - room)
    (length,
      { rb with
        bufferPtr :=
          memcpyIn (memcpyIn rb.bufferPtr rb.writeIndex ptr room) 0 (ptr.drop room) (length - room)
        writeMirror := !rb.writeMirror
        writeIndex
        readMirror := if length > spaceLength then !rb.readMirror else rb.readMirror
        readIndex := if length > spaceLength then writeIndex else rb.readIndex })

/-- `rt_ringbuffer_get`: the length it returns, and the bytes it writes to `ptr`. -/
def rtRingbufferGet (length : ℕ) : ℕ × List Byte × RingBuffer :=
  let size := rtRingbufferDataLen rb
  if size = 0 then (0, [], rb)
  else
    let length := if size < length then uint16 size else length
    let room := rb.bufferSize - rb.readIndex
    if room > length then
      (length, memcpyOut rb.bufferPtr rb.readIndex length,
        { rb with readIndex := index (rb.readIndex + length) })
    else
      (length, memcpyOut rb.bufferPtr rb.readIndex room ++ memcpyOut rb.bufferPtr 0 (length - room),
        { rb with
          readMirror := !rb.readMirror
          readIndex := index (length - room) })

/-- `rt_ringbuffer_putchar`. -/
def rtRingbufferPutchar (ch : Byte) : ℕ × RingBuffer :=
  if rtRingbufferSpaceLen rb = 0 then (0, rb)
  else
    let bufferPtr := Function.update rb.bufferPtr rb.writeIndex ch
    if rb.writeIndex = rb.bufferSize - 1 then
      (1, { rb with bufferPtr, writeMirror := !rb.writeMirror, writeIndex := 0 })
    else (1, { rb with bufferPtr, writeIndex := index (rb.writeIndex + 1) })

/-- `rt_ringbuffer_putchar_force`. -/
def rtRingbufferPutcharForce (ch : Byte) : ℕ × RingBuffer :=
  let oldState := rtRingbufferStatus rb
  let bufferPtr := Function.update rb.bufferPtr rb.writeIndex ch
  if rb.writeIndex = rb.bufferSize - 1 then
    (1,
      { rb with
        bufferPtr
        writeMirror := !rb.writeMirror
        writeIndex := 0
        readMirror := if oldState = .full then !rb.readMirror else rb.readMirror
        readIndex := if oldState = .full then 0 else rb.readIndex })
  else
    let writeIndex := index (rb.writeIndex + 1)
    (1,
      { rb with
        bufferPtr
        writeIndex
        readIndex := if oldState = .full then writeIndex else rb.readIndex })

/-- `rt_ringbuffer_getchar`: the length it returns, and the byte it writes to `ch`. -/
def rtRingbufferGetchar : ℕ × List Byte × RingBuffer :=
  if rtRingbufferDataLen rb = 0 then (0, [], rb)
  else
    let ch := rb.bufferPtr rb.readIndex
    if rb.readIndex = rb.bufferSize - 1 then
      (1, [ch], { rb with readMirror := !rb.readMirror, readIndex := 0 })
    else (1, [ch], { rb with readIndex := index (rb.readIndex + 1) })

/-- `rt_ringbuffer_reset`. -/
def rtRingbufferReset : RingBuffer :=
  { rb with readMirror := false, readIndex := 0, writeMirror := false, writeIndex := 0 }

/-- The byte strings whose length fits the `rt_uint16_t length` of a call. -/
def Block := { d : List Byte // d.length < 2 ^ 16 }

/-- The calls that do not overwrite. -/
inductive Op
  | put (ptr : Block)
  | putchar (ch : Byte)
  | get (length : BitVec 16)
  | getchar
  | dataLen
  | reset

/-- What a caller sees: the value returned, and the bytes written to its buffer. -/
structure Result where
  ret : ℕ
  out : List Byte
  deriving DecidableEq

/-- A call that does not overwrite; `rt_ringbuffer_reset` returns nothing. -/
def step : Op → Result × RingBuffer
  | .put d => ({ ret := (rtRingbufferPut rb d.1 d.1.length).1, out := [] }, (rtRingbufferPut rb d.1 d.1.length).2)
  | .putchar ch => ({ ret := (rtRingbufferPutchar rb ch).1, out := [] }, (rtRingbufferPutchar rb ch).2)
  | .get length =>
    let (ret, out, rb') := rtRingbufferGet rb length.toNat
    ({ ret, out }, rb')
  | .getchar =>
    let (ret, out, rb') := rtRingbufferGetchar rb
    ({ ret, out }, rb')
  | .dataLen => ({ ret := rtRingbufferDataLen rb, out := [] }, rb)
  | .reset => ({ ret := 0, out := [] }, rtRingbufferReset rb)

/-- The calls on a ring buffer. -/
inductive Call
  | op (o : Op)
  | putForce (ptr : Block)
  | putcharForce (ch : Byte)

/-- The buffer after a call. -/
def after : Call → RingBuffer
  | .op o => (step rb o).2
  | .putForce d => (rtRingbufferPutForce rb d.1 d.1.length).2
  | .putcharForce ch => (rtRingbufferPutcharForce rb ch).2

/-- A buffer that `rt_ringbuffer_init` made from an `rt_int16_t size`. -/
def Created : Prop :=
  ∃ alignLog pool size, alignLog < 31 ∧ size < 2 ^ 15 ∧ rtRingbufferInit alignLog pool size = some rb

/-- The ring buffers of every run. -/
def Reachable : RingBuffer → Prop := Run.Reach Created (fun rb a rb' => after rb a = rb') Run.Any

/-- The logical content: the bytes between the indices. -/
def content : List Byte :=
  Cyclic.contents rb.bufferPtr rb.bufferSize rb.readIndex (rtRingbufferDataLen rb)

namespace Fifo

/-- A byte queue of capacity `n`. -/
def step (n : ℕ) (q : List Byte) : Op → Result × List Byte
  | .put d =>
    ({ ret := min d.1.length (n - q.length), out := [] }, q ++ d.1.take (n - q.length))
  | .putchar ch => if q.length < n then ({ ret := 1, out := [] }, q ++ [ch]) else ({ ret := 0, out := [] }, q)
  | .get length =>
    ({ ret := min length.toNat q.length, out := q.take length.toNat }, q.drop length.toNat)
  | .getchar => ({ ret := min 1 q.length, out := q.take 1 }, q.drop 1)
  | .dataLen => ({ ret := q.length, out := [] }, q)
  | .reset => ({ ret := 0, out := [] }, [])

end Fifo

end RtThread.Ringbuffer
