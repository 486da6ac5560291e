import RtThread.Lib.Cyclic
import RtThread.Lib.Run
import Mathlib.Data.List.DropRight

/-!
# Serial receive FIFOs (`components/drivers/serial/serial.c`)

`RxFifo` is filled by the receive interrupt, byte by byte in interrupt mode, and in DMA mode by chunks that the
hardware has stored from `put_index` on. Each pass of the loops of `_serial_int_rx` and `RX_IND` runs with
interrupts disabled, and so does all of `_serial_dma_rx`.

`Queue` is the queue that keeps the newest bytes.
-/

namespace RtThread.Serial

abbrev Byte := UInt8

/-- `struct rt_serial_rx_fifo`; the indices are `rt_uint16_t`. -/
structure RxFifo where
  buffer : ℕ → Byte
  putIndex : ℕ
  getIndex : ℕ
  isFull : Bool

/-- A value in a `rt_uint16_t`. -/
def uint16 (n : ℕ) : ℕ := n % 2 ^ 16

/-- The FIFO that `rt_serial_open` makes. -/
def RxFifo.opened : RxFifo := ⟨fun _ => 0, 0, 0, false⟩

variable (bufsz : ℕ) (f : RxFifo)

/-- `_serial_fifo_calc_recved_len`. -/
def serialFifoCalcRecvedLen : ℕ :=
  if f.putIndex = f.getIndex then if f.isFull then bufsz else 0
  else if f.putIndex > f.getIndex then f.putIndex - f.getIndex
  else bufsz - (f.getIndex - f.putIndex)

/-! ## Interrupt mode -/

/-- An index after one more byte. -/
def next (i : ℕ) : ℕ := if uint16 (i + 1) ≥ bufsz then 0 else uint16 (i + 1)

/-- A pass of the loop of `RT_SERIAL_EVENT_RX_IND`, for the byte that `getc` returns. -/
def rxChar (ch : Byte) : RxFifo :=
  let putIndex := next bufsz f.putIndex
  let f := { f with buffer := Function.update f.buffer f.putIndex ch, putIndex }
  if f.putIndex = f.getIndex then { f with getIndex := next bufsz f.getIndex, isFull := true } else f

/-- `RT_SERIAL_EVENT_RX_IND`, for the bytes that `getc` returns before -1. -/
def rxInd : List Byte → RxFifo := List.foldl (rxChar bufsz) f

/-- A pass of the loop of `_serial_int_rx`; `none` where it finds no data. -/
def readChar : Option (Byte × RxFifo) :=
  if f.getIndex = f.putIndex ∧ f.isFull = false then none
  else some (f.buffer f.getIndex, { f with getIndex := next bufsz f.getIndex, isFull := false })

/-- `_serial_int_rx`: the bytes that it puts at `data`, whose number it returns. Before each pass the bytes in
front of `arrivals` are received. -/
def serialIntRx : ℕ → List (List Byte) → RxFifo → List Byte × RxFifo
  | 0, _, f => ([], f)
  | length + 1, arrivals, f =>
    let f := rxInd bufsz f (arrivals.headD [])
    match readChar bufsz f with
    | none => ([], f)
    | some (ch, f) =>
      let (data, f) := serialIntRx length arrivals.tail f
      (ch :: data, f)

/-! ## DMA mode -/

/-- `rt_dma_recv_update_get_index`; `none` where the assertion fails. -/
def dmaRecvUpdateGetIndex (len : ℕ) : Option RxFifo :=
  if len ≤ serialFifoCalcRecvedLen bufsz f then
    let isFull := if f.isFull ∧ len ≠ 0 then false else f.isFull
    let getIndex := uint16 (f.getIndex + len)
    some { f with getIndex := if getIndex ≥ bufsz then getIndex % bufsz else getIndex, isFull }
  else none

/-- The cases of `rt_dma_recv_update_put_index`: the put index, and whether the get index is overwritten. -/
def putIndexCases (len : ℕ) : ℕ × Bool :=
  let putIndex := uint16 (f.putIndex + len)
  if f.getIndex ≤ f.putIndex then
    if putIndex ≥ bufsz then
      (putIndex % bufsz, if putIndex % bufsz ≥ f.getIndex then true else f.isFull)
    else (putIndex, f.isFull)
  else if putIndex ≥ f.getIndex then (if putIndex ≥ bufsz then putIndex % bufsz else putIndex, true)
  else (putIndex, f.isFull)

/-- `rt_dma_recv_update_put_index`. -/
def dmaRecvUpdatePutIndex (len : ℕ) : RxFifo :=
  let (putIndex, isFull) := putIndexCases bufsz f len
  let getIndex := if isFull then putIndex else f.getIndex
  { f with putIndex, isFull, getIndex := if getIndex ≥ bufsz then 0 else getIndex }

/-- `RT_SERIAL_EVENT_RX_DMADONE`, for a chunk that the hardware has stored. -/
def rxDmadone (d : List Byte) : RxFifo :=
  dmaRecvUpdatePutIndex bufsz { f with buffer := Cyclic.write f.buffer bufsz f.putIndex d } d.length

/-- The bytes that `rt_memcpy(data, buffer + i, n)` puts at `data`. -/
def memcpy (i n : ℕ) : List Byte := Cyclic.slice f.buffer i n

/-- `_serial_dma_rx` for a buffer that is not empty. -/
def serialDmaRx (length : ℕ) : Option (List Byte × RxFifo) :=
  let fifoRecvedLen := serialFifoCalcRecvedLen bufsz f
  let recvLen := if length < fifoRecvedLen then length else fifoRecvedLen
  let data :=
    if f.getIndex + recvLen < bufsz then memcpy f f.getIndex recvLen
    else memcpy f f.getIndex (bufsz - f.getIndex) ++ memcpy f 0 (recvLen + f.getIndex - bufsz)
  (dmaRecvUpdateGetIndex bufsz f recvLen).map fun f => (data, f)

/-! ## Runs -/

inductive Mode
  | int
  | dma

inductive Event
  | rxInd (d : List Byte)
  | intRx (length : ℕ) (arrivals : List (List Byte))
  | rxDmadone (d : List Byte)
  | dmaRx (length : ℕ)

/-- The interrupts and reads of a mode. -/
def Event.Of : Mode → Event → Prop
  | .int, .rxInd _ | .int, .intRx _ _ | .dma, .dmaRx _ => True
  | .dma, .rxDmadone d => d.length ≤ bufsz
  | .int, .rxDmadone _ | .int, .dmaRx _ | .dma, .rxInd _ | .dma, .intRx _ _ => False

/-- The events of a FIFO that was opened in a mode. -/
def Events (mode : Mode) : Type := { e : Event // e.Of bufsz mode }

/-- The bytes that a read returns, and none for an interrupt; `none` if an assertion fails. -/
def step {mode : Mode} (f : RxFifo) (e : Events bufsz mode) : Option (List Byte) × RxFifo :=
  match e.1 with
  | .rxInd d => (some [], rxInd bufsz f d)
  | .intRx length arrivals =>
    let (data, f) := serialIntRx bufsz length arrivals f
    (some data, f)
  | .rxDmadone d => (some [], rxDmadone bufsz f d)
  | .dmaRx length =>
    match serialDmaRx bufsz f length with
    | some (data, f) => (some data, f)
    | none => (none, f)

/-- What a FIFO can hold. -/
def capacity : Mode → ℕ
  | .int => max 1 (bufsz - 1)
  | .dma => bufsz

namespace Queue

variable (c : ℕ)

/-- Bytes go in behind the last one, and the oldest ones are dropped. -/
def recv (q d : List Byte) : List Byte := (q ++ d).rtake c

/-- A read that takes one byte after the other. -/
def readEach : ℕ → List (List Byte) → List Byte → List Byte × List Byte
  | 0, _, q => ([], q)
  | length + 1, arrivals, q =>
    match recv c q (arrivals.headD []) with
    | [] => ([], [])
    | ch :: q =>
      let (data, q) := readEach length arrivals.tail q
      (ch :: data, q)

def step {mode : Mode} (q : List Byte) (e : Events bufsz mode) : Option (List Byte) × List Byte :=
  match e.1 with
  | .rxInd d | .rxDmadone d => (some [], recv c q d)
  | .intRx length arrivals =>
    let (data, q) := readEach c length arrivals q
    (some data, q)
  | .dmaRx length => (some (q.take length), q.drop length)

end Queue

end RtThread.Serial
