import RtThread.Lib.Run
import Mathlib.Data.List.Forall2
import Mathlib.Data.UInt

/-!
# A ring of VBus (`components/vbus/vbus.c`)

Two systems share a ring of `nr` blocks (`RT_VMM_RB_BLK_NR`): one runs `_bus_out_entry`, its writer, and the other
`_bus_in_entry`, its reader. Every access to the memory they share is a step. A packet has its header and its data in
consecutive blocks, from the end of the ring on in the first ones.
-/

namespace RtThread.Vbus

/-- `sizeof(struct rt_vbus_blk)` -/
def blkSz : ℕ := 64

def RT_VBUS_BLK_HEAD_SZ : ℕ := 4

def LEN2BNR (len : ℕ) : ℕ := (len + RT_VBUS_BLK_HEAD_SZ + blkSz - 1) / blkSz

/-- `struct rt_vbus_pkg`; its `len` is a byte. -/
structure Pkg where
  id : UInt8
  prio : UInt8
  data : List UInt8
  short : data.length < 256
  deriving DecidableEq

/-- `struct rt_vbus_ring` -/
structure Ring where
  putIdx : ℕ
  getIdx : ℕ
  blocked : Bool
  /-- the bytes of `blks` -/
  blks : ℕ → UInt8

section Access

variable (nr : ℕ)

/-- `_bus_ring_space_nr` -/
def busRingSpaceNr (rg : Ring) : ℤ :=
  let delta : ℤ := rg.getIdx - rg.putIdx
  if delta > 0 then delta - 1 else nr + delta - 1

/-- The index `bnr` blocks further, as in `_ring_add_get_bnr`. -/
def nextIdx (idx bnr : ℕ) : ℕ := if idx + bnr ≥ nr then idx + bnr - nr else idx + bnr

/-- `rt_memcpy` into the blocks, byte by byte. -/
def memcpy (dst : ℕ) (src : List UInt8) : List (ℕ × UInt8) := (List.range' dst src.length).zip src

/-- What `_bus_out_entry` stores for a packet. -/
def stores (p : Pkg) (putIdx : ℕ) : List (ℕ × UInt8) :=
  let len := p.data.length
  (putIdx * blkSz, p.id) :: (putIdx * blkSz + 1, p.prio) :: (putIdx * blkSz + 2, UInt8.ofNat len) ::
    if putIdx + LEN2BNR len ≥ nr then
      let tailsz := min ((nr - putIdx) * blkSz - RT_VBUS_BLK_HEAD_SZ) len
      memcpy (putIdx * blkSz + RT_VBUS_BLK_HEAD_SZ) (p.data.take tailsz) ++ memcpy 0 (p.data.drop tailsz)
    else memcpy (putIdx * blkSz + RT_VBUS_BLK_HEAD_SZ) p.data

/-- From where `_bus_in_entry` copies a packet. -/
def loads (getIdx size : ℕ) : List ℕ :=
  if getIdx + LEN2BNR size ≥ nr then
    let tailsz := min ((nr - getIdx) * blkSz - RT_VBUS_BLK_HEAD_SZ) size
    List.range' (getIdx * blkSz + RT_VBUS_BLK_HEAD_SZ) tailsz ++ List.range' 0 (size - tailsz)
  else List.range' (getIdx * blkSz + RT_VBUS_BLK_HEAD_SZ) size

end Access

/-- Where `_bus_out_entry` is. -/
inductive WriterPc
  /-- at `rt_prio_queue_pop` -/
  | pop
  /-- about to look for space -/
  | space (p : Pkg)
  /-- suspended -/
  | wait (p : Pkg)
  /-- with these bytes left to store -/
  | store (p : Pkg) (todo : List (ℕ × UInt8))

/-- Where `_bus_in_entry` is. -/
inductive ReaderPc
  /-- at the head of its loop -/
  | check
  /-- about to read the header -/
  | size
  | id (size : ℕ)
  /-- with these bytes left to read -/
  | copy (id : UInt8) (size : ℕ) (todo : List ℕ) (bytes : List UInt8)
  /-- about to release the blocks; a packet that is dropped has no bytes -/
  | release (id : UInt8) (size : ℕ) (bytes : Option (List UInt8))
  /-- about to look at `blocked` -/
  | poll

/-- What the reader has taken out of the ring. -/
structure Taken where
  id : UInt8
  size : ℕ
  /-- `none` for a packet that it dropped -/
  bytes : Option (List UInt8)
  deriving DecidableEq

/-- The ring, both sides, and a history: the packets the writer has put and what the reader took out. -/
structure Sys where
  ring : Ring
  writer : WriterPc
  reader : ReaderPc
  put : List Pkg
  taken : List Taken

inductive Act
  /-- a packet of a channel that is connected or not -/
  | pop (p : Pkg) (connected : Bool)
  | space
  | resume
  | store
  | publish
  | check
  | size
  /-- whether the channel is connected, and whether `rt_malloc` returns memory -/
  | id (connected allocated : Bool)
  | load
  | copied
  | release
  | poll

/-- `rt_vbus_init` -/
def rtVbusInit : Sys :=
  { ring := ⟨0, 0, false, fun _ => 0⟩, writer := .pop, reader := .check, put := [], taken := [] }

/-- A ring that nothing was put into yet. -/
def Init (s : Sys) : Prop := s = rtVbusInit

/-- A step of the writer. -/
def writerStep (nr : ℕ) (s : Sys) (act : Act) : Option Sys :=
  match act, s.writer with
  | .pop p connected, .pop => some { s with writer := if connected then .space p else .pop }
  | .space, .space p =>
    if busRingSpaceNr nr s.ring < LEN2BNR p.data.length then
      some { s with ring := { s.ring with blocked := true }, writer := .wait p }
    else some { s with writer := .store p (stores nr p s.ring.putIdx) }
  | .resume, .wait p => some { s with ring := { s.ring with blocked := false }, writer := .space p }
  | .store, .store p ((a, b) :: todo) =>
    some { s with ring := { s.ring with blks := Function.update s.ring.blks a b }, writer := .store p todo }
  | .publish, .store p [] =>
    some { s with
      ring := { s.ring with putIdx := nextIdx nr s.ring.putIdx (LEN2BNR p.data.length) }
      writer := .pop
      put := s.put ++ [p] }
  | _, _ => none

/-- What the reader does with a packet, once it has seen its header. -/
def dispatch (nr getIdx : ℕ) (id : UInt8) (size : ℕ) (connected allocated : Bool) : ReaderPc :=
  if connected = false then .release id size none
  else if id = 0 then
    -- `_chn0_actor` reads the packet where it is
    if size > 60 then .release id size none
    else .copy id size (List.range' (getIdx * blkSz + RT_VBUS_BLK_HEAD_SZ) size) []
  else if allocated = false then .release id size none
  else .copy id size (loads nr getIdx size) []

/-- A step of the reader. -/
def readerStep (nr : ℕ) (s : Sys) (act : Act) : Option Sys :=
  match act, s.reader with
  | .check, .check => some { s with reader := if s.ring.getIdx ≠ s.ring.putIdx then .size else .check }
  | .size, .size => some { s with reader := .id (s.ring.blks (s.ring.getIdx * blkSz + 2)).toNat }
  | .id connected allocated, .id size =>
    let id := s.ring.blks (s.ring.getIdx * blkSz)
    some { s with reader := dispatch nr s.ring.getIdx id size connected allocated }
  | .load, .copy id size (a :: todo) bytes =>
    some { s with reader := .copy id size todo (bytes ++ [s.ring.blks a]) }
  | .copied, .copy id size [] bytes => some { s with reader := .release id size (some bytes) }
  | .release, .release id size bytes =>
    some { s with
      ring := { s.ring with getIdx := nextIdx nr s.ring.getIdx (LEN2BNR size) }
      reader := if id ≠ 0 ∧ bytes.isSome then .poll else .check
      taken := s.taken ++ [⟨id, size, bytes⟩] }
  -- a tick for the writer, if it is blocked
  | .poll, .poll => some { s with reader := .check }
  | _, _ => none

/-- One access. -/
def step (nr : ℕ) (s : Sys) (a : Act) : Option Sys := (writerStep nr s a).or (readerStep nr s a)

/-! ## What is promised -/

/-- The reader has taken this packet. -/
structure Taken.Of (t : Taken) (p : Pkg) : Prop where
  id : t.id = p.id
  size : t.size = p.data.length
  bytes : ∀ b ∈ t.bytes, b = p.data

/-- The blocks of these packets. -/
def blocks (l : List Pkg) : ℕ := (l.map fun p => LEN2BNR p.data.length).sum

/-- **The ring transports packets**: what the reader has taken are the first packets of those that were put, `waiting`
are the others. -/
structure Transported (nr : ℕ) (s : Sys) (waiting : List Pkg) : Prop where
  order : ∃ old, s.put = old ++ waiting ∧ List.Forall₂ Taken.Of s.taken old
  /-- the indices are those of blocks -/
  put_lt : s.ring.putIdx < nr
  get_lt : s.ring.getIdx < nr
  /-- no store is outside the ring or in a block of a packet that is waiting -/
  stores : ∀ p a b todo, s.writer = .store p ((a, b) :: todo) → a < nr * blkSz ∧
    ∀ i < blocks waiting, a / blkSz ≠ (s.ring.getIdx + i) % nr
  /-- and no load outside the ring -/
  loads : ∀ id size a todo bytes, s.reader = .copy id size (a :: todo) bytes → a < nr * blkSz
  /-- the reader finds a packet exactly when there is one, and the writer its space when there is space -/
  empty : s.ring.getIdx = s.ring.putIdx ↔ waiting = []
  space : busRingSpaceNr nr s.ring = nr - 1 - blocks waiting

end RtThread.Vbus
