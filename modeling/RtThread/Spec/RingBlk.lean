import RtThread.Lib.Run
import RtThread.Lib.Ranges
import Mathlib.Data.BitVec
import Mathlib.Data.Nat.Notation

/-!
# Ring block buffers (`ringblk_buf.c`)

Blocks of a buffer are handed out in the order of its addresses, and again from its beginning. `blk_set` is an
array of blocks, and `blk_list` links those that have been allocated, but for those that
`rt_rbb_blk_queue_get` has taken out. A block is its index in `blk_set`; `rt_slist_remove` keeps its link.

A function that fails an `RT_ASSERT`, or reads behind `blk_set`, is `none`.
-/

namespace RtThread.RingBlk

/-- `rt_rbb_status_t`. -/
inductive Status
  | unused
  | inited
  | put
  | get
  deriving DecidableEq

/-- `struct rt_rbb_blk`; a `size` has 24 bits. -/
structure Blk where
  status : Status
  size : BitVec 32
  buf : BitVec 32
  deriving DecidableEq

/-- What `rt_rbb_init` sets for good. -/
structure Config where
  buf : BitVec 32
  bufSize : BitVec 32
  blkMaxNum : ℕ
  fits : buf.toNat + bufSize.toNat < 2 ^ 32

/-- `struct rt_rbb`. -/
structure State where
  blkSet : ℕ → Blk
  blkList : List ℕ

/-- `struct rt_rbb_blk_queue`. -/
structure BlkQueue where
  blocks : ℕ
  blkNum : ℕ
  deriving DecidableEq

namespace State

variable (cfg : Config) (s : State)

/-- `rt_rbb_init`. -/
def Init : Prop := s.blkList = [] ∧ ∀ i < cfg.blkMaxNum, (s.blkSet i).status = .unused

def status (i : ℕ) : Status := (s.blkSet i).status

def setStatus (i : ℕ) (status : Status) : State :=
  { s with blkSet := Function.update s.blkSet i { s.blkSet i with status } }

/-- `find_empty_blk_in_set`. -/
def findEmptyBlkInSet : Option ℕ := (List.range cfg.blkMaxNum).find? fun i => s.status i = .unused

/-- The block goes to the end of the list. -/
def append (i : ℕ) (buf blkSize : BitVec 32) : State :=
  { blkList := s.blkList ++ [i], blkSet := Function.update s.blkSet i ⟨.inited, blkSize, buf⟩ }

/-- `rt_rbb_blk_alloc`. -/
def rtRbbBlkAlloc (blkSize : BitVec 32) : Option (Option ℕ × State) :=
  if blkSize.toNat < 2 ^ 24 then
    match s.findEmptyBlkInSet cfg with
    | none => some (none, s)
    | some new =>
      if s.blkList.length < cfg.blkMaxNum then
        match s.blkList.head?, s.blkList.getLast? with
        | some head, some tail =>
          let head := s.blkSet head
          let tail := s.blkSet tail
          if head.buf ≤ tail.buf then
            let empty1 := (cfg.buf + cfg.bufSize) - (tail.buf + tail.size)
            let empty2 := head.buf - cfg.buf
            if empty1 ≥ blkSize then some (some new, s.append new (tail.buf + tail.size) blkSize)
            else if empty2 ≥ blkSize then some (some new, s.append new cfg.buf blkSize)
            else some (none, s)
          else
            let empty1 := head.buf - (tail.buf + tail.size)
            if empty1 ≥ blkSize then some (some new, s.append new (tail.buf + tail.size) blkSize)
            else some (none, s)
        | _, _ => some (some new, s.append new cfg.buf blkSize)
      else some (none, s)
  else none

/-- `rt_rbb_blk_put`. -/
def rtRbbBlkPut (block : ℕ) : Option State :=
  if block < cfg.blkMaxNum ∧ s.status block = .inited then some (s.setStatus block .put) else none

/-- `rt_rbb_blk_get`. -/
def rtRbbBlkGet : Option ℕ × State :=
  match s.blkList.find? fun i => s.status i = .put with
  | none => (none, s)
  | some block => (some block, s.setStatus block .get)

/-- `rt_rbb_blk_free`. -/
def rtRbbBlkFree (block : ℕ) : Option State :=
  if block < cfg.blkMaxNum ∧ s.status block ≠ .unused then
    some ({ s with blkList := s.blkList.erase block }.setStatus block .unused)
  else none

/-- `rt_rbb_blk_queue_get` takes a block out. -/
def takeOut (block : ℕ) : State := { s with blkList := s.blkList.erase block }.setStatus block .get

/-- The loop of `rt_rbb_blk_queue_get` over the nodes that are left, with `last_block`, `blk_queue` and
`data_total_size`. -/
def queueGetLoop (queueDataLen : BitVec 32) :
    List ℕ → Option ℕ → BlkQueue → BitVec 32 → State → BitVec 32 × BlkQueue × State
  | [], _, blkQueue, dataTotalSize, s => (dataTotalSize, blkQueue, s)
  | node :: nodes, none, blkQueue, dataTotalSize, s =>
    if s.status node = .put then
      queueGetLoop queueDataLen nodes (some node) ⟨node, 1⟩ (dataTotalSize + (s.blkSet node).size) (s.takeOut node)
    else queueGetLoop queueDataLen nodes none blkQueue dataTotalSize s
  | node :: nodes, some last, blkQueue, dataTotalSize, s =>
    let block := s.blkSet node
    if block.status ≠ .put ∨ (s.blkSet last).buf > block.buf ∨ dataTotalSize + block.size > queueDataLen then
      (dataTotalSize, blkQueue, s)
    else
      queueGetLoop queueDataLen nodes (some node) { blkQueue with blkNum := blkQueue.blkNum + 1 }
        (dataTotalSize + block.size) (s.takeOut node)

/-- `rt_rbb_blk_queue_get`: what it returns, `blk_queue` and the state. -/
def rtRbbBlkQueueGet (queueDataLen : BitVec 32) (blkQueue : BlkQueue) : BitVec 32 × BlkQueue × State :=
  queueGetLoop queueDataLen s.blkList none blkQueue 0 s

/-- `blk_queue->blocks[i]`. -/
def blocks (blkQueue : BlkQueue) (i : ℕ) : Option Blk :=
  if blkQueue.blocks + i < cfg.blkMaxNum then some (s.blkSet (blkQueue.blocks + i)) else none

/-- `rt_rbb_blk_queue_len`. -/
def rtRbbBlkQueueLen (blkQueue : BlkQueue) : Option (BitVec 32) :=
  (List.range blkQueue.blkNum).foldlM (fun dataTotalSize i =>
    (s.blocks cfg blkQueue i).map fun block => dataTotalSize + block.size) 0

/-- `rt_rbb_blk_queue_buf`. -/
def rtRbbBlkQueueBuf (blkQueue : BlkQueue) : Option (BitVec 32) := (s.blocks cfg blkQueue 0).map Blk.buf

/-- `rt_rbb_blk_queue_free`. -/
def rtRbbBlkQueueFree (blkQueue : BlkQueue) : Option State :=
  (List.range blkQueue.blkNum).foldlM (fun s i => s.rtRbbBlkFree cfg (blkQueue.blocks + i)) s

/-- The loop of `rt_rbb_next_blk_queue_len`. -/
def nextLenLoop : List ℕ → Option ℕ → BitVec 32 → BitVec 32
  | [], _, dataLen => dataLen
  | node :: nodes, none, dataLen =>
    if s.status node ≠ .put then nextLenLoop nodes none dataLen
    else nextLenLoop nodes (some node) (dataLen + (s.blkSet node).size)
  | node :: nodes, some last, dataLen =>
    let block := s.blkSet node
    if block.status ≠ .put ∨ (s.blkSet last).buf > block.buf then dataLen
    else nextLenLoop nodes (some node) (dataLen + block.size)

/-- `rt_rbb_next_blk_queue_len`. -/
def rtRbbNextBlkQueueLen : BitVec 32 := s.nextLenLoop s.blkList none 0

end State

inductive Act
  | alloc (blkSize : BitVec 32)
  | put (block : ℕ)
  | get
  | free (block : ℕ)
  | queueGet (queueDataLen : BitVec 32)
  | queueFree (blkQueue : BlkQueue)
  deriving DecidableEq

namespace State

variable (cfg : Config) (s : State)

def step : Act → Option State
  | .alloc blkSize => (s.rtRbbBlkAlloc cfg blkSize).map Prod.snd
  | .put block => s.rtRbbBlkPut cfg block
  | .get => some s.rtRbbBlkGet.2
  | .free block => s.rtRbbBlkFree cfg block
  | .queueGet queueDataLen => some (s.rtRbbBlkQueueGet queueDataLen ⟨0, 0⟩).2.2
  | .queueFree blkQueue => s.rtRbbBlkQueueFree cfg blkQueue

/-- The block is allocated and not freed yet. -/
def inUse (i : ℕ) : Prop := i < cfg.blkMaxNum ∧ s.status i ≠ .unused

instance (i : ℕ) : Decidable (s.inUse cfg i) := by
  unfold inUse
  infer_instance

/-- The addresses of a block. -/
def start (i : ℕ) : ℕ := (s.blkSet i).buf.toNat

def stop (i : ℕ) : ℕ := s.start i + (s.blkSet i).size.toNat

/-- **The blocks in use lie in the buffer, and no two share a byte.** -/
def Disjoint : Prop :=
  (∀ i, s.inUse cfg i → cfg.buf.toNat ≤ s.start i ∧ s.stop i ≤ cfg.buf.toNat + cfg.bufSize.toNat) ∧
    ∀ i j, s.inUse cfg i → s.inUse cfg j → i ≠ j →
      ∀ x, ¬((s.start i ≤ x ∧ x < s.stop i) ∧ s.start j ≤ x ∧ x < s.stop j)

/-- No block in use that has been taken out of the list has a byte among the `n` from `p` on. -/
def Free (p n : BitVec 32) : Prop :=
  ∀ i, i < cfg.blkMaxNum → s.status i ≠ .unused → i ∉ s.blkList →
    s.start i = s.stop i ∨ n = 0 ∨ s.stop i ≤ p.toNat ∨ p.toNat + n.toNat ≤ s.start i

instance (p n : BitVec 32) : Decidable (s.Free cfg p n) := by
  unfold Free
  infer_instance

end State

/-- The runs of a buffer whose steps all satisfy `ok`. -/
abbrev Runs (cfg : Config) (ok : State → Act → Prop) : State → Prop :=
  Run.Reach (State.Init cfg) (fun s a s' => s.step cfg a = some s') ok

/-- An alloc with a block of `blk_set` to hand finds the room that it infers. On an empty list the block is not
larger than the buffer; where the first block of the list is not above the last, and there is enough behind the last
or before the first, the blocks of the list ascend; and no block in use that has been taken out of the list has a
byte where the block is to lie. -/
def KeepsDisjoint (cfg : Config) (s : State) : Act → Prop
  | .alloc blkSize =>
    s.findEmptyBlkInSet cfg = none ∨
      match s.blkList.head?, s.blkList.getLast? with
      | some head, some tail =>
        let first := (s.blkSet head).buf
        let behind := (s.blkSet tail).buf + (s.blkSet tail).size
        if first ≤ (s.blkSet tail).buf then
          if (cfg.buf + cfg.bufSize) - behind ≥ blkSize then
            Ranges.Ascending s.start s.stop s.blkList ∧ s.Free cfg behind blkSize
          else first - cfg.buf ≥ blkSize → Ranges.Ascending s.start s.stop s.blkList ∧ s.Free cfg cfg.buf blkSize
        else first - behind ≥ blkSize → s.Free cfg behind blkSize
      | _, _ => blkSize ≤ cfg.bufSize ∧ s.Free cfg cfg.buf blkSize
  | _ => True

instance (cfg : Config) (s : State) (a : Act) : Decidable (KeepsDisjoint cfg s a) := by
  unfold KeepsDisjoint
  split
  · refine @instDecidableOr _ _ inferInstance ?_
    split <;> infer_instance
  · infer_instance

/-! ## What a queue is to hold -/

namespace State

variable (cfg : Config) (s : State)

/-- The list from its first block with the status PUT on. -/
def fromPut : List ℕ := s.blkList.dropWhile fun i => s.status i ≠ .put

/-- The bytes of some blocks. -/
def total (l : List ℕ) : ℕ := (l.map fun i => (s.blkSet i).size.toNat).sum

/-- Each block ends where the next one begins. -/
def Contiguous (l : List ℕ) : Prop := l.IsChain fun i j => s.stop i = s.start j

instance (l : List ℕ) : Decidable (s.Contiguous l) := by
  unfold Contiguous
  infer_instance

/-- Blocks that have the status PUT, follow each other in the list and in the buffer, and have `len` bytes or
fewer. -/
def Fits (len : ℕ) (l : List ℕ) : Prop := (∀ i ∈ l, s.status i = .put) ∧ s.Contiguous l ∧ s.total l ≤ len

/-- **A maximal run**: it begins at the first block with the status PUT, and does not fit with one block more. -/
def MaximalRun (len : ℕ) (l : List ℕ) : Prop :=
  ∃ rest, s.fromPut = l ++ rest ∧ s.Fits len l ∧ ∀ i ∈ rest.head?, ¬s.Fits len (l ++ [i])

/-- Some blocks are out of the list, with the status GET. -/
def taken (l : List ℕ) : State where
  blkSet i := if i ∈ l then { s.blkSet i with status := .get } else s.blkSet i
  blkList := s.blkList.filter (· ∉ l)

/-- Some blocks that are not in the list are unused. -/
def freed (l : List ℕ) : State where
  blkSet i := if i ∈ l then { s.blkSet i with status := .unused } else s.blkSet i
  blkList := s.blkList

/-- **A queue is exact**: `rt_rbb_blk_queue_get` takes a maximal run and returns its bytes; the queue begins with
the first of its blocks and has as many bytes; `rt_rbb_blk_queue_free` frees these blocks; and
`rt_rbb_next_blk_queue_len` is what a queue without a limit would have. -/
def QueueExact (queueDataLen : BitVec 32) (blkQueue : BlkQueue) : Prop :=
  (∃ l, s.MaximalRun queueDataLen.toNat l ∧
    match s.rtRbbBlkQueueGet queueDataLen blkQueue with
    | (dataTotalSize, blkQueue, s') =>
      s' = s.taken l ∧ dataTotalSize.toNat = s.total l ∧
        (∀ i ∈ l.head?, s'.rtRbbBlkQueueBuf cfg blkQueue = some (s.blkSet i).buf) ∧
        s'.rtRbbBlkQueueLen cfg blkQueue = some dataTotalSize ∧
        s'.rtRbbBlkQueueFree cfg blkQueue = some (s'.freed l)) ∧
    s.rtRbbNextBlkQueueLen = (s.rtRbbBlkQueueGet (BitVec.allOnes 32) blkQueue).1

/-- The blocks behind `last` that follow each other in the buffer, and with `n` bytes more have `len` or fewer. -/
def runBehind (len : ℕ) : ℕ → ℕ → List ℕ → List ℕ
  | _, _, [] => []
  | last, n, i :: l =>
    if s.status i = .put ∧ s.stop last = s.start i ∧ n + (s.blkSet i).size.toNat ≤ len then
      i :: runBehind len i (n + (s.blkSet i).size.toNat) l
    else []

/-- The loops go on from `last` to a block that has the status PUT and lies no lower, unless it makes the size more
than `queueDataLen`. -/
def GoesOn (queueDataLen : BitVec 32) (last : ℕ) (dataTotalSize : BitVec 32) (i : ℕ) : Prop :=
  s.status i = .put ∧ (s.blkSet last).buf ≤ (s.blkSet i).buf ∧ dataTotalSize + (s.blkSet i).size ≤ queueDataLen

instance (queueDataLen : BitVec 32) (last : ℕ) (dataTotalSize : BitVec 32) (i : ℕ) :
    Decidable (s.GoesOn queueDataLen last dataTotalSize i) := by
  unfold GoesOn
  infer_instance

/-- With no block to take, the queue is empty before. Otherwise the first block with the status PUT has
`queueDataLen` bytes or fewer; the loop does not go on behind the blocks that follow it in the list and in the
buffer and fit with it; and together they are the blocks of `blk_set` from it on. -/
def QueueFits (queueDataLen : BitVec 32) (blkQueue : BlkQueue) : Prop :=
  match s.fromPut with
  | [] => blkQueue.blkNum = 0
  | first :: l =>
    let run := s.runBehind queueDataLen.toNat first (s.blkSet first).size.toNat l
    (s.blkSet first).size ≤ queueDataLen ∧
      (∀ i ∈ (l.drop run.length).head?,
        ¬s.GoesOn queueDataLen (run.getLastD first) (BitVec.ofNat 32 (s.total (first :: run))) i) ∧
      (first :: run).Perm (List.range' first (run.length + 1))

instance (queueDataLen : BitVec 32) (blkQueue : BlkQueue) : Decidable (s.QueueFits queueDataLen blkQueue) := by
  unfold QueueFits
  split <;> infer_instance

end State

end RtThread.RingBlk
