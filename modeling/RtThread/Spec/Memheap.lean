import RtThread.Lib.Circular
import RtThread.Lib.Run
import RtThread.Spec.Mem

/-!
# Memory heap objects (`memheap.c`)

A pool is cut into items. Each one starts with a `struct rt_memheap_item`, whose pointers link all the items of the
pool (`next`, `prev`) and the unused ones (`next_free`, `prev_free`). The state has the bytes of the memory and the
members of `struct rt_memheap`, except for `free_header`, which lies in the memory.

On 32 bits: pointers and sizes are naturals below `2 ^ 32`, and `RT_NULL` is 0. A call is one step: it works
under the lock, and what it does outside the lock does not touch the lists. `rt_sem_take` does not fail, as
nobody detaches a heap in use. A failed `RT_ASSERT` stops the system (`none`), as does a search that does not
end within the fuel.
-/

namespace RtThread.Memheap

open Bytes

/-- `RT_ALIGN_SIZE = 2 ^ alignLog`. -/
structure Config where
  alignLog : ℕ
  alignLog_le : alignLog ≤ 28

namespace Config

variable (c : Config)

/-- `RT_ALIGN_SIZE`. -/
def alignSize : ℕ := 2 ^ c.alignLog

/-- `RT_ALIGN(size, RT_ALIGN_SIZE)`. -/
def rtAlign (size : ℕ) : ℕ := Word.alignUp 32 c.alignLog size

/-- `RT_ALIGN_DOWN(size, RT_ALIGN_SIZE)`. -/
def rtAlignDown (size : ℕ) : ℕ := Word.alignDown 32 c.alignLog size

/-- `sizeof(struct rt_memheap_item)`. -/
def sizeofItem : ℕ := 24

/-- `RT_MEMHEAP_SIZE`. -/
def memheapSize : ℕ := c.rtAlign sizeofItem

end Config

/-- `a + b` on 32 bits. -/
def add (a b : ℕ) : ℕ := (a + b) % 2 ^ 32

/-- `a - b` on 32 bits. -/
def sub (a b : ℕ) : ℕ := Word.wsub 32 a b

/-- `RT_MEMHEAP_MAGIC`. -/
def memheapMagic : ℕ := 0x1ea01ea0

/-- `RT_MEMHEAP_MASK`. -/
def memheapMask : ℕ := 0xfffffffe

/-- `RT_MEMHEAP_USED`. -/
def memheapUsed : ℕ := 1

/-- `RT_MEMHEAP_MINIALLOC`. -/
def minialloc : ℕ := 12

/-- `RT_NULL`. -/
def rtNull : ℕ := 0

/-- The members of `struct rt_memheap_item`. -/
inductive Field
  | magic
  | poolPtr
  | next
  | prev
  | nextFree
  | prevFree
  deriving DecidableEq

/-- Where a member lies in the struct. -/
def Field.offset : Field → ℕ
  | .magic => 0
  | .poolPtr => 4
  | .next => 8
  | .prev => 12
  | .nextFree => 16
  | .prevFree => 20

/-- The value of a member of the struct at `p`. -/
def get (m : Mem) (p : ℕ) (f : Field) : ℕ := readLE m (p + f.offset) 4

/-- The bytes after an assignment to a member of the struct at `p`. -/
def set (m : Mem) (p : ℕ) (f : Field) (v : ℕ) : Mem := writeLE m (p + f.offset) 4 v

/-- The bytes of the memory, and `struct rt_memheap`. -/
structure Heap where
  mem : Mem
  /-- where the struct lies -/
  self : ℕ
  /-- where its `free_header` lies -/
  freeHeader : ℕ
  startAddr : ℕ
  poolSize : ℕ
  availableSize : ℕ
  maxUsedSize : ℕ
  blockList : ℕ
  freeList : ℕ

namespace Heap

variable (s : Heap)

/-- A member of the struct at `p`. -/
def get (p : ℕ) (f : Field) : ℕ := Memheap.get s.mem p f

/-- Assign a member of the struct at `p`. -/
def set (p : ℕ) (f : Field) (v : ℕ) : Heap := { s with mem := Memheap.set s.mem p f v }

/-- A bound on the free items that a walk can visit. -/
def fuel : ℕ := s.poolSize + 2

end Heap

variable (c : Config)

/-- `RT_MEMHEAP_IS_USED(item)`. -/
def isUsed (s : Heap) (item : ℕ) : Prop := s.get item .magic &&& memheapUsed ≠ 0

instance (s : Heap) (item : ℕ) : Decidable (isUsed s item) := inferInstanceAs (Decidable (_ ≠ _))

/-- `MEMITEM_SIZE(item)`. -/
def memitemSize (s : Heap) (item : ℕ) : ℕ := sub (sub (s.get item .next) item) c.memheapSize

/-- Insert an item to the free list. -/
def insertFree (s : Heap) (item : ℕ) : Heap :=
  let s := s.set item .nextFree (s.get s.freeList .nextFree)
  let s := s.set item .prevFree s.freeList
  let s := s.set (s.get s.freeList .nextFree) .prevFree item
  s.set s.freeList .nextFree item

/-- Remove an item from the free list. -/
def removeFree (s : Heap) (item : ℕ) : Heap :=
  let s := s.set (s.get item .nextFree) .prevFree (s.get item .prevFree)
  s.set (s.get item .prevFree) .nextFree (s.get item .nextFree)

/-- The item at `new` becomes a freed memory block behind `header` in the block list. -/
def newItem (s : Heap) (header new : ℕ) : Heap :=
  let s := s.set new .magic memheapMagic
  let s := s.set new .poolPtr s.self
  let s := s.set new .prev header
  let s := s.set new .next (s.get header .next)
  let s := s.set (s.get header .next) .prev new
  s.set header .next new

/-- Decrement the available byte count. -/
def account (s : Heap) (n : ℕ) : Heap :=
  let s := { s with availableSize := sub s.availableSize n }
  if sub s.poolSize s.availableSize > s.maxUsedSize then
    { s with maxUsedSize := sub s.poolSize s.availableSize }
  else s

/-- `rt_memheap_init` of the struct at `self`, with the memory `m`. -/
def rtMemheapInit (m : Mem) (self freeHeader startAddr size : ℕ) : Heap :=
  let poolSize := c.rtAlignDown size
  let availableSize := sub poolSize (2 * c.memheapSize)
  let s : Heap :=
    { mem := m, self, freeHeader, startAddr, poolSize, availableSize
      maxUsedSize := sub poolSize availableSize, blockList := startAddr, freeList := freeHeader }
  -- initialize the free list header
  let s := s.set freeHeader .magic memheapMagic
  let s := s.set freeHeader .poolPtr self
  let s := s.set freeHeader .next rtNull
  let s := s.set freeHeader .prev rtNull
  let s := s.set freeHeader .nextFree freeHeader
  let s := s.set freeHeader .prevFree freeHeader
  -- initialize the first big memory block
  let s := s.set startAddr .magic memheapMagic
  let s := s.set startAddr .poolPtr self
  let s := s.set startAddr .next rtNull
  let s := s.set startAddr .prev rtNull
  let s := s.set startAddr .nextFree startAddr
  let s := s.set startAddr .prevFree startAddr
  let s := s.set startAddr .next (add (add startAddr availableSize) c.memheapSize)
  let s := s.set startAddr .prev (s.get startAddr .next)
  -- place the big memory block to free list
  let s := insertFree s startAddr
  -- build a small tailer block
  let item := s.get startAddr .next
  let s := s.set item .magic (memheapMagic ||| memheapUsed)
  let s := s.set item .poolPtr self
  let s := s.set item .next startAddr
  let s := s.set item .prev startAddr
  let s := s.set item .prevFree rtNull
  s.set item .nextFree rtNull

/-- The search on the free list, from `header` on: where it ends, and the last `free_size`. -/
def findFree (s : Heap) (size : ℕ) : ℕ → ℕ → ℕ → Option (ℕ × ℕ)
  | 0, _, _ => none
  | n + 1, header, freeSize =>
    if header ≠ s.freeList ∧ freeSize < size then
      let freeSize := memitemSize c s header
      findFree s size n (if freeSize < size then s.get header .nextFree else header) freeSize
    else some (header, freeSize)

/-- `size`, rounded as a request. -/
def request (size : ℕ) : ℕ := if c.rtAlign size < minialloc then minialloc else c.rtAlign size

/-- The branch of `rt_memheap_alloc` that splits the block it has found. -/
def splitItem (s : Heap) (header size : ℕ) : Heap :=
  let new := add (add header size) c.memheapSize
  let s := newItem s header new
  let s := removeFree s header
  let s := s.set header .nextFree rtNull
  let s := s.set header .prevFree rtNull
  let s := insertFree s new
  account s (add size c.memheapSize)

/-- The branch that takes the whole block. -/
def wholeItem (s : Heap) (header freeSize : ℕ) : Heap :=
  let s := account s freeSize
  let s := removeFree s header
  let s := s.set header .nextFree rtNull
  s.set header .prevFree rtNull

/-- The part of `rt_memheap_alloc` on the block it has found. -/
def takeItem (s : Heap) (header freeSize size : ℕ) : Heap :=
  let s :=
    if freeSize ≥ add (add size c.memheapSize) minialloc then splitItem c s header size
    else wholeItem s header freeSize
  s.set header .magic (s.get header .magic ||| memheapUsed)

def rtMemheapAlloc (s : Heap) (size : ℕ) : Option (ℕ × Heap) :=
  let size := request c size
  if size < s.availableSize then
    (findFree c s size s.fuel (s.get s.freeList .nextFree) 0).map fun (header, freeSize) =>
      if freeSize ≥ size then (add header c.memheapSize, takeItem c s header freeSize size)
      else (rtNull, s)
  else some (rtNull, s)

/-- Merge the block at `header` with its previous neighbour. -/
def mergeLeft (s : Heap) (header : ℕ) : Heap :=
  let s := s.set (s.get header .prev) .next (s.get header .next)
  s.set (s.get header .next) .prev (s.get header .prev)

/-- Merge the block at `header` with its next neighbour, which leaves the free list. -/
def mergeRight (s : Heap) (header : ℕ) : Heap :=
  let new := s.get header .next
  let s := s.set (s.get new .next) .prev header
  let s := s.set header .next (s.get new .next)
  removeFree s new

def rtMemheapFree (s : Heap) (ptr : ℕ) : Option Heap :=
  if ptr = rtNull then some s else do
  let header := sub ptr c.memheapSize
  guard (s.get header .magic &&& memheapMask = memheapMagic)
  guard (isUsed s header)
  guard (s.get (s.get header .next) .magic &&& memheapMask = memheapMagic)
  -- the heap that owns the block
  guard (s.get header .poolPtr = s.self)
  let s := s.set header .magic (s.get header .magic &&& memheapMask)
  let s := { s with availableSize := add s.availableSize (memitemSize c s header) }
  let left := s.get header .prev
  let insertHeader := decide (isUsed s left)
  let s :=
    if insertHeader then s
    else mergeLeft { s with availableSize := add s.availableSize c.memheapSize } header
  let header := if insertHeader then header else left
  let s :=
    if ¬isUsed s (s.get header .next) then
      mergeRight { s with availableSize := add s.availableSize c.memheapSize } header
    else s
  return if insertHeader then insertFree s header else s

/-- The following block of `rt_memheap_realloc` is free, and passes its test. -/
def expands (s : Heap) (header oldsize newsize : ℕ) : Prop :=
  ¬isUsed s (s.get header .next) ∧ add (memitemSize c s (s.get header .next)) oldsize > add newsize minialloc

instance (s : Heap) (header oldsize newsize : ℕ) : Decidable (expands c s header oldsize newsize) :=
  inferInstanceAs (Decidable (_ ∧ _))

/-- `rt_memheap_realloc` where the following free block is enough to expand. -/
def expand (s : Heap) (ptr header oldsize newsize : ℕ) : Heap :=
  let next := s.get header .next
  let s := account s (sub newsize oldsize)
  let s := removeFree s next
  let s := s.set (s.get next .next) .prev (s.get next .prev)
  let s := s.set (s.get next .prev) .next (s.get next .next)
  -- build a new one on the right place
  let next := add ptr newsize
  insertFree (newItem s header next) next

/-- `rt_memheap_realloc` where the block is split. -/
def shrink (s : Heap) (header newsize : ℕ) : Heap :=
  let new := add (add header newsize) c.memheapSize
  let s := newItem s header new
  let s :=
    if ¬isUsed s (s.get new .next) then
      mergeRight { s with availableSize := sub s.availableSize (memitemSize c s (s.get new .next)) } new
    else s
  let s := insertFree s new
  { s with availableSize := add s.availableSize (memitemSize c s new) }

def rtMemheapRealloc (s : Heap) (ptr newsize : ℕ) : Option (ℕ × Heap) :=
  if newsize = 0 then (rtMemheapFree c s ptr).map fun s => (rtNull, s) else
  let newsize := request c newsize
  if ptr = rtNull then rtMemheapAlloc c s newsize else
  let header := sub ptr c.memheapSize
  let oldsize := memitemSize c s header
  if newsize > oldsize then do
    guard (s.get header .next > header)
    if expands c s header oldsize newsize then
      return (ptr, expand s ptr header oldsize newsize)
    else do
      let (new, s) ← rtMemheapAlloc c s newsize
      if new ≠ rtNull then
        let s := { s with mem := copy s.mem new ptr (if oldsize < newsize then oldsize else newsize) }
        let s ← rtMemheapFree c s ptr
        return (new, s)
      else return (new, s)
  -- don't split when there is less than one node space left
  else if add (add newsize c.memheapSize) minialloc ≥ oldsize then some (ptr, s)
  else some (ptr, shrink c s header newsize)

/-! ## Programs that use the heap -/

/-- A heap with the pointers handed out and not yet freed. -/
structure Client where
  heap : Heap
  live : List ℕ

/-- The end of the user area of a live pointer: the item behind its own. -/
def Heap.areaEnd (s : Heap) (p : ℕ) : ℕ := s.get (sub p c.memheapSize) .next

/-- `pool_size - available_size`. -/
def Heap.usedSize (s : Heap) : ℕ := sub s.poolSize s.availableSize

/-- A call on the heap, or a write of the program into its own blocks. -/
inductive Call
  | alloc (size : BitVec 32)
  | free (p : ℕ)
  | realloc (p : ℕ) (size : BitVec 32)
  | write (i : ℕ) (v : UInt8)
  deriving DecidableEq

/-- One call; `rt_memheap_free` and `rt_memheap_realloc` are applied to live pointers only. -/
def Client.step (k : Client) : Call → Option Client
  | .alloc size => (rtMemheapAlloc c k.heap size.toNat).map fun (p, s) =>
    ⟨s, if p = rtNull then k.live else p :: k.live⟩
  | .free p => if p ∈ k.live then (rtMemheapFree c k.heap p).map fun s => ⟨s, k.live.erase p⟩ else none
  | .realloc p size =>
    if p ∈ k.live then (rtMemheapRealloc c k.heap p size.toNat).map fun (q, s) =>
      ⟨s, if size = 0 then k.live.erase p else if q = rtNull then k.live else q :: k.live.erase p⟩
    else none
  | .write i v =>
    if ∃ p ∈ k.live, p ≤ i ∧ i < k.heap.areaEnd c p then
      some { k with heap := { k.heap with mem := Function.update k.heap.mem i v } }
    else none

/-- The state `rt_memheap_init` leaves, from any memory: the pool has room for two items, and `struct rt_memheap` is
not in it. -/
def Client.Init (k : Client) : Prop :=
  ∃ m self freeHeader startAddr size, 2 * c.memheapSize ≤ c.rtAlignDown size ∧
    startAddr + c.rtAlignDown size ≤ 2 ^ 32 ∧ self < 2 ^ 32 ∧ freeHeader < 2 ^ 32 ∧
    (freeHeader + Config.sizeofItem ≤ startAddr ∨ startAddr + c.rtAlignDown size ≤ freeHeader) ∧
    k = ⟨rtMemheapInit c m self freeHeader startAddr size, []⟩

/-- The heap between `rt_memheap_alloc` and `rt_memheap_free` of an `rt_memheap_realloc` that moves the block. -/
def Heap.between (s : Heap) (p newsize : ℕ) : Option Heap :=
  let header := sub p c.memheapSize
  let oldsize := memitemSize c s header
  if newsize = 0 ∨ request c newsize ≤ oldsize ∨ expands c s header oldsize (request c newsize) then none
  else (rtMemheapAlloc c s (request c newsize)).bind fun (q, s) => if q = rtNull then none else some s

/-- The values of `pool_size - available_size` so far, the latest one first. -/
def log (k : Client) (a : Call) (k' : Client) (g : List ℕ) : List ℕ :=
  match a with
  | .realloc p size => k'.heap.usedSize :: (((k.heap.between c p size.toNat).map Heap.usedSize).toList ++ g)
  | _ => k'.heap.usedSize :: g

/-- The runs of a program whose calls all satisfy `ok`. -/
abbrev Runs (ok : Client → Call → Prop) : Client × List ℕ → Prop :=
  Run.Reach (fun p => p.1.Init c ∧ p.2 = [p.1.heap.usedSize])
    (Run.Logged (fun k a k' => k.step c a = some k') (log c)) (fun p a => ok p.1 a)

/-- **A well-formed heap** of the given items, of which some are free. -/
structure Client.WellFormed (k : Client) (items frees : List ℕ) : Prop where
  /-- the items are linked to a circle, and tile the pool up to the tailer -/
  blockList : items.head? = some k.heap.blockList
  blocks : Circular (fun x => k.heap.get x .next) (fun x => k.heap.get x .prev) items
  startAddr : k.heap.blockList = k.heap.startAddr
  increasing : items.IsChain fun x y => x + c.memheapSize ≤ y
  tailer : ∀ x ∈ items.getLast?, x + c.memheapSize = k.heap.startAddr + k.heap.poolSize
  magic : ∀ x ∈ items, k.heap.get x .magic &&& memheapMask = memheapMagic
  poolPtr : ∀ x ∈ items, k.heap.get x .poolPtr = k.heap.self
  /-- the free list has the unused items, each once -/
  freeList : Circular (fun x => k.heap.get x .nextFree) (fun x => k.heap.get x .prevFree) (k.heap.freeList :: frees)
  nodup : (k.heap.freeList :: frees).Nodup
  free : ∀ x, x ∈ frees ↔ x ∈ items ∧ ¬isUsed k.heap x
  noAdj : items.IsChain fun x y => isUsed k.heap x ∨ isUsed k.heap y
  /-- a live pointer is the user area of a used item -/
  item : ∀ p ∈ k.live, ∃ x ∈ items, p = x + c.memheapSize ∧ isUsed k.heap x
  inside : ∀ p ∈ k.live, p ≤ k.heap.areaEnd c p ∧
    k.heap.areaEnd c p + c.memheapSize ≤ k.heap.startAddr + k.heap.poolSize
  disjoint : k.live.Pairwise fun p q => k.heap.areaEnd c p ≤ q ∨ k.heap.areaEnd c q ≤ p
  available : k.heap.availableSize = (frees.map (memitemSize c k.heap)).sum

/-- An `rt_memheap_realloc` for which `newsize + RT_MEMHEAP_MINIALLOC` wraps finds the following block used. -/
def KeepsItems (k : Client) : Call → Prop
  | .realloc p size => 2 ^ 32 ≤ request c size.toNat + minialloc →
      isUsed k.heap (k.heap.get (sub p c.memheapSize) .next)
  | _ => True

instance (k : Client) (a : Call) : Decidable (KeepsItems c k a) := by
  unfold KeepsItems
  split <;> infer_instance

/-- The first item of the free list, or its header. -/
def Heap.first (s : Heap) : ℕ := s.get s.freeList .nextFree

/-- No item is split for a size that is not a multiple of `RT_ALIGN_SIZE`: that is for `RT_MEMHEAP_MINIALLOC` bytes,
which every free item has. -/
def KeepsAligned (k : Client) : Call → Prop
  | .alloc size => ¬c.alignSize ∣ request c size.toNat → k.heap.first ≠ k.heap.freeList →
      memitemSize c k.heap k.heap.first < request c size.toNat + c.memheapSize + minialloc
  | .realloc p size => size ≠ 0 → ¬c.alignSize ∣ request c size.toNat →
      memitemSize c k.heap (sub p c.memheapSize) ≤ request c size.toNat + c.memheapSize + minialloc
  | _ => True

instance (k : Client) (a : Call) : Decidable (KeepsAligned c k a) := by
  unfold KeepsAligned
  split <;> infer_instance

/-- The request is all the available bytes, and they are in one item. -/
def ExactFit (s : Heap) (n : ℕ) : Prop :=
  s.first ≠ s.freeList ∧ memitemSize c s s.first = n ∧ s.availableSize = n

instance (s : Heap) (n : ℕ) : Decidable (ExactFit c s n) := inferInstanceAs (Decidable (_ ∧ _ ∧ _))

end RtThread.Memheap
