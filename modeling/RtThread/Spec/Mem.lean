import RtThread.Lib.Bytes
import RtThread.Lib.Run
import RtThread.Lib.Word

/-!
# The small-memory allocator (`mem.c`)

The heap is a run of bytes. Each block starts with a `struct heap_mem`, whose
`next` and `prev` are offsets from `heap_ptr`. `Heap` holds the bytes and the
file's static variables; pointers are addresses, `RT_NULL` is 0.

Every function takes `heap_sem` for its whole critical part, so a call is one
step. A failed `RT_ASSERT` stops the system (`none`), as does a search that
does not end within the fuel `Heap.fuel` (`Proof/MemOps.lean` shows it always
ends on a heap that can hold one smallest block).
-/

namespace RtThread.Mem

open Bytes

/-- The build-time constants: `ARCH_CPU_64BIT` and `RT_ALIGN_SIZE = 2 ^ alignLog`
(`RT_USING_MEMTRACE` is off, as in the board's `rtconfig.h`). -/
structure Config where
  arch64 : Bool
  alignLog : ℕ
  alignLog_le : alignLog ≤ 28

namespace Config

variable (c : Config)

/-- The width of `rt_size_t`. -/
def bits : ℕ := if c.arch64 then 64 else 32

/-- `RT_ALIGN_SIZE`. -/
def alignSize : ℕ := 2 ^ c.alignLog

/-- `RT_ALIGN(size, RT_ALIGN_SIZE)`. -/
def rtAlign (size : ℕ) : ℕ := Word.alignUp c.bits c.alignLog size

/-- `RT_ALIGN_DOWN(size, RT_ALIGN_SIZE)`. -/
def rtAlignDown (size : ℕ) : ℕ := Word.alignDown c.bits c.alignLog size

/-- `a - b` in `rt_size_t`. -/
def sub (a b : ℕ) : ℕ := Word.wsub c.bits a b

/-- `sizeof(struct heap_mem)`. -/
def sizeofHeapMem : ℕ := if c.arch64 then 24 else 12

/-- `MIN_SIZE`. -/
def minSize : ℕ := if c.arch64 then 24 else 12

/-- `MIN_SIZE_ALIGNED`. -/
def minSizeAligned : ℕ := c.rtAlign c.minSize

/-- `SIZEOF_STRUCT_MEM`. -/
def sizeofStructMem : ℕ := c.rtAlign c.sizeofHeapMem

end Config

/-- `HEAP_MAGIC`. -/
def heapMagic : ℕ := 0x1ea0

/-- `RT_NULL`. -/
def rtNull : ℕ := 0

/-- The members of `struct heap_mem`. -/
inductive Field
  | magic
  | used
  | next
  | prev
  deriving DecidableEq

/-- Where a member lies in the struct (on 64 bits `resv` fills bytes 4 to 7). -/
def Field.offset (c : Config) : Field → ℕ
  | .magic => 0
  | .used => 2
  | .next => if c.arch64 then 8 else 4
  | .prev => if c.arch64 then 16 else 8

/-- The size of a member. -/
def Field.width (c : Config) : Field → ℕ
  | .magic => 2
  | .used => 2
  | .next => if c.arch64 then 8 else 4
  | .prev => if c.arch64 then 8 else 4

/-- The value of a member of the struct at `p`. -/
def get (c : Config) (m : Mem) (p : ℕ) (f : Field) : ℕ :=
  readLE m (p + f.offset c) (f.width c)

/-- The bytes after an assignment to a member of the struct at `p`. -/
def set (c : Config) (m : Mem) (p : ℕ) (f : Field) (v : ℕ) : Mem :=
  writeLE m (p + f.offset c) (f.width c) v

/-- The bytes of the heap and the static variables of `mem.c`. -/
structure Heap where
  mem : Mem
  heapPtr : ℕ
  heapEnd : ℕ
  /-- the lowest free block -/
  lfree : ℕ
  memSizeAligned : ℕ
  usedMem : ℕ
  maxMem : ℕ

namespace Heap

variable (c : Config) (s : Heap)

/-- `&heap_ptr[off]`. -/
def ref (off : ℕ) : ℕ := s.heapPtr + off

/-- A member of the struct at `p`. -/
def get (p : ℕ) (f : Field) : ℕ := Mem.get c s.mem p f

/-- Assign a member of the struct at `p`. -/
def set (p : ℕ) (f : Field) (v : ℕ) : Heap := { s with mem := Mem.set c s.mem p f v }

/-- A bound on the headers a walk can visit before it meets `heap_end`. -/
def fuel : ℕ := s.memSizeAligned + 2

end Heap

variable (c : Config)

/-- `plug_holes`, forward: combine `mem` and `mem->next`. -/
def plugForward (s : Heap) (mem : ℕ) : Heap :=
  let nmem := s.ref (s.get c mem .next)
  if mem ≠ nmem ∧ s.get c nmem .used = 0 ∧ nmem ≠ s.heapEnd then
    let s := if s.lfree = nmem then { s with lfree := mem } else s
    let s := s.set c mem .next (s.get c nmem .next)
    s.set c (s.ref (s.get c nmem .next)) .prev (mem - s.heapPtr)
  else s

/-- `plug_holes`, backward: combine `mem` and `mem->prev`. -/
def plugBackward (s : Heap) (mem : ℕ) : Heap :=
  let pmem := s.ref (s.get c mem .prev)
  if pmem ≠ mem ∧ s.get c pmem .used = 0 then
    let s := if s.lfree = mem then { s with lfree := pmem } else s
    let s := s.set c pmem .next (s.get c mem .next)
    s.set c (s.ref (s.get c mem .next)) .prev (pmem - s.heapPtr)
  else s

def plugHoles (s : Heap) (mem : ℕ) : Option Heap := do
  guard (s.heapPtr ≤ mem)
  guard (mem < s.heapEnd)
  guard (s.get c mem .used = 0)
  return plugBackward c (plugForward c s mem) mem

/-- `rt_system_heap_init` on memory `m`; `none` is the branch that reports the bad
addresses and leaves the heap uninitialised. -/
def rtSystemHeapInit (m : Mem) (beginAddr endAddr : ℕ) : Option Heap :=
  let beginAlign := c.rtAlign beginAddr
  let endAlign := c.rtAlignDown endAddr
  if endAlign > 2 * c.sizeofStructMem ∧ endAlign - 2 * c.sizeofStructMem ≥ beginAlign then
    let memSizeAligned := endAlign - beginAlign - 2 * c.sizeofStructMem
    let heapPtr := beginAlign
    -- initialize the start of the heap
    let m := set c m heapPtr .magic heapMagic
    let m := set c m heapPtr .next (memSizeAligned + c.sizeofStructMem)
    let m := set c m heapPtr .prev 0
    let m := set c m heapPtr .used 0
    -- initialize the end of the heap
    let heapEnd := heapPtr + get c m heapPtr .next
    let m := set c m heapEnd .magic heapMagic
    let m := set c m heapEnd .used 1
    let m := set c m heapEnd .next (memSizeAligned + c.sizeofStructMem)
    let m := set c m heapEnd .prev (memSizeAligned + c.sizeofStructMem)
    some { mem := m, heapPtr, heapEnd, lfree := heapPtr, memSizeAligned, usedMem := 0, maxMem := 0 }
  else none

/-- The `for` loop of `rt_malloc`, up to the first block that fits: its offset, or
`some none` when the loop ends. -/
def searchFit (s : Heap) (size : ℕ) : ℕ → ℕ → Option (Option ℕ)
  | 0, _ => none
  | n + 1, ptr =>
    if ptr < c.sub s.memSizeAligned size then
      let mem := s.ref ptr
      if s.get c mem .used = 0 ∧
          c.sub (s.get c mem .next) (ptr + c.sizeofStructMem) ≥ size then some (some ptr)
      else searchFit s size n (s.get c mem .next)
    else some none

/-- `used_mem += n`, and `max_mem` with it. -/
def Heap.account (s : Heap) (n : ℕ) : Heap :=
  { s with usedMem := s.usedMem + n, maxMem := max s.maxMem (s.usedMem + n) }

/-- Create an unused `mem2` at `ptr2` inside the block at `ptr`, and end that block there. -/
def newMem2 (s : Heap) (ptr ptr2 : ℕ) : Heap :=
  let mem := s.ref ptr
  let mem2 := s.ref ptr2
  let s := s.set c mem2 .magic heapMagic
  let s := s.set c mem2 .used 0
  let s := s.set c mem2 .next (s.get c mem .next)
  let s := s.set c mem2 .prev ptr
  s.set c mem .next ptr2

/-- Let the header behind `mem2` point back to it, unless that is `heap_end`. -/
def linkBack (s : Heap) (ptr2 : ℕ) : Heap :=
  let mem2 := s.ref ptr2
  if s.get c mem2 .next ≠ s.memSizeAligned + c.sizeofStructMem then
    s.set c (s.ref (s.get c mem2 .next)) .prev ptr2
  else s

/-- The body of `rt_malloc` on the block it takes: split it, or take it whole. -/
def carve (s : Heap) (size ptr : ℕ) : Heap :=
  let mem := s.ref ptr
  if c.sub (s.get c mem .next) (ptr + c.sizeofStructMem) ≥
      size + c.sizeofStructMem + c.minSizeAligned then
    let ptr2 := ptr + c.sizeofStructMem + size
    let s := newMem2 c s ptr ptr2
    let s := s.set c mem .used 1
    let s := linkBack c s ptr2
    s.account (size + c.sizeofStructMem)
  else
    let s := s.set c mem .used 1
    s.account (c.sub (s.get c mem .next) (mem - s.heapPtr))

/-- `while (lfree->used && lfree != heap_end) lfree = &heap_ptr[lfree->next]`. -/
def nextFree (s : Heap) : ℕ → ℕ → Option ℕ
  | 0, _ => none
  | n + 1, lfree =>
    if s.get c lfree .used ≠ 0 ∧ lfree ≠ s.heapEnd then nextFree s n (s.ref (s.get c lfree .next))
    else some lfree

def rtMalloc (s : Heap) (size : ℕ) : Option (ℕ × Heap) :=
  if size = 0 then some (rtNull, s) else
  let size := c.rtAlign size
  if size > s.memSizeAligned then some (rtNull, s) else
  let size := if size < c.minSizeAligned then c.minSizeAligned else size
  match searchFit c s size s.fuel (s.lfree - s.heapPtr) with
  | none => none
  | some none => some (rtNull, s)
  | some (some ptr) => do
    let mem := s.ref ptr
    let s := (carve c s size ptr).set c mem .magic heapMagic
    let lfree ← (if mem = s.lfree then nextFree c s s.fuel s.lfree else some s.lfree)
    let s := { s with lfree }
    guard (mem + c.sizeofStructMem + size ≤ s.heapEnd)
    guard ((mem + c.sizeofStructMem) % c.alignSize = 0)
    guard (mem % c.alignSize = 0)
    return (mem + c.sizeofStructMem, s)

def rtFree (s : Heap) (rmem : ℕ) : Option Heap :=
  if rmem = rtNull then some s else do
  guard (rmem % c.alignSize = 0)
  guard (rmem ≥ s.heapPtr ∧ rmem < s.heapEnd)
  let mem := rmem - c.sizeofStructMem
  guard (s.get c mem .used ≠ 0)
  guard (s.get c mem .magic = heapMagic)
  let s := s.set c mem .used 0
  let s := s.set c mem .magic heapMagic
  -- the newly freed struct is now the lowest
  let s := if mem < s.lfree then { s with lfree := mem } else s
  let s := { s with usedMem := c.sub s.usedMem (c.sub (s.get c mem .next) (mem - s.heapPtr)) }
  plugHoles c s mem

/-- The in-place branch of `rt_realloc`: cut the block at `ptr` after `newsize` bytes. -/
def shrink (s : Heap) (ptr size newsize : ℕ) : Option Heap :=
  let s := { s with usedMem := c.sub s.usedMem (size - newsize) }
  let ptr2 := ptr + c.sizeofStructMem + newsize
  let s := newMem2 c s ptr ptr2
  let s := linkBack c s ptr2
  plugHoles c s (s.ref ptr2)

def rtRealloc (s : Heap) (rmem newsize : ℕ) : Option (ℕ × Heap) :=
  let newsize := c.rtAlign newsize
  if newsize > s.memSizeAligned then some (rtNull, s)
  else if newsize = 0 then (rtFree c s rmem).map fun s => (rtNull, s)
  else if rmem = rtNull then rtMalloc c s newsize
  -- illegal memory
  else if rmem < s.heapPtr ∨ rmem ≥ s.heapEnd then some (rmem, s)
  else
    let mem := rmem - c.sizeofStructMem
    let ptr := mem - s.heapPtr
    let size := c.sub (c.sub (s.get c mem .next) ptr) c.sizeofStructMem
    if size = newsize then some (rmem, s)
    else if newsize + c.sizeofStructMem + c.minSize < size then
      (shrink c s ptr size newsize).map fun s => (rmem, s)
    else do
      -- expand memory
      let (nmem, s) ← rtMalloc c s newsize
      if nmem ≠ rtNull then
        let s := { s with mem := copy s.mem nmem rmem (if size < newsize then size else newsize) }
        let s ← rtFree c s rmem
        return (nmem, s)
      else return (nmem, s)

/-! ## Programs that use the heap -/

/-- A heap with the pointers handed out and not yet freed. -/
structure Client where
  heap : Heap
  live : List ℕ

/-- The end of the user area of a live pointer: the header behind its block. -/
def Heap.areaEnd (s : Heap) (p : ℕ) : ℕ := s.ref (s.get c (p - c.sizeofStructMem) .next)

/-- A call on the heap, or a write of the program into its own blocks. -/
inductive Call
  | malloc (size : ℕ)
  | free (p : ℕ)
  | realloc (p size : ℕ)
  | write (m : Mem)

/-- One call. `rt_free` and `rt_realloc` are applied to live pointers only;
`rt_realloc` frees its argument when the rounded size is 0. -/
inductive Client.Step : Client → Call → Client → Prop
  | malloc {s s' : Heap} {live : List ℕ} {size p : ℕ} : size < 2 ^ c.bits →
      rtMalloc c s size = some (p, s') →
      Step ⟨s, live⟩ (.malloc size) ⟨s', if p = rtNull then live else p :: live⟩
  | free {s s' : Heap} {live : List ℕ} {p : ℕ} : p ∈ live → rtFree c s p = some s' →
      Step ⟨s, live⟩ (.free p) ⟨s', live.erase p⟩
  | realloc {s s' : Heap} {live : List ℕ} {p q size : ℕ} : p ∈ live → size < 2 ^ c.bits →
      rtRealloc c s p size = some (q, s') →
      Step ⟨s, live⟩ (.realloc p size) ⟨s', if c.rtAlign size = 0 then live.erase p
        else if q = rtNull then live else q :: live.erase p⟩
  | write {s : Heap} {live : List ℕ} {m : Mem} :
      (∀ i, m i ≠ s.mem i → ∃ p ∈ live, p ≤ i ∧ i < s.areaEnd c p) →
      Step ⟨s, live⟩ (.write m) ⟨{ s with mem := m }, live⟩

/-- The state `rt_system_heap_init` leaves, from any memory. -/
def Client.Init (k : Client) : Prop :=
  ∃ m beginAddr endAddr, rtSystemHeapInit c m beginAddr endAddr = some k.heap ∧ k.live = []

/-- Offset `b` is the `next` of the header at `a`. -/
def Heap.Next (s : Heap) (a b : ℕ) : Prop := s.get c (s.ref a) .next = b

/-- A walk along `next` from `heap_ptr` to `heap_end` visits the offsets `os`. -/
structure Heap.Walk (s : Heap) (os : List ℕ) : Prop where
  head : os.head? = some 0
  next : os.IsChain (s.Next c)
  last : os.getLast? = some (s.memSizeAligned + c.sizeofStructMem)
  heapEnd : s.ref (s.memSizeAligned + c.sizeofStructMem) = s.heapEnd

/-- **A well-formed heap**: the headers a walk visits, and the blocks handed out. -/
structure Client.WellFormed (k : Client) (os : List ℕ) : Prop extends k.heap.Walk c os where
  increasing : os.Pairwise (· < ·)
  aligned : ∀ o ∈ os, c.alignSize ∣ o ∧ c.alignSize ∣ k.heap.ref o
  magic : ∀ o ∈ os, k.heap.get c (k.heap.ref o) .magic = heapMagic
  prev : os.IsChain fun a b =>
    k.heap.ref b ≠ k.heap.heapEnd → k.heap.get c (k.heap.ref b) .prev = a
  noAdj : os.IsChain fun a b =>
    k.heap.get c (k.heap.ref a) .used ≠ 0 ∨ k.heap.get c (k.heap.ref b) .used ≠ 0
  /-- a live pointer is the user area of a used block -/
  block : ∀ p ∈ k.live, ∃ o ∈ os, p = k.heap.ref o + c.sizeofStructMem ∧
    k.heap.get c (k.heap.ref o) .used ≠ 0
  inside : ∀ p ∈ k.live, k.heap.heapPtr + c.sizeofStructMem ≤ p ∧ p < k.heap.areaEnd c p ∧
    k.heap.areaEnd c p ≤ k.heap.heapEnd
  disjoint : k.live.Pairwise fun p q => k.heap.areaEnd c p ≤ q ∨ k.heap.areaEnd c q ≤ p

/-- **The lowest-free pointer** of a heap whose walk visits `os`: at an unused block or
at `heap_end`, with no unused block below. -/
structure Heap.LowestFree (s : Heap) (os : List ℕ) : Prop where
  free : s.lfree = s.heapEnd ∨ ∃ o ∈ os, s.lfree = s.ref o ∧ s.get c s.lfree .used = 0
  below : ∀ o ∈ os, s.get c (s.ref o) .used = 0 → s.lfree ≤ s.ref o

/-- `rt_realloc` of a live pointer to `size` cuts its block in place. -/
def Heap.CutsInPlace (s : Heap) (p size : ℕ) : Prop :=
  c.rtAlign size ≠ 0 ∧ c.rtAlign size + c.sizeofStructMem + c.minSize < s.areaEnd c p - p

/-- An `rt_realloc` that cuts a block in place does so with `lfree` below the block, or at
the unused block right behind it. -/
def CutsAbove (k : Client) : Call → Prop
  | .realloc p size => k.heap.CutsInPlace c p size → k.heap.lfree < p - c.sizeofStructMem ∨
      (k.heap.lfree = k.heap.areaEnd c p ∧ k.heap.get c (k.heap.areaEnd c p) .used = 0)
  | _ => True

/-- The states of runs from `rt_system_heap_init` whose calls all satisfy `ok`. -/
abbrev Client.Reach (ok : Client → Call → Prop) : Client → Prop :=
  Run.Reach (Client.Init c) (Client.Step c) ok

/-! ## The bytes of the blocks -/

/-- The user area at `p` ends in `s'` where it did, and holds the same bytes. -/
def Heap.SameArea (s s' : Heap) (p : ℕ) : Prop :=
  s'.areaEnd c p = s.areaEnd c p ∧ ∀ i, p ≤ i → i < s.areaEnd c p → s'.mem i = s.mem i

/-- `p` owns `n` bytes: the user area of its used block is as long, inside the heap and apart from those of
`others`. -/
structure Heap.OwnsBytes (s : Heap) (p n : ℕ) (others : List ℕ) : Prop where
  used : s.get c (p - c.sizeofStructMem) .used ≠ 0
  room : p + n ≤ s.areaEnd c p
  inside : s.heapPtr + c.sizeofStructMem ≤ p ∧ s.areaEnd c p ≤ s.heapEnd
  apart : ∀ q ∈ others, s.areaEnd c p ≤ q ∨ s.areaEnd c q ≤ p

/-! ## Completeness -/

/-- The request that `rt_malloc` makes of a size: aligned, and raised to `MIN_SIZE_ALIGNED`. -/
def Config.wanted (size : ℕ) : ℕ := max (c.rtAlign size) c.minSizeAligned

/-- The block at offset `o` is unused, with a user area of at least `n` bytes. -/
def Heap.Fits (s : Heap) (n o : ℕ) : Prop :=
  s.get c (s.ref o) .used = 0 ∧ o + c.sizeofStructMem + n ≤ s.get c (s.ref o) .next

/-- The block at offset `o` is the last one of the heap, with a user area of `n` bytes. -/
def Heap.FillsLast (s : Heap) (n o : ℕ) : Prop :=
  s.get c (s.ref o) .next = s.memSizeAligned + c.sizeofStructMem ∧
    o + c.sizeofStructMem + n = s.get c (s.ref o) .next

/-- `rt_malloc(size)` returns `NULL` only if no unused block fits; the walk visits `os`. -/
def Heap.Complete (s : Heap) (os : List ℕ) (size : ℕ) : Prop :=
  ∀ s', rtMalloc c s size = some (rtNull, s') → ∀ o ∈ os, ¬s.Fits c (c.wanted size) o

/-- No unused block fits, or one that does is not the last one with no byte to spare; and the size is not 0. -/
def Heap.Findable (s : Heap) (os : List ℕ) (size : ℕ) : Prop :=
  (∀ o ∈ os, ¬s.Fits c (c.wanted size) o) ∨
    size ≠ 0 ∧ ∃ o ∈ os, s.Fits c (c.wanted size) o ∧ ¬s.FillsLast c (c.wanted size) o

/-! ## Accounting -/

/-- The request with which a call gets to `rt_malloc`. -/
def Heap.mallocs (s : Heap) : Call → Option ℕ
  | .malloc size => some size
  | .realloc p size =>
    let newsize := c.rtAlign size
    let k := s.areaEnd c p - p
    if newsize > s.memSizeAligned ∨ newsize = 0 ∨ k = newsize ∨ newsize + c.sizeofStructMem + c.minSize < k
    then none
    else some newsize
  | _ => none

/-- What `used_mem` is after a successful `rt_malloc` of a call. -/
def Heap.reached (s : Heap) (a : Call) : Option ℕ :=
  ((s.mallocs c a).bind (rtMalloc c s)).bind fun r => if r.1 = rtNull then none else some r.2.usedMem

/-- The used bytes that a walk meets: for each used block, the distance from its header to the next one. -/
def Heap.usedBytes (s : Heap) : List ℕ → ℕ
  | a :: b :: os => (if s.get c (s.ref a) .used ≠ 0 then b - a else 0) + s.usedBytes (b :: os)
  | _ => 0

/-- Runs with the values of `used_mem` after each successful `rt_malloc`, the latest one first. -/
abbrev Client.Accounts : Client × List ℕ → Prop :=
  Run.Reach (fun p => Client.Init c p.1 ∧ p.2 = [])
    (Run.Logged (Client.Step c) fun k a _ g => (k.heap.reached c a).toList ++ g) Run.Any

end RtThread.Mem
