import RtThread.Lib.Chain
import RtThread.Spec.Mem

/-!
# The blocks of a memory pool (`mempool.c`)

What `rt_mp_init`, `rt_mp_alloc` and `rt_mp_free` do to the memory of a pool. `Spec/Ipc.lean` has who waits
for a block; here a call that finds none changes nothing.

Each call runs its part with interrupts off, so it is one step. It yields the words it stores, as addresses
with values. `none` is a failed `RT_ASSERT`, a division by zero, or a block of another pool.
-/

namespace RtThread.MemPool

open Bytes Mem

/-- Words that a call stores, at their addresses. -/
abbrev Stores := List (ℕ × ℕ)

/-- `struct rt_mempool`. -/
structure Mempool where
  startAddress : ℕ
  size : ℕ
  blockSize : ℕ
  blockList : ℕ
  blockTotalCount : ℕ
  blockFreeCount : ℕ
  deriving DecidableEq

variable (c : Config)

/-- `sizeof(rt_uint8_t *)`. -/
def ptrSize : ℕ := if c.arch64 then 8 else 4

/-- A sum or product in `rt_size_t`. -/
def wrap (n : ℕ) : ℕ := n % 2 ^ c.bits

/-- The pointer at an address. -/
def load (m : Bytes.Mem) (a : ℕ) : ℕ := readLE m a (ptrSize c)

/-- The memory behind some stores. -/
def storeAll (m : Bytes.Mem) (l : Stores) : Bytes.Mem :=
  l.foldl (fun m st => writeLE m st.1 (ptrSize c) st.2) m

/-- The loop of `rt_mp_init`, its first `n` rounds. -/
def linkBlocks (blockPtr step : ℕ) : ℕ → Stores
  | 0 => []
  | offset + 1 => linkBlocks blockPtr step offset ++
      [(wrap c (blockPtr + wrap c (offset * step)), wrap c (blockPtr + wrap c ((offset + 1) * step)))]

def rtMpInit (start size blockSize : ℕ) : Option (Mempool × Stores) :=
  let size := c.rtAlignDown size
  let blockSize := c.rtAlign blockSize
  let step := wrap c (blockSize + ptrSize c)
  if step = 0 then none else
  let count := size / step
  some (⟨start, size, blockSize, start, count, count⟩,
    linkBlocks c start step count ++ [(wrap c (start + wrap c (c.sub count 1 * step)), rtNull)])

/-- `rt_mp_alloc` of the pool at `mp`, at the head of its loop; `RT_NULL` is "there is no block". -/
def rtMpAlloc (m : Bytes.Mem) (mp : ℕ) (s : Mempool) : Option (ℕ × Mempool × Stores) :=
  if s.blockFreeCount = 0 then some (rtNull, s, []) else do
  guard (s.blockList ≠ rtNull)
  return (wrap c (s.blockList + ptrSize c),
    { s with
      blockFreeCount := s.blockFreeCount - 1
      blockList := load c m s.blockList },
    [(s.blockList, mp)])

/-- `rt_mp_free` of a block whose header names the pool at `mp`. -/
def rtMpFree (m : Bytes.Mem) (mp : ℕ) (s : Mempool) (block : ℕ) : Option (Mempool × Stores) := do
  let blockPtr := c.sub block (ptrSize c)
  guard (load c m blockPtr = mp)
  return ({ s with
      blockFreeCount := wrap c (s.blockFreeCount + 1)
      blockList := blockPtr },
    [(blockPtr, s.blockList)])

/-! ## Programs that use the pool -/

/-- What `rt_mp_init` is called with: a control block at `mp`, and a buffer of `size` bytes at `start`. -/
structure Args where
  mp : ℕ
  start : ℕ
  size : ℕ
  blockSize : ℕ
  mp_lt : mp < 2 ^ c.bits
  start_pos : start ≠ rtNull
  bound : start + size < 2 ^ c.bits
  blockSize_lt : blockSize < 2 ^ c.bits

/-- A pool with the blocks that callers hold, and all the words that the calls have stored. -/
structure Client where
  mem : Bytes.Mem
  pool : Mempool
  held : List ℕ
  stores : Stores

inductive Call
  | alloc
  | free (block : ℕ)
  /-- the callers write to their blocks -/
  | write (m : Bytes.Mem)

variable {c}

/-- One call. `rt_mp_free` is applied to held blocks only. -/
inductive Client.Step (g : Args c) : Client → Call → Client → Prop
  | alloc {k : Client} {block : ℕ} {pool : Mempool} {stores : Stores} :
      rtMpAlloc c k.mem g.mp k.pool = some (block, pool, stores) →
      Step g k .alloc ⟨storeAll c k.mem stores, pool,
        if block = rtNull then k.held else block :: k.held, k.stores ++ stores⟩
  | free {k : Client} {block : ℕ} {pool : Mempool} {stores : Stores} : block ∈ k.held →
      rtMpFree c k.mem g.mp k.pool block = some (pool, stores) →
      Step g k (.free block) ⟨storeAll c k.mem stores, pool, k.held.erase block, k.stores ++ stores⟩
  | write {k : Client} {m : Bytes.Mem} :
      (∀ i, m i ≠ k.mem i → ∃ p ∈ k.held, p ≤ i ∧ i < p + k.pool.blockSize) →
      Step g k (.write m) { k with mem := m }

/-- `rt_mp_init` has returned, from any memory. -/
def Client.Init (g : Args c) (k : Client) : Prop :=
  ∃ m, rtMpInit c g.start g.size g.blockSize = some (k.pool, k.stores) ∧
    k.mem = storeAll c m k.stores ∧ k.held = []

abbrev Runs (g : Args c) : Client → Prop := Run.Reach (Client.Init g) (Client.Step g) Run.Any

/-- The blocks of a pool, by the addresses of their headers. -/
def Mempool.blocks (c : Config) (s : Mempool) : List ℕ :=
  (List.range s.blockTotalCount).map fun i => s.startAddress + i * (s.blockSize + ptrSize c)

/-- A pointer that is not `RT_NULL`. -/
def target (p : ℕ) : Option ℕ := if p = rtNull then none else some p

/-- The free list of a pool has the blocks `l`. -/
def FreeList (c : Config) (k : Client) (l : List ℕ) : Prop :=
  Chain (fun a => target (load c k.mem a)) (target k.pool.blockList) l

/-- **A well-formed pool**: its blocks, free and held, and where the calls have stored. -/
structure Client.WellFormed (g : Args c) (k : Client) : Prop where
  free : ∃ l, FreeList c k l ∧ l.length = k.pool.blockFreeCount ∧ l.Nodup ∧
    (l ++ k.held.map (· - ptrSize c)).Perm (k.pool.blocks c)
  distinct : (k.pool.blocks c).Nodup
  size : g.blockSize ≤ k.pool.blockSize
  inside : ∀ a ∈ k.pool.blocks c, g.start ≤ a ∧ a + ptrSize c + k.pool.blockSize ≤ g.start + g.size
  disjoint : (k.pool.blocks c).Pairwise fun a b => a + ptrSize c + k.pool.blockSize ≤ b
  /-- the header of a held block names the pool -/
  owner : ∀ p ∈ k.held, load c k.mem (p - ptrSize c) = g.mp
  stores : ∀ x ∈ k.stores, g.start ≤ x.1 ∧ x.1 + ptrSize c ≤ g.start + g.size

/-- **The buffer has room for a block**: `block_size` rounded up, with its header. -/
def Args.Roomy (g : Args c) : Prop :=
  (g.blockSize + c.alignSize - 1) / c.alignSize * c.alignSize + ptrSize c ≤ c.rtAlignDown g.size

end RtThread.MemPool
