import RtThread.Spec.Mem

/-!
# Aligned allocation (`kservice.c`)

`rt_malloc_align` and `rt_free_align` on the heap of `mem.c`. The word below an aligned pointer holds the pointer that
`rt_malloc` returned.
-/

namespace RtThread.Mem

open Bytes

namespace Config

variable (c : Config)

/-- `sizeof(void *)` is `2 ^ wordLog`. -/
def wordLog : ℕ := if c.arch64 then 3 else 2

/-- `sizeof(void *)`. -/
def word : ℕ := 2 ^ c.wordLog

/-- `(n + uintptr_size) & ~uintptr_size`. -/
def wordAlign (n : ℕ) : ℕ := Word.alignUp c.bits c.wordLog n

/-- `align_size`, the request to `rt_malloc`. -/
def alignRequest (size align : ℕ) : ℕ := (c.wordAlign size + c.wordAlign align) % 2 ^ c.bits

/-- `align_ptr`, behind the pointer `ptr`. -/
def alignPtr (ptr align : ℕ) : ℕ :=
  let mask := BitVec.ofNat c.bits align - 1#c.bits
  if BitVec.ofNat c.bits ptr &&& mask = 0 then (BitVec.ofNat c.bits ptr + BitVec.ofNat c.bits align).toNat
  else ((BitVec.ofNat c.bits ptr + mask) &&& ~~~mask).toNat

end Config

variable (c : Config)

def rtMallocAlign (s : Heap) (size align : ℕ) : Option (ℕ × Heap) := do
  let (ptr, s) ← rtMalloc c s (c.alignRequest size align)
  if ptr ≠ rtNull then
    let alignPtr := c.alignPtr ptr (c.wordAlign align)
    -- the word below the aligned pointer is set to the real one
    return (alignPtr, { s with mem := writeLE s.mem (c.sub alignPtr c.word) c.word ptr })
  else return (ptr, s)

def rtFreeAlign (s : Heap) (ptr : ℕ) : Option Heap := rtFree c s (readLE s.mem (c.sub ptr c.word) c.word)

/-! ## Programs that use aligned blocks -/

/-- A call that leaves the block at `ptr` allocated, and writes there only to the `size` bytes from `p` on. -/
def KeepsAligned (ptr p size : ℕ) (k : Client) : Call → Prop
  | .free q => q ≠ ptr
  | .realloc q _ => q ≠ ptr
  | .write m => ∀ i, ptr ≤ i → i < k.heap.areaEnd c ptr → m i ≠ k.heap.mem i → p ≤ i ∧ i < p + size
  | .malloc _ => True

/-- **An aligned block**: `p` is a multiple of `align`; the word below it and the `size` bytes from it on lie in the
user area at `ptr`; and as long as the program writes only to these bytes, `rt_free_align(p)` is `rt_free(ptr)`. -/
structure AlignedBlock (k : Client) (ptr p size align : ℕ) : Prop where
  aligned : align ∣ p
  word : ptr + c.word ≤ p
  inside : p + size ≤ k.heap.areaEnd c ptr
  freed : ∀ k', Run.Reach (fun k₀ => k₀ = k) (Client.Step c) (KeepsAligned c ptr p size) k' →
    ptr ∈ k'.live ∧ rtFreeAlign c k'.heap p = rtFree c k'.heap ptr

end RtThread.Mem
