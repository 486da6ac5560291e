import RtThread.Lib.Bytes
import RtThread.Lib.Chain
import RtThread.Lib.FreeList
import RtThread.Lib.Run
import RtThread.Lib.Word

/-!
# The heap of FinSH (`finsh_heap.c`)

`finsh_heap` is an array of `FINSH_HEAP_MAX` bytes at the address `heap`. A block is a header, its length and a link,
and the bytes behind it; `free_list` and `allocate_list` link the blocks.

A loop takes at most `rounds` rounds. A function is `none` when that is not enough, when it follows `NULL`, or when
`memset` leaves the array.
-/

namespace RtThread.FinshHeap

open FreeList

def FINSH_HEAP_MAX : ℕ := 128

/-- `sizeof(struct finsh_block_header)`. -/
def headerSize : ℕ := 8

/-- More than there can be blocks. -/
def rounds : ℕ := FINSH_HEAP_MAX + 1

/-- A sum of `size_t`. -/
def wrap (n : ℕ) : ℕ := n % 2 ^ 32

/-- `HEAP_ALIGN_SIZE`. -/
def heapAlignSize (size : ℕ) : ℕ := Word.alignUp 32 2 size

inductive Which
  | free
  | allocate
  deriving DecidableEq

structure State where
  freeList : Option ℕ
  allocateList : Option ℕ
  mem : Bytes.Mem

namespace State

/-- `*list`. -/
def list (s : State) : Which → Option ℕ
  | .free => s.freeList
  | .allocate => s.allocateList

def setList (s : State) (v : Option ℕ) : Which → State
  | .free => { s with freeList := v }
  | .allocate => { s with allocateList := v }

/-- `header->length`. -/
def length (s : State) (header : ℕ) : ℕ := Bytes.readLE s.mem header 4

/-- `header->next`. -/
def next (s : State) (header : ℕ) : Option ℕ :=
  let p := Bytes.readLE s.mem (header + 4) 4
  if p = 0 then none else some p

def setLength (s : State) (header n : ℕ) : State := { s with mem := Bytes.writeLE s.mem header 4 n }

def setNext (s : State) (header : ℕ) (v : Option ℕ) : State :=
  { s with mem := Bytes.writeLE s.mem (header + 4) 4 (v.getD 0) }

/-- `memset(data, 0, size)`. -/
def clear (s : State) (heap data size : ℕ) : Option State :=
  if data + size ≤ heap + FINSH_HEAP_MAX then
    some { s with mem := fun i => if data ≤ i ∧ i < data + size then 0 else s.mem i }
  else none

/-- A loop along a list, to the first block at which it stops. -/
def walk (s : State) (stop : ℕ → Bool) : ℕ → Option ℕ → Option (Option ℕ)
  | 0, _ => none
  | _ + 1, none => some none
  | rounds + 1, some node => if stop node then some (some node) else s.walk stop rounds (s.next node)

/-- Where `finsh_block_insert` breaks. -/
def isInsertPoint (s : State) (header node : ℕ) : Bool :=
  match s.next node with
  | some next => next > header
  | none => true

def finshBlockInsert (s : State) (which : Which) (header : ℕ) : Option State :=
  match s.list which with
  | none => some (s.setList (some header) which)
  | some node =>
    if node > header then some ((s.setNext header (some node)).setList (some header) which)
    else do
      let found ← s.walk (s.isInsertPoint header) rounds (some node)
      let node ← found
      let s := if s.next node ≠ none then s.setNext header (s.next node) else s
      some (s.setNext node (some header))

/-- The block in front of `header`. -/
def previous (s : State) (which : Which) (header : ℕ) : Option (Option ℕ) :=
  s.walk (fun node => s.next node == some header) rounds (s.list which)

def finshBlockRemove (s : State) (which : Which) (header : ℕ) : Option State :=
  if s.list which = some header then some ((s.setList (s.next header) which).setNext header none)
  else do
    let found ← s.previous which header
    match found with
    | some node => some (s.setNext node (s.next header))
    | none => some s

def finshBlockSplit (s : State) (header size : ℕ) : State :=
  let next := wrap (header + headerSize + size)
  let s := s.setLength next (Word.wsub 32 (Word.wsub 32 (s.length header) headerSize) size)
  let s := s.setLength header size
  let s := s.setNext next (s.next header)
  s.setNext header (some next)

/-- The first block ends where the second begins. -/
def meets (s : State) (a b : Option ℕ) : Bool :=
  match a, b with
  | some a, some b => a + s.length a + headerSize == b
  | _, _ => false

/-- The merge of two blocks. -/
def join (s : State) (a b : ℕ) : State :=
  (s.setLength a (wrap (s.length a + (s.length b + headerSize)))).setNext a (s.next b)

/-- `prev_node` of `finsh_block_merge`. -/
def prevNode (s : State) (which : Which) (header : ℕ) : Option (Option ℕ) :=
  if s.list which = some header then some none else s.previous which header

def finshBlockMerge (s : State) (which : Which) (header : ℕ) : Option State := do
  let nextNode := s.next header
  let prevNode ← s.prevNode which header
  match prevNode, nextNode, s.meets prevNode (some header), s.meets (some header) nextNode with
  | some prevNode, some nextNode, true, true =>
    -- merge three nodes
    let s := s.setLength prevNode
      (wrap (s.length prevNode + (s.length header + s.length nextNode + 2 * headerSize)))
    some (s.setNext prevNode (s.next nextNode))
  | some prevNode, _, true, _ => some (s.join prevNode header)
  | _, some nextNode, _, true => some (s.join header nextNode)
  | _, _, _, _ => some s

def finshHeapFree (s : State) (ptr : ℕ) : Option State := do
  let header := Word.wsub 32 ptr headerSize
  let s ← s.finshBlockRemove .allocate header
  let s ← s.finshBlockInsert .free header
  s.finshBlockMerge .free header

/-- The loop of `finsh_heap_gc`. The pointers are the values of the variables. -/
def gcLoop (vars : List ℕ) : ℕ → Option ℕ → State → Option State
  | 0, _, _ => none
  | _ + 1, none, s => some s
  | rounds + 1, some header, s =>
    let following := s.next header
    if header + headerSize ∈ vars then gcLoop vars rounds following s
    else do
      let s ← s.finshHeapFree (header + headerSize)
      gcLoop vars rounds following s

def finshHeapGc (s : State) (vars : List ℕ) : Option State := gcLoop vars rounds s.allocateList s

/-- What `finsh_heap_allocate` does with the block that it has found. -/
def take (s : State) (heap header size : ℕ) : Option (ℕ × State) := do
  let s := s.finshBlockSplit header size
  let s ← s.finshBlockRemove .free header
  let s := s.setNext header none
  let s ← s.finshBlockInsert .allocate header
  let s ← s.clear heap (header + headerSize) size
  some (header + headerSize, s)

/-- The second search of `finsh_heap_allocate`, behind the collection. -/
def allocateAgain (s : State) (heap size : ℕ) : Option (Option ℕ × State) := do
  let found ← s.walk (fun node => !(s.length node < wrap (size + headerSize))) rounds s.freeList
  match found with
  | none => some (none, s)
  | some header => do
    let (ptr, s) ← s.take heap header size
    some (some ptr, s)

def finshHeapAllocate (s : State) (heap : ℕ) (vars : List ℕ) (size : ℕ) : Option (Option ℕ × State) := do
  let size := heapAlignSize size
  let found ← s.walk (fun node => !(s.length node ≤ wrap (size + headerSize))) rounds s.freeList
  match found with
  | none => do
    let s ← s.finshHeapGc vars
    s.allocateAgain heap size
  | some header => do
    let (ptr, s) ← s.take heap header size
    some (some ptr, s)

def finshHeapInit (s : State) (heap : ℕ) : State :=
  let s : State := { s with mem := fun i => if heap ≤ i ∧ i < heap + FINSH_HEAP_MAX then 0 else s.mem i }
  let s := { s with freeList := some heap }
  let s := s.setLength heap (FINSH_HEAP_MAX - headerSize)
  let s := s.setNext heap none
  { s with allocateList := none }

end State

/-! ## First fit on lists of ranges -/

/-- The blocks that a collection leaves. -/
def referenced (vars : List ℕ) (used : List Range) : List Range := used.filter fun r => r.lo + headerSize ∈ vars

/-- The free blocks behind a collection. -/
def collect (vars : List ℕ) : List Range → List Range → List Range
  | [], free => free
  | r :: used, free => collect vars used (if r.lo + headerSize ∈ vars then free else FreeList.insert r free)

/-- The free block that the first search takes, for a size that is aligned, and what remains free. -/
def firstFit (size : ℕ) (free : List Range) : Option (ℕ × List Range) :=
  takeFirst (fun b => 2 * headerSize + size < b.len) (headerSize + size) free

/-- The second search takes an exact fit as well. -/
def lastFit (size : ℕ) (free : List Range) : Option (ℕ × List Range) :=
  takeFirst (fun b => 2 * headerSize + size ≤ b.len) (headerSize + size) free

/-! ## What is promised -/

namespace State

/-- The blocks of a list. -/
def blocks (s : State) : ℕ → Option ℕ → List ℕ
  | 0, _ | _ + 1, none => []
  | rounds + 1, some node => node :: s.blocks rounds (s.next node)

/-- The blocks of `allocate_list`. -/
def allocated (s : State) : List ℕ := s.blocks rounds s.allocateList

/-- The list from `h` on has these blocks, headers included. -/
structure Lists (s : State) (h : Option ℕ) (l : List Range) : Prop where
  chain : Chain s.next h (l.map (·.lo))
  length : ∀ r ∈ l, s.length r.lo + headerSize = r.len

/-- **The heap is well-formed**: the lists are in order, no two free blocks meet, and the blocks tile the array. -/
def WellFormed (heap : ℕ) (s : State) : Prop :=
  ∃ free used, s.Lists s.freeList free ∧ s.Lists s.allocateList used ∧ Coalesced free ∧
    used.Pairwise (fun r t => r.hi ≤ t.lo) ∧ (∀ r ∈ used, 0 < r.len) ∧ Partition ⟨heap, FINSH_HEAP_MAX⟩ (free ++ used)

/-- A pointer owns `size` bytes of the array. -/
def Owns (heap : ℕ) (s : State) (ptr size : ℕ) : Prop :=
  ∃ header ∈ s.allocated, ptr = header + headerSize ∧ size ≤ s.length header ∧ heap ≤ header ∧
    ptr + s.length header ≤ heap + FINSH_HEAP_MAX

instance (heap : ℕ) (s : State) (ptr size : ℕ) : Decidable (s.Owns heap ptr size) := by
  unfold Owns
  infer_instance

end State

/-- What programs do. -/
inductive Act
  /-- the values of the variables, and the size -/
  | allocate (vars : List ℕ) (size : ℕ)
  | free (ptr : ℕ)
  /-- a byte of a block -/
  | write (i : ℕ) (v : UInt8)

def State.step (heap : ℕ) (s : State) : Act → Option State
  | .allocate vars size => (s.finshHeapAllocate heap vars size).map (·.2)
  | .free ptr => s.finshHeapFree ptr
  | .write i v => some { s with mem := Function.update s.mem i v }

def State.Init (heap : ℕ) (s : State) : Prop := ∃ s₀ : State, s = s₀.finshHeapInit heap

/-- Programs free, and write to, what is allocated. -/
def State.Promised (s : State) : Act → Prop
  | .allocate _ size => size < 2 ^ 32
  | .free ptr => ∃ header ∈ s.allocated, ptr = header + headerSize
  | .write i _ => ∃ header ∈ s.allocated, header + headerSize ≤ i ∧ i < header + headerSize + s.length header

instance (s : State) : (a : Act) → Decidable (s.Promised a)
  | .allocate _ size => inferInstanceAs (Decidable (size < 2 ^ 32))
  | .free ptr => inferInstanceAs (Decidable (∃ header ∈ s.allocated, ptr = header + headerSize))
  | .write i _ => inferInstanceAs (Decidable (∃ header ∈ s.allocated, header + headerSize ≤ i ∧
      i < header + headerSize + s.length header))

/-- The size, aligned, and the header are less than the address space. -/
def State.Fits (s : State) (a : Act) : Prop :=
  s.Promised a ∧
    match a with
    | .allocate _ size => size + headerSize + 4 ≤ 2 ^ 32
    | _ => True

instance (s : State) : (a : Act) → Decidable (s.Fits a)
  | .allocate vars size => inferInstanceAs (Decidable (s.Promised (.allocate vars size) ∧ size + headerSize + 4 ≤ 2 ^ 32))
  | .free ptr => inferInstanceAs (Decidable (s.Promised (.free ptr) ∧ True))
  | .write i v => inferInstanceAs (Decidable (s.Promised (.write i v) ∧ True))

end RtThread.FinshHeap
