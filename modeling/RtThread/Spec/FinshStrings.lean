import RtThread.Spec.FinshHeap

/-!
# The string literals of a line (`finsh_node.c`)

The parser asks for a node for each part of a line, and for a string literal for a copy in the heap as well. Neither the
compiler nor the virtual machine calls a function of the heap: the line runs on what the parser leaves.
-/

namespace RtThread.FinshHeap

open FreeList

def FINSH_NODE_MAX : ℕ := 16

def FINSH_STRING_MAX : ℕ := 128

/-- A string that fits the token. -/
structure Literal where
  text : List UInt8
  noZero : 0 ∉ text
  short : text.length < FINSH_STRING_MAX

/-- What the parser asks for. -/
inductive Item
  /-- a node of another type -/
  | node
  | literal (l : Literal)

/-- A line that is parsed. -/
structure Session where
  heap : State
  /-- The entries of `global_node_table` that are in use. -/
  nodes : ℕ
  /-- `finsh_errno()` is not `FINSH_ERROR_OK`. -/
  error : Bool
  /-- The strings of the nodes. -/
  literals : List (ℕ × List UInt8)

namespace Session

/-- `finsh_node_init`, before a line. -/
def start (heap : State) : Session := ⟨heap, 0, false, []⟩

/-- `finsh_node_allocate`. -/
def finshNodeAllocate (s : Session) : Option Session :=
  if s.nodes < FINSH_NODE_MAX then some { s with nodes := s.nodes + 1 } else none

/-- `finsh_node_new_string`, for variables with these values. It is `none` when it writes through `NULL`, or the heap
fails. -/
def finshNodeNewString (heap : ℕ) (vars : List ℕ) (text : List UInt8) (s : Session) : Option Session :=
  match s.finshNodeAllocate with
  | none => some { s with error := true }
  | some s => do
    let (ptr, h) ← s.heap.finshHeapAllocate heap vars (text.length + 1)
    -- the pointer is not checked
    let ptr ← ptr
    let mem := Bytes.store h.mem ptr text
    let mem := Bytes.store mem (ptr + text.length) [0]
    some { s with heap := { h with mem := mem }, literals := s.literals ++ [(ptr, text)] }

def add (heap : ℕ) (vars : List ℕ) (s : Session) : Item → Option Session
  | .node => some (s.finshNodeAllocate.getD { s with error := true })
  | .literal l => s.finshNodeNewString heap vars l.text

/-- `finsh_parser_run`, as far as it asks for nodes. -/
def parse (heap : ℕ) (vars : List ℕ) (s : Session) (line : List Item) : Option Session :=
  line.foldlM (Session.add heap vars) s

end Session

/-! ## What is promised -/

/-- The texts of a line. -/
def texts (line : List Item) : List (List UInt8) :=
  line.filterMap fun
    | .node => none
    | .literal l => some l.text

/-- Two blocks, by their data, do not overlap. -/
def State.DataApart (s : State) (p q : ℕ) : Prop :=
  p + s.length (p - headerSize) + headerSize ≤ q ∨ q + s.length (q - headerSize) + headerSize ≤ p

instance (s : State) (p q : ℕ) : Decidable (s.DataApart p q) := inferInstanceAs (Decidable (_ ∨ _))

/-- **The strings are alive**: each in a block of its own, with its text. -/
structure Session.Alive (heap : ℕ) (line : List Item) (s : Session) : Prop where
  complete : s.error = false → s.literals.map (·.2) = texts line
  owns : ∀ l ∈ s.literals, s.heap.Owns heap l.1 (l.2.length + 1)
  apart : s.literals.Pairwise fun l k => s.heap.DataApart l.1 k.1
  holds : ∀ l ∈ s.literals, Bytes.load s.heap.mem l.1 (l.2.length + 1) = l.2 ++ [0]

/-- **The blocks that variables point at** are as they were. -/
def State.KeepsReferenced (vars : List ℕ) (s s' : State) : Prop :=
  ∀ header ∈ s.allocated, header + headerSize ∈ vars →
    header ∈ s'.allocated ∧ s'.length header = s.length header ∧
      Bytes.load s'.mem (header + headerSize) (s.length header) =
        Bytes.load s.mem (header + headerSize) (s.length header)

/-- **At every point of a line**, no write through `NULL`, and the strings so far are alive. -/
def State.LineAlive (heap : ℕ) (vars : List ℕ) (s : State) (line : List Item) : Prop :=
  ∀ done ∈ line.inits, ∃ s', (Session.start s).parse heap vars done = some s' ∧ s'.Alive heap done ∧
    s.KeepsReferenced vars s'.heap

/-! ## When they are alive -/

/-- The blocks of a list, headers included. -/
def State.ranges (s : State) (h : Option ℕ) : List Range :=
  (s.blocks rounds h).map fun node => ⟨node, s.length node + headerSize⟩

/-- **Where the literals of a line go.** -/
structure Plan where
  free : List Range
  used : List Range
  nodes : ℕ
  pointers : List ℕ

namespace Plan

def start (s : State) : Plan := ⟨s.ranges s.freeList, s.ranges s.allocateList, 0, []⟩

def put (p : Plan) (size lo : ℕ) (free used : List Range) : Plan :=
  ⟨free, place ⟨lo, headerSize + size⟩ used, p.nodes + 1, p.pointers ++ [lo + headerSize]⟩

/-- First fit; a collection is all right when it spares the literals so far. -/
def add (vars : List ℕ) (p : Plan) : Item → Option Plan
  | .node => some (if p.nodes < FINSH_NODE_MAX then { p with nodes := p.nodes + 1 } else p)
  | .literal l =>
    if p.nodes < FINSH_NODE_MAX then
      let size := heapAlignSize (l.text.length + 1)
      match firstFit size p.free with
      | some (lo, free) => some (p.put size lo free p.used)
      | none =>
        if ∀ ptr ∈ p.pointers, ptr ∈ vars then
          (lastFit size (collect vars p.used p.free)).map fun r => p.put size r.1 r.2 (referenced vars p.used)
        else none
    else some p

end Plan

/-- **The heap is large enough for the line**: first fit places each literal, or else the unreferenced blocks make room
for it and none of them is of the line. -/
def State.Lasts (vars : List ℕ) (s : State) (line : List Item) : Prop :=
  (line.foldlM (Plan.add vars) (Plan.start s)).isSome = true

instance (vars : List ℕ) (s : State) (line : List Item) : Decidable (s.Lasts vars line) :=
  inferInstanceAs (Decidable (_ = _))

end RtThread.FinshHeap
