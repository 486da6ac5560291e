import RtThread.Lib.Chain
import RtThread.Lib.FreeList
import RtThread.Lib.Run

/-!
# The page allocator (`slab.c`)

The heads of the free ranges stand in their first pages, and `rt_page_list` links them. A page is known by its number,
its address divided by `RT_MM_PAGE_SIZE`; the pool ends below the end of the address space, so that no sum wraps.

`heap_sem` makes each call one step. A loop takes at most `rounds` rounds, and yields `none` when that is not enough or
when an `RT_ASSERT` fails.
-/

namespace RtThread.Pages

open FreeList

/-- `rt_page_list`, and the `struct rt_page_head` of each page. -/
structure State where
  pageList : Option ℕ
  next : ℕ → Option ℕ
  page : ℕ → ℕ

/-- What the pointer `prev` of a loop points at. -/
inductive Place
  | pageList
  | next (b : ℕ)
  deriving DecidableEq

namespace State

/-- `*prev`. -/
def deref (s : State) : Place → Option ℕ
  | .pageList => s.pageList
  | .next b => s.next b

/-- `*prev = v`. -/
def assign (s : State) (v : Option ℕ) : Place → State
  | .pageList => { s with pageList := v }
  | .next b => { s with next := Function.update s.next b v }

def setNext (s : State) (b : ℕ) (v : Option ℕ) : State := s.assign v (.next b)

def setPage (s : State) (b n : ℕ) : State := { s with page := Function.update s.page b n }

/-- The loop of `rt_page_alloc`. -/
def allocLoop (npages : ℕ) : ℕ → Place → State → Option (Option ℕ × State)
  | 0, _, _ => none
  | rounds + 1, prev, s =>
    match s.deref prev with
    | none => some (none, s)
    | some b =>
      if s.page b > npages then
        -- split the pages
        let n := b + npages
        let s := s.setNext n (s.next b)
        let s := s.setPage n (s.page b - npages)
        some (some b, s.assign (some n) prev)
      else if s.page b = npages then some (some b, s.assign (s.next b) prev)
      else allocLoop npages rounds (.next b) s

def rtPageAlloc (s : State) (rounds npages : ℕ) : Option (Option ℕ × State) :=
  if npages = 0 then some (none, s) else allocLoop npages rounds .pageList s

/-- The end of `rt_page_free`: a head of its own. -/
def linkIn (s : State) (n npages : ℕ) (b : Option ℕ) (prev : Place) : State :=
  ((s.setPage n npages).setNext n b).assign (some n) prev

/-- The merge with a left neighbour, and with the range behind it. -/
def mergeLeft (s : State) (b npages : ℕ) : State :=
  let s := s.setPage b (s.page b + npages)
  match s.next b with
  | some c => if b + s.page b = c then (s.setPage b (s.page b + s.page c)).setNext b (s.next c) else s
  | none => s

/-- The loop of `rt_page_free`. -/
def freeLoop (n npages : ℕ) : ℕ → Place → State → Option State
  | 0, _, _ => none
  | rounds + 1, prev, s =>
    match s.deref prev with
    | none => some (s.linkIn n npages none prev)
    | some b =>
      if s.page b > 0 ∧ (b > n ∨ b + s.page b ≤ n) then
        if b + s.page b = n then some (s.mergeLeft b npages)
        else if b = n + npages then
          some (((s.setPage n (s.page b + npages)).setNext n (s.next b)).assign (some n) prev)
        else if b > n + npages then some (s.linkIn n npages (some b) prev)
        else freeLoop n npages rounds (.next b) s
      else none

def rtPageFree (s : State) (rounds n npages : ℕ) : Option State :=
  if n ≠ 0 ∧ npages ≠ 0 then freeLoop n npages rounds .pageList s else none

def rtPageInit (s : State) (rounds n npages : ℕ) : Option State :=
  if n ≠ 0 ∧ npages ≠ 0 then rtPageFree { s with pageList := none } rounds n npages else none

end State

/-! ## Programs -/

/-- The allocator, and the ranges that are allocated. -/
structure Heap where
  pages : State
  live : List Range

inductive Act
  | alloc (npages : ℕ)
  | free (r : Range)
  /-- a program writes where a head would stand -/
  | write (b : ℕ) (next : Option ℕ) (page : ℕ)

/-- A walk sees at most one head for each page of the pool, and then the end of the list. -/
def rounds (pool : Range) : ℕ := pool.len + 1

def Heap.step (pool : Range) (h : Heap) : Act → Option Heap
  | .alloc npages => do
    let (b, s) ← h.pages.rtPageAlloc (rounds pool) npages
    match b with
    | none => some ⟨s, h.live⟩
    | some b => some ⟨s, ⟨b, npages⟩ :: h.live⟩
  | .free r => do
    let s ← h.pages.rtPageFree (rounds pool) r.lo r.len
    some ⟨s, without h.live r⟩
  | .write b next page => some ⟨(h.pages.setNext b next).setPage b page, h.live⟩

/-- `rt_page_init` has been given the pool. -/
def Heap.Init (pool : Range) (h : Heap) : Prop :=
  h.live = [] ∧ ∃ s : State, s.rtPageInit (rounds pool) pool.lo pool.len = some h.pages

/-- Each page that is given back, or written to, is allocated. -/
def Heap.Promised (h : Heap) : Act → Prop
  | .alloc _ => True
  | .free r => 0 < r.len ∧ ∀ p < r.hi, r.lo ≤ p → 0 < cover p h.live
  | .write b _ _ => 0 < cover b h.live

instance (h : Heap) : (a : Act) → Decidable (h.Promised a)
  | .alloc _ => isTrue trivial
  | .free r => inferInstanceAs (Decidable (0 < r.len ∧ ∀ p < r.hi, r.lo ≤ p → 0 < cover p h.live))
  | .write b _ _ => inferInstanceAs (Decidable (0 < cover b h.live))

/-- The list has these ranges. -/
structure State.Lists (s : State) (l : List Range) : Prop where
  chain : Chain s.next s.pageList (l.map (·.lo))
  page : ∀ r ∈ l, s.page r.lo = r.len

/-- **The free ranges are ordered and apart, and with the allocations they are the pages of the pool.** -/
def Heap.WellFormed (pool : Range) (h : Heap) : Prop :=
  ∃ l, h.pages.Lists l ∧ Coalesced l ∧ Partition pool (l ++ h.live)

/-- A request is refused only when no free range has as many pages. -/
def State.ServesAll (s : State) (rounds npages : ℕ) : Prop :=
  ∀ l, s.Lists l → (∃ s', s.rtPageAlloc rounds npages = some (none, s')) → ∀ r ∈ l, r.len < npages

end RtThread.Pages
