import RtThread.Lib.Chain
import RtThread.Spec.Kernel

/-!
# `rt_signal_wait` (`signal.c`)

The queued signals of a thread, with the pointers between them: `si_list` points to a record `struct siginfo_node`,
the link of a record points to the link of the next one, 8 bytes behind its start. `rt_slist_entry` goes from a link to
its record. The memory is words of 32 bits, little-endian; pointers are 32 bits.

The function runs with interrupts disabled wherever it looks at the signals. `rt_mp_free` finds no thread that waits
for a block: `rt_thread_kill` never waits for one.
-/

namespace RtThread.SignalWait

open Sched (Err)
open Ipc (sigMask)

/-- `siginfo_t`. -/
structure Siginfo where
  siSigno : BitVec 16
  siCode : BitVec 16
  siValue : BitVec 32
  deriving DecidableEq

/-- What `rt_signal_wait` uses of the thread and of `_rt_siginfo_pool`. -/
structure State where
  mem : BitVec 32 → BitVec 32
  siList : BitVec 32
  sigPending : BitVec 32
  error : Err
  /-- `RT_THREAD_STAT_SIGNAL_WAIT` -/
  signalWait : Bool
  blockList : BitVec 32
  blockFreeCount : ℕ

/-- What a call does: it returns, having written `si`, or it suspends the thread, with a timer. -/
inductive Outcome
  | returns (ret : Err) (si : Option Siginfo) (s : State)
  | suspends (timer : Option (BitVec 32)) (s : State)

/-- `rt_slist_entry(node, struct siginfo_node, list)`. -/
def slistEntry (node : BitVec 32) : BitVec 32 := node - 8

namespace State

variable (s : State)

/-- The `si` of a record. -/
def siginfo (r : BitVec 32) : Siginfo := ⟨(s.mem r).setWidth 16, (s.mem r >>> 16).setWidth 16, s.mem (r + 4)⟩

/-- The `list.next` of a record. -/
def listNext (r : BitVec 32) : BitVec 32 := s.mem (r + 8)

def setListNext (r p : BitVec 32) : State := { s with mem := Function.update s.mem (r + 8) p }

/-- `rt_mp_free(block)`; the word in front of the block links the free ones. -/
def mpFree (block : BitVec 32) : State :=
  { s with
    mem := Function.update s.mem (block - 4) s.blockList
    blockList := block - 4
    blockFreeCount := s.blockFreeCount + 1 }

end State

/-- The loop at `__done`, and what it puts in `si`; `none` where it is not done after so many rounds. -/
def waitLoop (set : BitVec 32) : ℕ → BitVec 32 → BitVec 32 → State → Option (Option Siginfo × State)
  | 0, _, _, _ => none
  | n + 1, siPrev, siNode, s =>
    if siNode = 0 then some (none, s)
    else
      let si := s.siginfo siNode
      if sigMask si.siSigno.toNat &&& set ≠ 0 then
        let s := if siPrev ≠ 0 then s.setListNext siPrev (s.listNext siNode)
          else { s with siList := s.listNext siNode }
        let s := { s with sigPending := s.sigPending &&& ~~~(sigMask si.siSigno.toNat) }
        some (some si, s.mpFree siNode)
      else waitLoop set n siNode (slistEntry (s.listNext siNode)) s

/-- `memset(si, 0x0, sizeof(rt_siginfo_t))`. -/
def clearedSi : Siginfo := ⟨0, 0, 0⟩

/-- `__done`. -/
def done (fuel : ℕ) (set : BitVec 32) (s : State) : Option Outcome :=
  (waitLoop set fuel 0 s.siList s).map fun (si, s) => .returns .eok (some (si.getD clearedSi)) s

/-- `rt_signal_wait`, to where it returns or suspends the thread; `set` is `none` for `NULL`, `hasSi` says that `si`
is not `NULL`. -/
def rtSignalWait (fuel : ℕ) (s : State) (set : Option (BitVec 32)) (hasSi : Bool) (timeout : BitVec 32) :
    Option Outcome :=
  match set with
  | none => some (.returns .einval none s)
  | some set =>
    if set = 0 ∨ hasSi = false then some (.returns .einval none s)
    else if s.sigPending &&& set ≠ 0 then done fuel set s
    else if timeout = 0 then some (.returns .etimeout (some clearedSi) s)
    else some (.suspends (if timeout = -1 then none else some timeout) { s with signalWait := true })

/-- `rt_signal_wait`, from where the thread runs again. -/
def resumed (fuel : ℕ) (s : State) (set : BitVec 32) : Option Outcome :=
  let s := { s with signalWait := false }
  if s.error = .etimeout then some (.returns .etimeout (some clearedSi) { s with error := .eok })
  else done fuel set s

/-! ## The queue -/

/-- The record that a pointer to a record means. -/
def record (p : BitVec 32) : Option (BitVec 32) := if p = 0 then none else some p

/-- The record behind another. -/
def State.after (s : State) (r : BitVec 32) : Option (BitVec 32) :=
  if s.listNext r = 0 then none else some (slistEntry (s.listNext r))

/-- Two blocks of the pool, with the words in front of them, do not meet. -/
def Apart (x y : BitVec 32) : Prop := ∀ i ∈ [-4#32, 0#32, 4#32, 8#32], ∀ j ∈ [-4#32, 0#32, 4#32, 8#32], x + i ≠ y + j

-- not by going through all words of 32 bits
instance (x y : BitVec 32) : Decidable (Apart x y) :=
  letI : DecidablePred fun i => ∀ j ∈ [-4#32, 0#32, 4#32, 8#32], x + i ≠ y + j := fun _ => List.decidableBAll _ _
  List.decidableBAll _ _

/-- The records `rs` are queued: `si_list` leads to the first one, the links to the others. -/
structure Queued (s : State) (rs : List (BitVec 32)) : Prop where
  linked : Chain s.after (record s.siList) rs
  nonNull : ∀ r ∈ rs, r ≠ 0
  apart : rs.Pairwise Apart

/-- The signal of a record is in the set. -/
def State.Matches (s : State) (set r : BitVec 32) : Prop := sigMask (s.siginfo r).siSigno.toNat &&& set ≠ 0

instance (s : State) (set r : BitVec 32) : Decidable (s.Matches set r) := inferInstanceAs (Decidable (_ ≠ _))

/-- `rt_signal_wait` returns the first queued signal of the set, and removes its record and its pending bit: the other
records are queued as before. -/
def TakesFirst (s : State) (set timeout : BitVec 32) (rs : List (BitVec 32)) : Prop :=
  ∃ l x r, rs = l ++ x :: r ∧ (∀ y ∈ l, ¬s.Matches set y) ∧ s.Matches set x ∧
    ∃ fuel s', rtSignalWait fuel s (some set) true timeout = some (.returns .eok (some (s.siginfo x)) s') ∧
      Queued s' (l ++ r) ∧ (∀ y ∈ l ++ r, s'.siginfo y = s.siginfo y) ∧
      s'.sigPending = s.sigPending &&& ~~~(sigMask (s.siginfo x).siSigno.toNat)

end RtThread.SignalWait
