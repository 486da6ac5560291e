import RtThread.Lib.Run
import Mathlib.Data.Fintype.Card
import Mathlib.Data.Int.Notation

/-!
# File descriptors (`dfs.c`, `dfs_posix.c`)

The threads `T` call `open`, `close`, `read`, `write` and `lseek` on any numbers. `fd_new`, `fd_get` and `fd_put` hold
the lock of the file systems, and are one step each; between them a call is in a function of `dfs_file.c`, and what
that returns is part of the step that ends it.

A `struct dfs_fd` is the number of the `rt_calloc` that it came from. A step that reads memory that has been freed, or
fails an `RT_ASSERT`, is `none`.
-/

namespace RtThread.DfsFd

/-- `DFS_FD_MAX`, and what `libc_stdio_get_console` returns. -/
structure Config where
  fdMax : ℕ
  console : ℤ

def DFS_FD_OFFSET : ℤ := 3

def DFS_FD_MAGIC : BitVec 16 := 0xfdfd

/-- `struct dfs_fd`. -/
structure Fd where
  magic : BitVec 16
  refCount : ℤ
  deriving DecidableEq

/-- `struct dfs_fdtable`, with the memory of its entries. -/
structure Table where
  fds : List (Option ℕ)
  mem : ℕ → Option Fd
  next : ℕ

namespace Table

variable (cfg : Config) (tab : Table)

/-- `fdt->maxfd`. -/
def maxfd : ℕ := tab.fds.length

/-- An empty entry: there is none, or its `ref_count` is zero. -/
def empty : Option ℕ → Bool
  | none => true
  | some d => (tab.mem d).any (·.refCount = 0)

/-- The last part of `fd_alloc`: the entry is allocated where there is none. -/
def allocate (idx : ℕ) (calloc : Bool) : ℕ × Table :=
  if tab.fds[idx]? = some none then
    if calloc = true then
      (idx, { fds := tab.fds.set idx (some tab.next)
              mem := Function.update tab.mem tab.next (some ⟨0, 0⟩)
              next := tab.next + 1 })
    else (tab.maxfd, tab)
  else (idx, tab)

/-- `fd_alloc`; `realloc` and `calloc` say whether there is memory. -/
def fdAlloc (realloc calloc : Bool) : ℕ × Table :=
  let idx := tab.fds.findIdx tab.empty
  if idx = tab.maxfd ∧ tab.maxfd < cfg.fdMax then
    if realloc = true then
      let cnt := min (tab.maxfd + 4) cfg.fdMax
      allocate { tab with fds := tab.fds ++ List.replicate (cnt - tab.maxfd) none } idx calloc
    else (idx, tab)
  else tab.allocate idx calloc

/-- `fd_new`. -/
def fdNew (realloc calloc : Bool) : Option (ℤ × Table) :=
  let (idx, tab) := tab.fdAlloc cfg realloc calloc
  if idx = tab.maxfd then some (-1, tab)
  else
    match tab.fds[idx]? with
    | some (some d) => some (idx + DFS_FD_OFFSET, { tab with mem := Function.update tab.mem d (some ⟨DFS_FD_MAGIC, 1⟩) })
    | _ => none

/-- The index of a number; the standard streams are the console. -/
def index (fd : ℤ) : ℤ := (if 0 ≤ fd ∧ fd ≤ 2 then cfg.console else fd) - DFS_FD_OFFSET

/-- The entry of a number. -/
def entry (fd : ℤ) : Option ℕ :=
  if index cfg fd < 0 ∨ tab.maxfd ≤ index cfg fd then none else tab.fds[(index cfg fd).toNat]?.join

/-- `fd_get`. -/
def fdGet (fd : ℤ) : Option (Option ℕ × Table) :=
  match tab.entry cfg fd with
  | none => some (none, tab)
  | some d =>
    match tab.mem d with
    | none => none
    | some e =>
      if e.magic = DFS_FD_MAGIC then
        some (some d, { tab with mem := Function.update tab.mem d (some { e with refCount := e.refCount + 1 }) })
      else some (none, tab)

/-- `fd_put`. -/
def fdPut : Option ℕ → Option Table
  | none => none
  | some d =>
    match tab.mem d with
    | none => none
    | some e =>
      if e.refCount - 1 = 0 ∧ some d ∈ tab.fds then
        some { tab with fds := tab.fds.set (tab.fds.idxOf (some d)) none, mem := Function.update tab.mem d none }
      else some { tab with mem := Function.update tab.mem d (some { e with refCount := e.refCount - 1 }) }

end Table

/-- The calls that begin with `fd_get`. -/
inductive Call
  | close
  | read
  | write
  | lseek
  deriving DecidableEq

/-- Where a thread is: in `open` behind `fd_new`, and in `dfs_file_open`; in the function of `dfs_file.c` for another
call; at its last `fd_put` or, with `again`, at the one before the last; and at the second one. -/
inductive Pc
  | idle
  | opening (fd : ℤ)
  | inOpen (fd : ℤ) (d : Option ℕ)
  | inFile (call : Call) (fd : ℤ) (d : ℕ)
  | put (fd : ℤ) (d : Option ℕ) (again : Bool)
  | again (fd : ℤ) (d : Option ℕ)
  deriving DecidableEq

structure State (T : Type) where
  table : Table
  pc : T → Pc

inductive Act (T : Type)
  /-- `fd_new` in `open` -/
  | fdNew (t : T) (realloc calloc : Bool)
  /-- `fd_get` in `open`, and in another call -/
  | fdGet (t : T)
  | call (t : T) (call : Call) (fd : ℤ)
  /-- the function of `dfs_file.c` returns, with a negative number or not -/
  | ret (t : T) (ok : Bool)
  | fdPut (t : T)
  deriving DecidableEq

section

variable {T : Type} [DecidableEq T] (cfg : Config)

namespace State

/-- No entries, and no calls. -/
def Init (s : State T) : Prop := s.table.fds = [] ∧ (∀ d, s.table.mem d = none) ∧ ∀ t, s.pc t = .idle

variable (s : State T)

/-- Thread `t` goes on at `pc`. -/
def goto (t : T) (pc : Pc) : State T := { s with pc := Function.update s.pc t pc }

def step : Act T → Option (State T)
  | .fdNew t realloc calloc =>
    if s.pc t = .idle then
      (s.table.fdNew cfg realloc calloc).map fun r =>
        ⟨r.2, Function.update s.pc t (if r.1 < 0 then .idle else .opening r.1)⟩
    else none
  | .fdGet t =>
    match s.pc t with
    | .opening fd => (s.table.fdGet cfg fd).map fun r => ⟨r.2, Function.update s.pc t (.inOpen fd r.1)⟩
    | _ => none
  | .call t call fd =>
    if s.pc t = .idle then
      (s.table.fdGet cfg fd).map fun r =>
        ⟨r.2, Function.update s.pc t (match r.1 with | none => .idle | some d => .inFile call fd d)⟩
    else none
  | .ret t ok =>
    match s.pc t with
    -- `dfs_file_open` of no descriptor fails
    | .inOpen fd none => if ok = false then some (s.goto t (.put fd none true)) else none
    | .inOpen fd (some d) => some (s.goto t (.put fd (some d) (!ok)))
    | .inFile call fd d => some (s.goto t (.put fd (some d) (ok && decide (call = .close))))
    | _ => none
  | .fdPut t =>
    match s.pc t with
    | .put fd d again =>
      (s.table.fdPut d).map fun tab => ⟨tab, Function.update s.pc t (if again = true then .again fd d else .idle)⟩
    | .again _ d => (s.table.fdPut d).map fun tab => ⟨tab, Function.update s.pc t .idle⟩
    | _ => none

end State

/-- The entry that a thread holds, and the number it has got it with. -/
def Pc.holds : Pc → Option (ℤ × ℕ)
  | .inOpen fd d => d.map (fd, ·)
  | .inFile _ fd d => some (fd, d)
  | .put fd d _ => d.map (fd, ·)
  | _ => none

/-- The entry that a thread is to put next. -/
def Pc.puts : Pc → Option (Option ℕ)
  | .put _ d _ => some d
  | .again _ d => some d
  | _ => none

/-- The entry whose opening a thread has ended: it puts it once more than it holds it. -/
def Pc.ends : Pc → Option ℕ
  | .put _ d true => d
  | .again _ d => d
  | _ => none

/-- The history of a run: the entries that are open, the entries whose opening has been ended, by a successful close
or a failed open, and the entry that the last `fd_new` of a thread has made. -/
structure Log (T : Type) where
  isOpen : ℕ → Bool
  ended : ℕ → Bool
  made : T → Option ℕ

def Log.start (_ : State T) : Log T := ⟨fun _ => false, fun _ => false, fun _ => none⟩

/-- An entry is open from `fd_new` on, until the second `fd_put` of the call that ends its opening. -/
def log (s : State T) (a : Act T) (s' : State T) (g : Log T) : Log T :=
  match a with
  | .fdNew t _ _ =>
    match s'.pc t with
    | .opening fd =>
      match s'.table.entry cfg fd with
      | some d =>
        ⟨Function.update g.isOpen d true, Function.update g.ended d false, Function.update g.made t (some d)⟩
      | none => g
    | _ => g
  | .ret t _ =>
    match (s'.pc t).ends with
    | some d => { g with ended := Function.update g.ended d true }
    | none => g
  | .fdPut t =>
    match s.pc t with
    | .again _ (some d) => { g with isOpen := Function.update g.isOpen d false }
    | _ => g
  | _ => g

/-- The runs whose steps all satisfy `ok`. -/
abbrev Runs (ok : State T × Log T → Act T → Prop) : State T × Log T → Prop :=
  Run.Reach (fun p => p.1.Init ∧ p.2 = Log.start p.1) (Run.Logged (fun s a s' => s.step cfg a = some s') (log cfg)) ok

/-- **The references are balanced**: a reference for each call that holds an entry, and one as long as it is open; an
entry that is put has not been freed; and as long as a call holds it, it stays under its number. -/
structure Balanced [Fintype T] (p : State T × Log T) : Prop where
  counts : ∀ (i d : ℕ), p.1.table.fds[i]? = some (some d) → ∃ e, p.1.table.mem d = some e ∧
    e.refCount = (if p.2.isOpen d then 1 else 0) + (Finset.univ.filter fun t => (p.1.pc t).holds.any (·.2 = d)).card
  puts : ∀ t d, (p.1.pc t).puts = some d → ∃ d' e, d = some d' ∧ p.1.table.mem d' = some e
  kept : ∀ t fd d, (p.1.pc t).holds = some (fd, d) → p.1.table.entry cfg fd = some d

/-- **Each opening ends once**: a call ends it only where it has not been ended before; and `fd_get` in `open` still
finds the entry that `fd_new` has made. -/
def EndsOnce (p : State T × Log T) : Act T → Prop
  | .fdGet t =>
    match p.1.pc t with
    | .opening fd => p.1.table.entry cfg fd = p.2.made t
    | _ => True
  | .ret t ok =>
    match p.1.pc t, ok with
    | .inOpen _ (some d), false => p.2.ended d = false
    | .inFile .close _ d, true => p.2.ended d = false
    | _, _ => True
  | _ => True

end

end RtThread.DfsFd
