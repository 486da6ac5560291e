import RtThread.Spec.DfsNormalize
import Mathlib.Data.Int.Notation

/-!
# Open files (`fd_is_open` of `dfs.c`, `dfs_file_open`, `dfs_file_close` and `dfs_file_unlink` of `dfs_file.c`)

The calls are made one after the other, with the file systems that are mounted. A descriptor is the number of its
memory, and a file system that of its entry; what `fd_new`, `dup` and `fd_put` do with the entries of the table of
descriptors is any change of them. What `rt_malloc`, `rt_strdup`, and the functions of the file systems return is part
of a call. The fields of a descriptor that are not compared are left out.
-/

namespace RtThread.DfsOpen

open Pathname DfsNormalize

inductive Errno
  | einval
  | enxio
  | enomem
  | enoent
  | ebusy
  | enosys
  deriving DecidableEq

/-- The rest of a file system's operations: `DFS_FS_FLAG_FULLPATH`, and whether there is an `open` and an `unlink`. -/
structure Traits where
  fullpath : Bool
  opens : Bool
  unlinks : Bool
  deriving DecidableEq

/-- `filesystem_table`; the paths in it are canonical. -/
structure Mounts where
  table : List DfsFs.Filesystem
  zeroed : ∀ e ∈ table, e = .zero ∨ ∃ p ops, e.path = some p ∧ e.ops = some ops
  canonical : ∀ e ∈ table, ∀ p, e.path = some p → Canonical p
  traits : DfsFs.Ops → Traits

/-- `dfs_filesystem_lookup`, with the path and the operations of the entry. -/
def Mounts.lookup (mounts : Mounts) (fullpath : Text) : Option (ℕ × Text × Traits) :=
  (DfsFs.State.dfsFilesystemLookup ⟨mounts.table⟩ fullpath).bind fun fs =>
    mounts.table[fs]?.bind fun e => e.path.bind fun p => e.ops.map fun ops => (fs, p, mounts.traits ops)

/-- `struct dfs_fd`. The code does not keep `name`, the path that a descriptor has been opened with. -/
structure Fd where
  fs : Option ℕ
  fops : Bool
  path : Option Text
  name : Option Text

/-- What `rt_calloc` leaves. -/
def Fd.zero : Fd := ⟨none, false, none, none⟩

structure State where
  workdir : Directory
  fds : List (Option ℕ)
  mem : ℕ → Fd

/-- `dfs_subdir`. -/
def dfsSubdir (directory filename : Text) : Option Text :=
  if directory.length = filename.length then none
  else
    let dir := directory.length
    some (filename.drop (if filename[dir]? ≠ some '/' ∧ dir ≠ 0 then dir - 1 else dir))

/-- The path that is stored in a descriptor. -/
def stored (p : Text) (traits : Traits) (fullpath : Text) : Text :=
  if traits.fullpath = false then
    match dfsSubdir p fullpath with
    | none => ['/']
    | some dir => dir
  else fullpath

/-- What `fd_is_open` compares it with. -/
def mountpath (p fullpath : Text) : Text := if p = ['/'] then fullpath else fullpath.drop p.length

/-- What a call returns: an error of its own, or what a function of the file system returns. -/
inductive Result
  | ok
  | errno (e : Errno)
  | fs (result : ℤ)
  deriving DecidableEq

/-- What `rt_malloc` and `rt_strdup`, and the `open` of a file system, return in `dfs_file_open`. -/
structure Answers where
  memory : Bool
  strdup : Bool
  result : ℤ

namespace State

variable (mounts : Mounts) (s : State)

/-- `dfs_normalize_path` in the working directory. -/
def normalize (path : Text) (memory : Bool) : Option (Option Text) :=
  if memory = true then dfsNormalizePath s.workdir.text path else some none

/-- `dfs_file_open`. -/
def dfsFileOpen (fd : Option ℕ) (path : Text) (a : Answers) : Option (Result × State) :=
  match fd with
  | none => some (.errno .einval, s)
  | some d =>
    match s.normalize path a.memory with
    | none => none
    | some none => some (.errno .enomem, s)
    | some (some fullpath) =>
      match mounts.lookup fullpath with
      | none => some (.errno .enoent, s)
      | some (fs, p, traits) =>
        -- a path that is not copied is null, and goes to the file system
        let path := if traits.fullpath = true ∨ a.strdup = true then some (stored p traits fullpath) else none
        let leave (e : Fd) : State := { s with mem := Function.update s.mem d e }
        if traits.opens = false then some (.errno .enosys, leave ⟨some fs, true, none, none⟩)
        else if a.result < 0 then some (.fs a.result, leave ⟨some fs, true, none, none⟩)
        else some (.ok, leave ⟨some fs, true, path, some fullpath⟩)

/-- `dfs_file_close`; `result` is what the `close` of the file system returns, and 0 where there is none. -/
def dfsFileClose (fd : Option ℕ) (result : ℤ) : Result × State :=
  match fd with
  | none => (.errno .enxio, s)
  | some d =>
    if result < 0 then (.fs result, s)
    else (.fs result, { s with mem := Function.update s.mem d { s.mem d with path := none, name := none } })

/-- `fd_is_open`. -/
def fdIsOpen (pathname : Text) (memory : Bool) : Option ℤ :=
  match s.normalize pathname memory with
  | none => none
  | some none => some (-1)
  | some (some fullpath) =>
    match mounts.lookup fullpath with
    | none => some (-1)
    | some (fs, p, _) =>
      if s.fds.any fun fd => fd.any fun d =>
          (s.mem d).fops && decide ((s.mem d).fs = some fs) && decide ((s.mem d).path = some (mountpath p fullpath))
      then some 0 else some (-1)

/-- What `dfs_file_unlink` returns: an error of its own, or what the `unlink` of the file system returns for this
path. -/
inductive Unlinked
  | errno (e : Errno)
  | unlink (fs : ℕ) (path : Text)
  deriving DecidableEq

/-- `dfs_file_unlink`, which normalizes the path once more in `fd_is_open`. -/
def dfsFileUnlink (path : Text) (memory memoryOpen : Bool) : Option Unlinked :=
  match s.normalize path memory with
  | none => none
  | some none => some (.errno .einval)
  | some (some fullpath) =>
    match mounts.lookup fullpath with
    | none => some (.errno .enoent)
    | some (fs, p, traits) =>
      match s.fdIsOpen mounts fullpath memoryOpen with
      | none => none
      | some result =>
        if result = 0 then some (.errno .ebusy)
        else if traits.unlinks = true then some (.unlink fs (stored p traits fullpath))
        else some (.errno .enosys)

end State

inductive Act
  | chdir (directory : Directory)
  /-- `rt_calloc` in `fd_new`, and what becomes of the table of descriptors -/
  | calloc (d : ℕ)
  | table (fds : List (Option ℕ))
  | dfsFileOpen (fd : Option ℕ) (path : Name) (a : Answers)
  | dfsFileClose (fd : Option ℕ) (result : ℤ)

namespace State

variable (mounts : Mounts) (s : State)

def step : Act → Option State
  | .chdir directory => some { s with workdir := directory }
  | .calloc d => some { s with mem := Function.update s.mem d .zero }
  | .table fds => some { s with fds := fds }
  | .dfsFileOpen fd path a => (s.dfsFileOpen mounts fd path.text a).map Prod.snd
  | .dfsFileClose fd result => some (s.dfsFileClose fd result).2

/-- No descriptor has been allocated. -/
def Init : Prop := s.fds = [] ∧ s.mem = fun _ => .zero

/-- A descriptor in the table has been opened with this path. -/
def Opened (name : Text) : Prop := ∃ d, some d ∈ s.fds ∧ (s.mem d).name = some name

/-- **An open file is recognised**: for a file name that is normalized, `fd_is_open` returns 0 if a descriptor has been
opened with the same path, and −1 if not; and that is when `dfs_file_unlink` refuses. -/
def Recognised (filename : Text) (memoryOpen : Bool) : Prop :=
  ∀ fullpath, s.normalize filename true = some (some fullpath) →
    (s.Opened fullpath → s.fdIsOpen mounts filename true = some 0) ∧
      (¬s.Opened fullpath → s.fdIsOpen mounts filename true = some (-1)) ∧
      (s.dfsFileUnlink mounts filename true memoryOpen = some (.errno .ebusy) ↔ s.Opened fullpath)

/-- A path is open on this file system. -/
def OpenedOn (fs : ℕ) (name : Text) : Prop := (mounts.lookup name).map Prod.fst = some fs ∧ s.Opened name

/-- The path is on a file system that is mounted at the root; or on one without `DFS_FS_FLAG_FULLPATH`, and is not its
mount point while that is open; or on one with `DFS_FS_FLAG_FULLPATH`, and is open exactly if what is left of it behind
the mount point is a path that is open on the same file system. -/
def Told (fullpath : Text) : Prop :=
  match mounts.lookup fullpath with
  | none => True
  | some (fs, p, traits) =>
    p = ['/'] ∨ if traits.fullpath = false then ¬(fullpath = p ∧ s.Opened p)
      else (s.Opened fullpath ↔ s.OpenedOn mounts fs (fullpath.drop p.length))

end State

/-- Every copy of a path finds memory. -/
def Copied : State → Act → Prop
  | _, .dfsFileOpen _ _ a => a.strdup = true
  | _, _ => True

instance (s : State) (a : Act) : Decidable (Copied s a) := by
  unfold Copied
  split <;> infer_instance

/-- The runs whose calls all satisfy `ok`. -/
abbrev Runs (mounts : Mounts) (ok : State → Act → Prop) : State → Prop :=
  Run.Reach State.Init (fun s a s' => s.step mounts a = some s') ok

end RtThread.DfsOpen
