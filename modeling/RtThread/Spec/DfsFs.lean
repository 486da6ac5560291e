import RtThread.Lib.Pathname
import RtThread.Lib.Run

/-!
# The table of file systems (`dfs_fs.c`, and `dfs_normalize_path` of `dfs.c`)

`dfs_mount` and `dfs_unmount` are called one after the other. What `rt_device_find` and `rt_device_open`, the
functions of the file systems, and `rt_malloc` return is part of a call. The private data of an entry is left out.

A function that reads in front of a string, or through a null pointer, is `none`.
-/

namespace RtThread.DfsFs

open Pathname

/-! ## `dfs_normalize_path` -/

/-- `up_one`: the last component of `dst` is taken away; in front of the string it fails. -/
def upOne (dst : Text) : Option Text :=
  if dst = [] then none else some (dst.dropLast.reverse.dropWhile (· ≠ '/')).reverse

/-- What is done behind the loop: a slash at the end is taken away, unless the string is one character long. Of an
empty string the byte in front is read. -/
def finish (dst : Text) : Option (Option Text) :=
  if dst = [] then none
  else some (some (if dst.length ≠ 1 ∧ dst.getLast? = some '/' then dst.dropLast else dst))

/-- The loop, with what is left of `src` and what has been written to `dst`, which never passes `src`. A null pointer
is the inner `none`. -/
def normalizeLoop : ℕ → Text → Text → Option (Option Text)
  | 0, _, _ => none
  | n + 1, src, dst =>
    match src with
    | ['.'] => finish dst
    | '.' :: '/' :: src => normalizeLoop n (src.dropWhile (· = '/')) dst
    | ['.', '.'] =>
      match upOne dst with
      | none => some none
      | some dst => normalizeLoop n [] dst
    | '.' :: '.' :: '/' :: src =>
      match upOne dst with
      | none => some none
      | some dst => normalizeLoop n (src.dropWhile (· = '/')) dst
    | src =>
      match src.dropWhile (· ≠ '/') with
      | [] => finish (dst ++ src.takeWhile (· ≠ '/'))
      | rest => normalizeLoop n (rest.dropWhile (· = '/')) (dst ++ src.takeWhile (· ≠ '/') ++ ['/'])

/-- A file name in front of which the working directory is put, unless it is absolute. -/
def fullName (workdir filename : Text) : Text :=
  if filename.head? = some '/' then filename else workdir ++ '/' :: filename

/-- `dfs_normalize_path`; `memory` says whether there is memory. -/
def dfsNormalizePath (workdir filename : Text) (memory : Bool) : Option (Option Text) :=
  if memory = true then
    normalizeLoop ((fullName workdir filename).length + 1) (fullName workdir filename) []
  else some none

/-! ## The table -/

/-- `struct dfs_filesystem_ops`: whether there is a `mount` and an `unmount`. -/
structure Ops where
  name : Text
  mount : Bool
  unmount : Bool
  deriving DecidableEq

/-- `struct dfs_filesystem`. -/
structure Filesystem where
  path : Option Text
  ops : Option Ops
  devId : Option ℕ
  deriving DecidableEq

/-- What `memset` leaves. -/
def Filesystem.zero : Filesystem := ⟨none, none, none⟩

/-- The working directory, `filesystem_operation_table`, and `DFS_FILESYSTEMS_MAX`. -/
structure Config where
  workdir : Text
  canonical : Canonical workdir
  types : List Ops
  max : ℕ

/-- `filesystem_table`. -/
structure State where
  table : List Filesystem
  deriving DecidableEq

/-- What `rt_malloc`, `dfs_file_open`, `rt_device_open` and `mount` return in `dfs_mount`; `dfs_file_open` normalizes
the path once more. -/
structure Answers where
  memory : Bool
  memoryOpen : Bool
  opens : Bool
  deviceOpens : Bool
  mounts : Bool
  deriving DecidableEq

namespace State

variable (cfg : Config) (s : State)

/-- A table without entries. -/
def Init : Prop := s.table = List.replicate cfg.max .zero

/-- One round of `dfs_filesystem_lookup`, with `fs` and `prefixlen`. -/
def lookupStep (path : Text) (r : Option ℕ × ℕ) (iter : Filesystem × ℕ) : Option ℕ × ℕ :=
  match iter.1.path, iter.1.ops with
  | some p, some _ =>
    if p.length < r.2 ∨ ¬p <+: path then r
    else if p.length > 1 ∧ path.length > p.length ∧ path[p.length]? ≠ some '/' then r
    else (some iter.2, p.length)
  | _, _ => r

/-- `dfs_filesystem_lookup`: the index of the entry. -/
def dfsFilesystemLookup (path : Text) : Option ℕ := (s.table.zipIdx.foldl (lookupStep path) (none, 0)).1

/-- Whether `dfs_file_open` of a directory succeeds. -/
def dfsFileOpen (path : Text) (memory opens : Bool) : Option Bool :=
  (dfsNormalizePath cfg.workdir path memory).map fun fullpath =>
    fullpath.any fun fullpath => (s.dfsFilesystemLookup fullpath).isSome && opens

/-- `dfs_mount` from the check of the table on. -/
def mountEntry (devId : Option ℕ) (path : Text) (ops : Ops) (fullpath : Text) (a : Answers) : Bool × State :=
  if s.table.any (fun iter => iter.ops.isSome && decide (iter.path = some path)) then (false, s)
  else
    match s.table.findIdx? (·.ops.isNone) with
    | none => (false, s)
    | some i =>
      let registered : State := ⟨s.table.set i ⟨some fullpath, some ops, devId⟩⟩
      if devId.isSome ∧ a.deviceOpens = false then (false, ⟨registered.table.set i .zero⟩)
      else if a.mounts = false then (false, ⟨registered.table.set i .zero⟩)
      else (true, registered)

/-- `dfs_mount`; `device` is what `rt_device_find` returns, if there is a `device_name`. -/
def dfsMount (device : Option (Option ℕ)) (path filesystemtype : Text) (a : Answers) : Option (Bool × State) :=
  if device = some none then some (false, s)
  else
    match cfg.types.find? (·.name = filesystemtype) with
    | none => some (false, s)
    | some ops =>
      if ops.mount = false then some (false, s)
      else
        match dfsNormalizePath cfg.workdir path a.memory with
        | none => none
        | some none => some (false, s)
        | some (some fullpath) =>
          if fullpath = "/".toList ∨ fullpath = "/dev".toList then some (s.mountEntry device.join path ops fullpath a)
          else
            match s.dfsFileOpen cfg fullpath a.memoryOpen a.opens with
            | none => none
            | some false => some (false, s)
            | some true => some (s.mountEntry device.join path ops fullpath a)

/-- `dfs_unmount`; `unmounts` is what `unmount` returns. -/
def dfsUnmount (specialfile : Text) (memory unmounts : Bool) : Option (Bool × State) :=
  match dfsNormalizePath cfg.workdir specialfile memory with
  | none => none
  | some none => some (false, s)
  | some (some fullpath) =>
    match s.table.findIdx? (·.path = some fullpath) with
    | none => some (false, s)
    | some i =>
      match s.table[i]?.bind Filesystem.ops with
      | none => none
      | some ops =>
        if ops.unmount = false ∨ unmounts = false then some (false, s)
        else some (true, ⟨s.table.set i .zero⟩)

end State

inductive Act
  | mount (device : Option (Option ℕ)) (path filesystemtype : Text) (a : Answers)
  | unmount (specialfile : Text) (memory unmounts : Bool)
  deriving DecidableEq

namespace State

variable (cfg : Config) (s : State)

/-- A call: whether it succeeds, and the table. -/
def step : Act → Option (Bool × State)
  | .mount device path filesystemtype a => s.dfsMount cfg device path filesystemtype a
  | .unmount specialfile memory unmounts => s.dfsUnmount cfg specialfile memory unmounts

/-- An entry has this path. -/
def Mounted (p : Text) : Prop := ∃ e ∈ s.table, e.path = some p

instance (p : Text) : Decidable (s.Mounted p) := by
  unfold Mounted
  infer_instance

/-- **The paths of the entries are canonical and pairwise different.** -/
structure Consistent : Prop where
  canonical : ∀ p, s.Mounted p → Canonical p
  distinct : ∀ (i j : ℕ) (e e' : Filesystem) (p : Text), s.table[i]? = some e → s.table[j]? = some e' →
    e.path = some p → e'.path = some p → i = j

/-- **A lookup finds the longest path**: the one entry whose path has the most components in front of those of the
path, or nothing where there is none. -/
def LookupExact : Prop :=
  ∀ path, Canonical path → match s.dfsFilesystemLookup path with
    | some i => ∃ e p, s.table[i]? = some e ∧ e.path = some p ∧ Under p path ∧
        ∀ j e' p', s.table[j]? = some e' → e'.path = some p' → Under p' path → j = i ∨ p'.length < p.length
    | none => ∀ p, s.Mounted p → ¬Under p path

end State

/-- The runs whose calls all satisfy `ok`. -/
abbrev Runs (cfg : Config) (ok : State → Act → Prop) : State → Prop :=
  Run.Reach (State.Init cfg) (fun s a s' => (s.step cfg a).map Prod.snd = some s') ok

/-! ## Where a path leads -/

/-- A component takes a path one level up, or down. A path that leads one level above the root has lost its first
slash, and another level up it fails. -/
def walkStep (place : Bool × List Text) (c : Text) : Option (Bool × List Text) :=
  if c = [] ∨ c = ['.'] then some place
  else if c = ['.', '.'] then
    if place.2 ≠ [] then some (place.1, place.2.dropLast)
    else if place.1 = true then some (false, []) else none
  else some (place.1, place.2 ++ [c])

/-- Where a path leads: whether it has stayed below the root, and its components. -/
def walk (cfg : Config) (path : Text) : Option (Bool × List Text) :=
  ((fullName cfg.workdir path).splitOn '/').foldlM walkStep (true, [])

/-- `dfs_mount` compares the paths in the table with the path as it is spelled: where the path leads to an entry, it
is spelled like one; and it does not lead above the root. -/
def KeepsTable (cfg : Config) (s : State) : Act → Prop
  | .mount _ path _ _ => ∀ place ∈ walk cfg path, place.1 = true ∧ (s.Mounted (render place.2) → s.Mounted path)
  | .unmount .. => True

instance (cfg : Config) (s : State) (a : Act) : Decidable (KeepsTable cfg s a) := by
  unfold KeepsTable
  split <;> infer_instance

end RtThread.DfsFs
