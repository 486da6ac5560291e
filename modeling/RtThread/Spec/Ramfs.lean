import RtThread.Lib.Buffer
import RtThread.Lib.Run
import Mathlib.Data.BitVec
import Mathlib.Data.UInt

/-!
# The RAM file system (`dfs_ramfs.c`)

`State` is the list of directory entries below `ramfs->root` and the descriptors that are open. What
`rt_memheap_alloc` and `rt_memheap_realloc` return is part of a call. A call that touches memory outside the block of
its file, or takes the root off its own list, is `none`.

`Fs` is what the calls are for: a map from names to byte strings, and descriptors with a position.
-/

namespace RtThread.Ramfs

abbrev Addr := ℕ

abbrev Byte := UInt8

/-- A text, without its terminating zero. -/
abbrev Path := List UInt8

/-- `RAMFS_NAME_MAX`. -/
def ramfsNameMax : ℕ := 32

/-- The character `/`. -/
def slash : UInt8 := 47

inductive Errno
  | eio
  | enoent
  | eexist
  | enomem
  deriving DecidableEq

/-- `struct ramfs_dirent` at the address `addr`; `data` is the block that it points to. A `name` of 32 bytes has no
terminating zero, and is equal to no shorter one. -/
structure Dirent where
  addr : Addr
  name : Path
  data : Option (List Byte)
  size : ℕ
  deriving DecidableEq

/-- `struct dfs_fd`, of an open file; `data` is its directory entry. -/
structure Fd where
  no : ℕ
  data : Addr
  size : ℕ
  pos : ℕ
  deriving DecidableEq

structure State where
  /-- `ramfs->root.list` -/
  root : List Dirent
  fds : List Fd

/-- The flags of `open` that files are opened with. -/
structure Flags where
  creat : Bool
  wronly : Bool
  trunc : Bool
  append : Bool
  deriving DecidableEq

inductive Out
  | ok
  | bytes (buf : List Byte)
  | count (n : ℕ)
  | error (e : Errno)
  deriving DecidableEq

inductive Call
  /-- `mem` is the new directory entry -/
  | ramfsOpen (no : ℕ) (path : Path) (flags : Flags) (mem : Option Addr)
  | ramfsRead (no count : ℕ)
  /-- `mem` is what a new block holds behind the bytes of the old one -/
  | ramfsWrite (no : ℕ) (buf : List Byte) (mem : Option (List Byte))
  | ramfsLseek (no offset : ℕ)
  | ramfsClose (no : ℕ)
  | ramfsStat (path : Path)
  | ramfsUnlink (path : Path)
  | ramfsRename (oldpath newpath : Path)

/-- An `rt_size_t`. -/
def uint32 (n : ℕ) : ℕ := n % 2 ^ 32

/-- An `off_t`. -/
def off (n : ℕ) : ℤ := (BitVec.ofNat 32 n).toInt

/-- The separators at the front of a path are passed over. -/
def subpath (path : Path) : Path := path.dropWhile (· = slash)

/-- `strncpy`. -/
def strncpy (path : Path) (n : ℕ) : Path := path.take n

/-- `rt_memheap_realloc`: a block of at least `n` bytes, which begins as the old one does. -/
def realloc (old : List Byte) (n : ℕ) (fresh : List Byte) : List Byte := Buffer.pad n (old.take n ++ fresh)

namespace Dirent

variable (d : Dirent)

/-- The block; behind `NULL` there is none. -/
def block : List Byte := d.data.getD []

/-- `memcpy` out of the block. -/
def memcpyOut (pos length : ℕ) : Option (List Byte) := if 0 < length then Buffer.read d.block pos length else some []

/-- `memcpy` into the block. -/
def memcpyIn (pos : ℕ) (buf : List Byte) : Option Dirent :=
  if 0 < buf.length then (Buffer.blit d.block pos buf).map fun block => { d with data := some block } else some d

end Dirent

/-- What `dfs_ramfs_lookup` returns: the root, an entry below it, or `NULL`. -/
inductive Found
  | root
  | dirent (d : Dirent)
  | null
  deriving DecidableEq

namespace State

variable (s : State)

/-- The directory entry at an address. -/
def dirent (a : Addr) : Option Dirent := s.root.find? fun d => d.addr = a

def fd (no : ℕ) : Option Fd := s.fds.find? fun f => f.no = no

/-- A descriptor, and the directory entry of its file. -/
def file (no : ℕ) : Option (Fd × Dirent) := (s.fd no).bind fun f => (s.dirent f.data).map fun d => (f, d)

def setDirent (d : Dirent) : State := { s with root := s.root.map fun e => if e.addr = d.addr then d else e }

def setFd (f : Fd) : State := { s with fds := s.fds.map fun g => if g.no = f.no then f else g }

def dfsRamfsLookup (path : Path) : Found :=
  if subpath path = [] then .root
  else
    match s.root.find? fun d => d.name = subpath path with
    | some d => .dirent d
    | none => .null

def dfsRamfsRead (no count : ℕ) : Option (Out × State) :=
  match s.file no with
  | some (f, d) =>
    let left := uint32 (f.size + 2 ^ 32 - f.pos)
    let length := if count < left then count else left
    (d.memcpyOut f.pos length).map fun buf => (.bytes buf, s.setFd { f with pos := uint32 (f.pos + length) })
  | none => none

/-- The first part of `dfs_ramfs_write`: a file that ends before the last byte gets another block. -/
def grow (f : Fd) (d : Dirent) (count : ℕ) (mem : Option (List Byte)) : Option (Fd × Dirent) :=
  if f.size < uint32 (count + f.pos) then
    let size := uint32 (f.pos + count)
    mem.map fun fresh => ({ f with size }, { d with data := some (realloc d.block size fresh), size })
  else some (f, d)

def dfsRamfsWrite (no : ℕ) (buf : List Byte) (mem : Option (List Byte)) : Option (Out × State) :=
  match s.file no with
  | some (f, d) =>
    match grow f d buf.length mem with
    | some (f, d) =>
      (d.memcpyIn f.pos buf).map fun d =>
        (.count buf.length, (s.setDirent d).setFd { f with pos := uint32 (f.pos + buf.length) })
    | none => some (.count 0, s)
  | none => none

def dfsRamfsLseek (no offset : ℕ) : Option (Out × State) :=
  (s.fd no).map fun f =>
    if (offset : ℤ) ≤ off f.size then (.count offset, s.setFd { f with pos := offset }) else (.error .eio, s)

def dfsRamfsClose (no : ℕ) : Option (Out × State) :=
  (s.fd no).map fun f => (.ok, { s with fds := s.fds.eraseP fun g => g.no = f.no })

/-- The last part of `dfs_ramfs_open`. -/
def attach (no : ℕ) (d : Dirent) (flags : Flags) : Out × State :=
  let d := if flags.trunc then { d with size := 0, data := none } else d
  (.ok, { s.setDirent d with fds := ⟨no, d.addr, d.size, if flags.append then d.size else 0⟩ :: s.fds })

/-- `dfs_ramfs_open`, without `O_DIRECTORY`. -/
def dfsRamfsOpen (no : ℕ) (path : Path) (flags : Flags) (mem : Option Addr) : Out × State :=
  match s.dfsRamfsLookup path with
  | .root => (.error .enoent, s)
  | .dirent d => s.attach no d flags
  | .null =>
    if flags.creat || flags.wronly then
      match mem with
      | none => (.error .enomem, s)
      | some a =>
        let d := ⟨a, strncpy (subpath path) ramfsNameMax, none, 0⟩
        attach { s with root := d :: s.root } no d flags
    else (.error .enoent, s)

def dfsRamfsStat (path : Path) : Out × State :=
  match s.dfsRamfsLookup path with
  | .root => (.count 0, s)
  | .dirent d => (.count d.size, s)
  | .null => (.error .enoent, s)

def dfsRamfsUnlink (path : Path) : Option (Out × State) :=
  match s.dfsRamfsLookup path with
  | .root => none
  | .dirent d => some (.ok, { s with root := s.root.eraseP fun e => e.addr = d.addr })
  | .null => some (.error .enoent, s)

/-- `dfs_ramfs_rename`; no function reads the name of the root. -/
def dfsRamfsRename (oldpath newpath : Path) : Out × State :=
  match s.dfsRamfsLookup newpath with
  | .null =>
    match s.dfsRamfsLookup oldpath with
    | .null => (.error .enoent, s)
    | .root => (.ok, s)
    | .dirent d => (.ok, s.setDirent { d with name := strncpy newpath ramfsNameMax })
  | _ => (.error .eexist, s)

def call : Call → Option (Out × State)
  | .ramfsOpen no path flags mem => some (s.dfsRamfsOpen no path flags mem)
  | .ramfsRead no count => s.dfsRamfsRead no count
  | .ramfsWrite no buf mem => s.dfsRamfsWrite no buf mem
  | .ramfsLseek no offset => s.dfsRamfsLseek no offset
  | .ramfsClose no => s.dfsRamfsClose no
  | .ramfsStat path => some (s.dfsRamfsStat path)
  | .ramfsUnlink path => s.dfsRamfsUnlink path
  | .ramfsRename oldpath newpath => some (s.dfsRamfsRename oldpath newpath)

end State

/-! ## Names and byte strings -/

structure File where
  addr : Addr
  name : Path
  content : List Byte
  deriving DecidableEq

structure Handle where
  no : ℕ
  file : Addr
  pos : ℕ
  deriving DecidableEq

structure Fs where
  files : List File
  handles : List Handle

namespace Fs

variable (t : Fs)

def lookup (path : Path) : Option File := t.files.find? fun x => x.name = subpath path

def get (a : Addr) : Option File := t.files.find? fun x => x.addr = a

def handle (no : ℕ) : Option Handle := t.handles.find? fun h => h.no = no

def set (x : File) : Fs := { t with files := t.files.map fun y => if y.addr = x.addr then x else y }

def move (h : Handle) (pos : ℕ) : Fs :=
  { t with handles := t.handles.map fun g => if g.no = h.no then { h with pos } else g }

/-- The file is opened, at its end or its beginning. -/
def attach (no : ℕ) (x : File) (flags : Flags) : Out × Fs :=
  let x := if flags.trunc then { x with content := [] } else x
  (.ok, { t.set x with handles := ⟨no, x.addr, if flags.append then x.content.length else 0⟩ :: t.handles })

/-- The content after a write at a position: it is never shorter, and a hole is filled with zeros. -/
def overwrite (content : List Byte) (pos : ℕ) (buf : List Byte) : List Byte :=
  if buf = [] then content else (Buffer.pad pos content).take pos ++ buf ++ content.drop (pos + buf.length)

/-- What the calls are to do. -/
def call : Call → Option (Out × Fs)
  | .ramfsOpen no path flags mem =>
    match t.lookup path with
    | some x => some (t.attach no x flags)
    | none =>
      if flags.creat || flags.wronly then
        match mem with
        | none => some (.error .enomem, t)
        | some a => some (attach { t with files := ⟨a, subpath path, []⟩ :: t.files } no ⟨a, subpath path, []⟩ flags)
      else some (.error .enoent, t)
  | .ramfsRead no count =>
    (t.handle no).bind fun h => (t.get h.file).map fun x =>
      let buf := (x.content.drop h.pos).take count
      (.bytes buf, t.move h (h.pos + buf.length))
  | .ramfsWrite no buf mem =>
    (t.handle no).bind fun h => (t.get h.file).map fun x =>
      if buf ≠ [] ∧ x.content.length < h.pos + buf.length ∧ mem = none then (.count 0, t)
      else (.count buf.length, (t.set { x with content := overwrite x.content h.pos buf }).move h (h.pos + buf.length))
  | .ramfsLseek no offset => (t.handle no).map fun h => (.count offset, t.move h offset)
  | .ramfsClose no => (t.handle no).map fun h => (.ok, { t with handles := t.handles.eraseP fun g => g.no = h.no })
  | .ramfsStat path =>
    match t.lookup path with
    | some x => some (.count x.content.length, t)
    | none => some (.error .enoent, t)
  | .ramfsUnlink path =>
    match t.lookup path with
    | some x => some (.ok, { t with files := t.files.eraseP fun y => y.addr = x.addr })
    | none => some (.error .enoent, t)
  | .ramfsRename oldpath newpath =>
    match t.lookup newpath, t.lookup oldpath with
    | some _, _ => some (.error .eexist, t)
    | none, none => some (.error .enoent, t)
    | none, some x => some (.ok, t.set { x with name := subpath newpath })

/-- A name of a file, shorter than `RAMFS_NAME_MAX`. -/
def Named (path : Path) : Prop := subpath path ≠ [] ∧ (subpath path).length < ramfsNameMax

instance (path : Path) : Decidable (Named path) := instDecidableAnd

/-- What a caller keeps to: a descriptor is opened once and used while it is open, a position is not beyond the end
of the file, and no open file is unlinked; and the heap gives memory that is not in use. -/
def Legal : Call → Prop
  | .ramfsOpen no path _ mem => Named path ∧ t.handle no = none ∧ mem.bind t.get = none
  | .ramfsRead no _ | .ramfsClose no => (t.handle no).isSome = true
  | .ramfsWrite no buf _ => (t.handle no).isSome = true ∧ buf.length < 2 ^ 32
  | .ramfsLseek no offset =>
    offset < 2 ^ 31 ∧ ((t.handle no).bind fun h => t.get h.file).any (fun x => offset ≤ x.content.length) = true
  | .ramfsStat path => Named path
  | .ramfsUnlink path => Named path ∧ ∀ x ∈ t.lookup path, ∀ h ∈ t.handles, h.file ≠ x.addr
  | .ramfsRename oldpath newpath => Named oldpath ∧ Named newpath

instance (c : Call) : Decidable (t.Legal c) :=
  match c with
  | .ramfsOpen _ _ _ _ => instDecidableAnd
  | .ramfsRead _ _ | .ramfsClose _ => instDecidableEqBool _ _
  | .ramfsWrite _ _ _ | .ramfsLseek _ _ => instDecidableAnd
  | .ramfsStat _ => instDecidableAnd
  | .ramfsUnlink _ => instDecidableAnd
  | .ramfsRename _ _ => instDecidableAnd

end Fs

/-- A call that the code gets right: to the descriptor the file is as long as it is, as far as the call can tell; the
position after a write does not wrap; a file that is renamed gets a name without a separator. -/
def Meets (s : State) : Call → Prop
  | .ramfsRead no count => ∀ x ∈ s.file no, min count (x.1.size - x.1.pos) = min count (x.2.size - x.1.pos)
  | .ramfsWrite no buf mem =>
    ∀ x ∈ s.file no, x.1.pos + buf.length < 2 ^ 32 ∧
      if x.1.size < x.1.pos + buf.length then
        x.1.pos ≤ x.2.size ∧ x.2.size ≤ x.1.pos + buf.length ∧ (mem = none → x.2.size < x.1.pos + buf.length)
      else buf = [] ∨ x.1.pos + buf.length ≤ x.2.size
  | .ramfsLseek no offset => ∀ f ∈ s.fd no, (offset : ℤ) ≤ off f.size
  | .ramfsRename oldpath newpath =>
    s.dfsRamfsLookup newpath = .null → s.dfsRamfsLookup oldpath ≠ .null → subpath newpath = newpath
  | _ => True

instance (s : State) (c : Call) : Decidable (Meets s c) :=
  match c with
  | .ramfsRead _ _ => inferInstanceAs (Decidable (∀ _ ∈ _, _))
  | .ramfsWrite _ _ _ => inferInstanceAs (Decidable (∀ _ ∈ _, _))
  | .ramfsLseek _ _ => inferInstanceAs (Decidable (∀ _ ∈ _, _))
  | .ramfsRename _ _ => inferInstanceAs (Decidable (_ → _ → _))
  | .ramfsOpen _ _ _ _ | .ramfsClose _ | .ramfsStat _ | .ramfsUnlink _ => instDecidableTrue

/-- The code and the map take the same calls. -/
def step (r : State × Fs) (c : Call) : Option (State × Fs) :=
  if r.2.Legal c then
    match r.1.call c, r.2.call c with
    | some (_, s), some (_, t) => some (s, t)
    | _, _ => none
  else none

/-- No file. -/
def Initial (r : State × Fs) : Prop := r = (⟨[], []⟩, ⟨[], []⟩)

abbrev Runs (ok : State × Fs → Call → Prop) : State × Fs → Prop :=
  Run.Reach Initial (fun r c r' => step r c = some r') ok

/-- The code stays inside the block of the file and returns what the map says. -/
def Refines (r : State × Fs) (c : Call) : Prop :=
  ∃ out s t, r.1.call c = some (out, s) ∧ r.2.call c = some (out, t)

end RtThread.Ramfs
