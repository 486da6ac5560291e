import RtThread.Lib.Run
import Mathlib.Algebra.Group.Nat.Defs
import Mathlib.Data.List.Basic

/-!
# POSIX semaphores (`semaphore.c`)

`State` is `posix_sem_list`. Each call runs with `posix_sem_lock` taken. What `rt_malloc` and
`rt_sem_create` return is part of a call, as are the two bytes of memory behind each structure, which
`posix_sem_find` can read: it compares a name with the bytes from the member `sem` on.

`Table` is what the calls are for: names that are bound to semaphores, and the references to each.
-/

namespace RtThread.NamedSem

abbrev Addr := ℕ

/-- A name, without its terminating zero. -/
abbrev Name := List UInt8

/-- `RT_NAME_MAX`. -/
def rtNameMax : ℕ := 10

inductive Errno
  | EINVAL
  | EEXIST
  | ENFILE
  | ENOENT
  | EBUSY
  | ENOMEM
  deriving DecidableEq

/-- `struct rt_semaphore`, of which only the address and the value are read. -/
structure RtSem where
  addr : Addr
  name : Name
  value : ℕ
  deriving DecidableEq

/-- `struct posix_sem` at the address `psem`; `next` is the next one on the list. -/
structure PosixSem where
  psem : Addr
  /-- an `rt_uint16_t` -/
  refcount : ℕ
  unlinked : Bool
  unamed : Bool
  sem : RtSem
  deriving DecidableEq

structure State where
  posixSemList : List PosixSem

/-- What a call returns: a pointer, `NULL`, 0 or -1. -/
inductive Ret
  | sem (p : Addr)
  | null (e : Errno)
  | ok
  | error (e : Errno)
  deriving DecidableEq

/-- The result of a call, and the structures that it gives to `rt_free`. -/
structure Out where
  ret : Ret
  freed : List Addr
  deriving DecidableEq

inductive Call
  /-- `sem_open` with `O_CREAT` and `O_EXCL` or not; `mem` is what `rt_malloc` returns, and `obj` what
  `rt_sem_create` returns, 0 for `RT_NULL` -/
  | semOpen (name : Name) (creat excl : Bool) (value : ℕ) (mem : Option Addr) (obj : Addr)
    (behind : Addr → List UInt8)
  | semClose (p : Addr)
  | semUnlink (name : Name) (behind : Addr → List UInt8)
  | semInit (p : Addr) (value : ℕ) (obj : Addr)
  | semDestroy (p : Addr)

/-- `strncmp(s, t, n) == 0`; behind the end of a list there are zeros. -/
def strncmp : ℕ → List UInt8 → List UInt8 → Bool
  | 0, _, _ => true
  | n + 1, s, t => s.headD 0 = t.headD 0 && (s.headD 0 = 0 || strncmp n s.tail t.tail)

/-- A pointer in memory. -/
def pointer (a : Addr) : List UInt8 :=
  [UInt8.ofNat a, UInt8.ofNat (a / 256), UInt8.ofNat (a / 256 ^ 2), UInt8.ofNat (a / 256 ^ 3)]

/-- The structure at the head of a list. -/
def headAddr : List PosixSem → Addr
  | [] => 0
  | p :: _ => p.psem

/-- `strncmp(object->name, name, RT_NAME_MAX) == 0` for `object = (rt_object_t)&(iter->sem)`: the memory from
the member `sem` on, not the name of the kernel object that it points to. -/
def PosixSem.matches (p : PosixSem) (next : Addr) (behind : Addr → List UInt8) (name : Name) : Bool :=
  strncmp rtNameMax (pointer p.sem.addr ++ pointer next ++ behind p.psem) name

def posixSemFind (behind : Addr → List UInt8) (name : Name) : List PosixSem → Option PosixSem
  | [] => none
  | p :: l => if p.matches (headAddr l) behind name then some p else posixSemFind behind name l

namespace State

variable (s : State)

/-- The structure at an address. -/
def get (p : Addr) : Option PosixSem := s.posixSemList.find? fun q => q.psem = p

def set (q : PosixSem) : State := ⟨s.posixSemList.map fun r => if r.psem = q.psem then q else r⟩

def posixSemInsert (q : PosixSem) : State := ⟨q :: s.posixSemList⟩

/-- `posix_sem_delete` takes a structure off the list and frees it. -/
def posixSemDelete (p : Addr) : State := ⟨s.posixSemList.eraseP fun q => q.psem = p⟩

def semOpen (name : Name) (creat excl : Bool) (value : ℕ) (mem : Option Addr) (obj : Addr)
    (behind : Addr → List UInt8) : Out × State :=
  if creat then
    if excl ∧ (posixSemFind behind name s.posixSemList).isSome then (⟨.null .EEXIST, []⟩, s)
    else
      match mem with
      | none => (⟨.null .ENFILE, []⟩, s)
      | some p =>
        if obj = 0 then (⟨.null .ENFILE, [p]⟩, s)
        else (⟨.sem p, []⟩, s.posixSemInsert ⟨p, 1, false, false, ⟨obj, name, value⟩⟩)
  else
    match posixSemFind behind name s.posixSemList with
    | some q => (⟨.sem q.psem, []⟩, s.set { q with refcount := (q.refcount + 1) % 2 ^ 16 })
    | none => (⟨.null .ENOENT, []⟩, s)

/-- `sem_close`; `none` for a pointer to none of the structures. -/
def semClose (p : Addr) : Option (Out × State) :=
  (s.get p).map fun q =>
    let refcount := (q.refcount + (2 ^ 16 - 1)) % 2 ^ 16
    if refcount = 0 ∧ q.unlinked then (⟨.ok, [p]⟩, s.posixSemDelete p)
    else (⟨.ok, []⟩, s.set { q with refcount })

def semUnlink (name : Name) (behind : Addr → List UInt8) : Out × State :=
  match posixSemFind behind name s.posixSemList with
  | some q =>
    if q.refcount = 0 then (⟨.ok, [q.psem]⟩, s.posixSemDelete q.psem)
    else (⟨.ok, []⟩, s.set { q with unlinked := true })
  | none => (⟨.error .ENOENT, []⟩, s)

/-- `sem_init` tests `sem` once more in place of `sem->sem`: without a kernel object it goes on. -/
def semInit (p : Addr) (value : ℕ) (obj : Addr) : Out × State :=
  (⟨.ok, []⟩, s.posixSemInsert ⟨p, 1, false, true, ⟨obj, [], value⟩⟩)

/-- `sem_destroy`: `rt_sem_trytake` fails where the value is 0, and asserts that there is a kernel object. -/
def semDestroy (p : Addr) : Option (Out × State) :=
  (s.get p).bind fun q =>
    if q.unamed then
      if q.sem.addr = 0 then none
      else some (if q.sem.value = 0 then (⟨.error .EBUSY, []⟩, s) else (⟨.ok, [p]⟩, s.posixSemDelete p))
    else some (⟨.error .EINVAL, []⟩, s)

def call : Call → Option (Out × State)
  | .semOpen name creat excl value mem obj behind => some (s.semOpen name creat excl value mem obj behind)
  | .semClose p => s.semClose p
  | .semUnlink name behind => some (s.semUnlink name behind)
  | .semInit p value obj => some (s.semInit p value obj)
  | .semDestroy p => s.semDestroy p

end State

/-! ## The name table -/

/-- A semaphore of `sem_open`: its name, whether that is still bound to it, and the open references; or a
semaphore of `sem_init`, in memory of its user. -/
inductive Kind
  | named (name : Name) (bound : Bool) (refs : ℕ)
  | static (value : ℕ)
  deriving DecidableEq

structure Entry where
  psem : Addr
  kind : Kind
  deriving DecidableEq

/-- The name is bound to the semaphore. -/
def Entry.binds (name : Name) (e : Entry) : Bool :=
  match e.kind with
  | .named n bound _ => bound && n = name
  | .static _ => false

/-- A reference is open, or the semaphore is one of `sem_init`. -/
def Entry.closable (e : Entry) : Bool :=
  match e.kind with
  | .named _ _ refs => 0 < refs
  | .static _ => true

structure Table where
  entries : List Entry

namespace Table

variable (t : Table)

def lookup (name : Name) : Option Entry := t.entries.find? (Entry.binds name)

def get (p : Addr) : Option Entry := t.entries.find? fun e => e.psem = p

def set (p : Addr) (kind : Kind) : Table := ⟨t.entries.map fun e => if e.psem = p then ⟨p, kind⟩ else e⟩

def add (e : Entry) : Table := ⟨e :: t.entries⟩

def remove (p : Addr) : Table := ⟨t.entries.eraseP fun e => e.psem = p⟩

/-- A named semaphore is freed once its name is unbound and the last reference closed. -/
def update (p : Addr) (name : Name) (bound : Bool) (refs : ℕ) (r : Ret) : Out × Table :=
  if refs = 0 ∧ bound = false then (⟨r, [p]⟩, t.remove p) else (⟨r, []⟩, t.set p (.named name bound refs))

/-- What the calls are to do. -/
def call : Call → Option (Out × Table)
  | .semOpen name creat excl _ mem obj _ =>
    match t.lookup name with
    | some ⟨p, .named n bound refs⟩ =>
      some (if creat && excl then (⟨.null .EEXIST, []⟩, t) else t.update p n bound (refs + 1) (.sem p))
    | _ =>
      if creat then
        match mem with
        | none => some (⟨.null .ENFILE, []⟩, t)
        | some p =>
          some (if obj = 0 then (⟨.null .ENFILE, [p]⟩, t) else (⟨.sem p, []⟩, t.add ⟨p, .named name true 1⟩))
      else some (⟨.null .ENOENT, []⟩, t)
  | .semClose p =>
    match t.get p with
    | some ⟨_, .named n bound refs⟩ => some (t.update p n bound (refs - 1) .ok)
    | some ⟨_, .static _⟩ => some (⟨.ok, []⟩, t)
    | none => none
  | .semUnlink name _ =>
    match t.lookup name with
    | some ⟨p, .named n _ refs⟩ => some (t.update p n false refs .ok)
    | _ => some (⟨.error .ENOENT, []⟩, t)
  | .semInit p value obj =>
    some (if obj = 0 then (⟨.error .ENOMEM, []⟩, t) else (⟨.ok, []⟩, t.add ⟨p, .static value⟩))
  | .semDestroy p =>
    match t.get p with
    | some ⟨_, .static value⟩ =>
      some (if value = 0 then (⟨.error .EBUSY, []⟩, t) else (⟨.ok, []⟩, t.remove p))
    | some ⟨_, .named _ _ _⟩ => some (⟨.error .EINVAL, []⟩, t)
    | none => none

/-- What a caller keeps to: names have no zero and are shorter than `RT_NAME_MAX`, references are closed once,
and memory that is in use is neither allocated nor initialised again. -/
def Legal : Call → Prop
  | .semOpen name _ _ _ mem _ _ => name.length < rtNameMax ∧ 0 ∉ name ∧ mem.bind t.get = none
  | .semUnlink name _ => name.length < rtNameMax ∧ 0 ∉ name
  | .semClose p => (t.get p).any Entry.closable = true
  | .semInit p _ _ => t.get p = none
  | .semDestroy p => (t.get p).isSome = true

instance (c : Call) : Decidable (t.Legal c) :=
  match c with
  | .semOpen _ _ _ _ _ _ _ => instDecidableAnd
  | .semUnlink _ _ => instDecidableAnd
  | .semClose _ => instDecidableEqBool _ _
  | .semInit _ _ _ => inferInstanceAs (Decidable (_ = none))
  | .semDestroy _ => instDecidableEqBool _ _

end Table

/-- The structure is that of a semaphore to which the name is bound. -/
def PosixSem.bound (name : Name) (q : PosixSem) : Bool := !q.unamed && !q.unlinked && q.sem.name = name

/-- The bytes that `posix_sem_find` compares read as the name just where the structure is that of a bound
semaphore of this name, up to the first one. -/
def Reads (behind : Addr → List UInt8) (name : Name) : List PosixSem → Prop
  | [] => True
  | q :: l => q.matches (headAddr l) behind name = q.bound name ∧ (q.bound name = false → Reads behind name l)

instance (behind : Addr → List UInt8) (name : Name) : (l : List PosixSem) → Decidable (Reads behind name l)
  | [] => instDecidableTrue
  | _ :: l =>
    have : Decidable (Reads behind name l) := instDecidableReads behind name l
    inferInstanceAs (Decidable (_ = _ ∧ (_ → _)))

/-- A call that the code gets right: the bytes of the pointers read as names; a name in use is not created
without `O_EXCL`; a count of references does not wrap; `sem_init` gets its kernel object; and no semaphore of
`sem_init` is destroyed. -/
def Meets (s : State) : Call → Prop
  | .semOpen name creat excl _ _ _ behind =>
    if creat then if excl then Reads behind name s.posixSemList else ∀ q ∈ s.posixSemList, q.bound name = false
    else Reads behind name s.posixSemList ∧ ∀ q ∈ s.posixSemList, q.bound name = true → q.refcount + 1 < 2 ^ 16
  | .semUnlink name behind => Reads behind name s.posixSemList
  | .semDestroy p => ∀ q ∈ s.posixSemList, q.psem = p → q.unamed = true → q.sem.value = 0
  | .semInit _ _ obj => obj ≠ 0
  | .semClose _ => True

instance (s : State) (c : Call) : Decidable (Meets s c) :=
  match c with
  | .semOpen _ true true _ _ _ _ => inferInstanceAs (Decidable (Reads _ _ _))
  | .semOpen _ true false _ _ _ _ => inferInstanceAs (Decidable (∀ _ ∈ _, _))
  | .semOpen _ false _ _ _ _ _ => instDecidableAnd
  | .semUnlink _ _ => inferInstanceAs (Decidable (Reads _ _ _))
  | .semDestroy _ => inferInstanceAs (Decidable (∀ _ ∈ _, _))
  | .semInit _ _ _ => inferInstanceAs (Decidable (_ ≠ 0))
  | .semClose _ => instDecidableTrue

/-- The code and the table take the same calls. -/
def step (r : State × Table) (c : Call) : Option (State × Table) :=
  if r.2.Legal c then
    match r.1.call c, r.2.call c with
    | some (_, s), some (_, t) => some (s, t)
    | _, _ => none
  else none

/-- No semaphore. -/
def Initial (r : State × Table) : Prop := r = (⟨[]⟩, ⟨[]⟩)

abbrev Runs (ok : State × Table → Call → Prop) : State × Table → Prop :=
  Run.Reach Initial (fun r c r' => step r c = some r') ok

/-- The code returns and frees what the table says. -/
def Refines (r : State × Table) (c : Call) : Prop :=
  ∃ out s t, r.1.call c = some (out, s) ∧ r.2.call c = some (out, t)

end RtThread.NamedSem
