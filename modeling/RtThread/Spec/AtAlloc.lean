import RtThread.Spec.AtSocket

/-!
# Allocation of an AT socket (`alloc_socket`, `at_socket` and `free_socket` of `at_socket.c`)

A call of `at_socket` is one step: the table is searched and changed under `at_slock`. What the calls that create
semaphores and mutexes return is part of a call; `domain` is one of the two that its `RT_ASSERT` admits. The timeouts,
the callback and the wait queue of a socket are left out: no function here reads them.
-/

namespace RtThread.AtAlloc

open AtSocket

def AT_SOCKET_MAGIC : BitVec 32 := 0xA100

def SOCK_STREAM : ℤ := 1

def SOCK_DGRAM : ℤ := 2

/-- `enum at_socket_type`. -/
inductive SocketType
  | invalid
  | tcp
  | udp
  deriving DecidableEq

/-- `struct at_socket`; a semaphore or a mutex is a pointer. -/
structure Socket where
  magic : BitVec 32
  socket : ℕ
  type : SocketType
  state : SocketState
  recvNotice : Option ℕ
  recvLock : Option ℕ
  recvpktList : List RecvPkt
  rcvevent : ℕ
  sendevent : ℕ
  errevent : ℕ

/-- What `memset` leaves. -/
def Socket.zero : Socket := ⟨0, 0, .invalid, .none, none, none, [], 0, 0, 0⟩

/-- Whether there is an `at_slock`, and the table. -/
structure State where
  atSlock : Bool
  sockets : List Socket

/-- What `rt_mutex_create("at_s", ..)`, and what `rt_sem_create` and `rt_mutex_create` for the slot return. -/
structure Answers where
  atSlock : Bool
  recvNotice : Option ℕ
  recvLock : Option ℕ

namespace State

variable (s : State)

/-- A slot that has been claimed. -/
def claimed (idx : ℕ) (sock : Socket) : Socket :=
  { sock with
    magic := AT_SOCKET_MAGIC, socket := idx, state := .none, rcvevent := 0, sendevent := 0, errevent := 0,
    recvpktList := [] }

/-- `alloc_socket`: the slot, if any. -/
def allocSocket (a : Answers) : Option ℕ × State :=
  if s.atSlock = false ∧ a.atSlock = false then (none, s)
  else
    match s.sockets.findIdx? (·.magic = 0) with
    | none => (none, { s with atSlock := true })
    | some idx =>
      let sock := claimed idx ((s.sockets[idx]?).getD .zero)
      let put (sock : Socket) : State := ⟨true, s.sockets.set idx sock⟩
      match a.recvNotice with
      | none => (none, put { sock with recvNotice := none })
      | some notice =>
        match a.recvLock with
        | none => (none, put { sock with recvNotice := some notice, recvLock := none })
        | some lock => (some idx, put { sock with recvNotice := some notice, recvLock := some lock })

/-- The type of a socket. -/
def socketType (type : ℤ) : Option SocketType :=
  if type = SOCK_STREAM then some .tcp else if type = SOCK_DGRAM then some .udp else none

/-- `at_socket`. It returns `RT_NULL`, that is 0, where `alloc_socket` fails. -/
def atSocket (type : ℤ) (a : Answers) : ℤ × State :=
  match socketType type with
  | none => (-1, s)
  | some socketType =>
    match s.allocSocket a with
    | (none, s) => (0, s)
    | (some idx, s) => (idx, { s with sockets := s.sockets.modify idx fun sock => { sock with type := socketType } })

/-- `free_socket`, but for the deletions in it. -/
def freeSocket (idx : ℕ) : State := { s with sockets := s.sockets.set idx .zero }

/-- A slot is used, as `alloc_socket` sees it. -/
def Used (i : ℕ) : Prop := ∃ sock, s.sockets[i]? = some sock ∧ sock.magic ≠ 0

def Free (i : ℕ) : Prop := ∃ sock, s.sockets[i]? = some sock ∧ sock.magic = 0

/-- The slot that is searched for. -/
def FirstFree (i : ℕ) : Prop := s.Free i ∧ ∀ j < i, s.Used j

/-- **A call is atomic**: it returns the index of a slot that was free, and this slot alone has become used; or it
returns a negative number, and the same slots are used as before. -/
def Atomic (r : ℤ × State) : Prop :=
  (∃ i : ℕ, r.1 = i ∧ s.Free i ∧ r.2.Used i ∧ ∀ j ≠ i, (r.2.Used j ↔ s.Used j) ∧ (r.2.Free j ↔ s.Free j)) ∨
    r.1 < 0 ∧ ∀ j, (r.2.Used j ↔ s.Used j) ∧ (r.2.Free j ↔ s.Free j)

/-- The lock is there or can be made, and a slot is free; and its semaphore and its mutex can be made, or it is the
slot 0, whose index is what a failed call returns. -/
def Allocates (a : Answers) : Prop :=
  (s.atSlock = true ∨ a.atSlock = true) ∧
    ∃ i, s.FirstFree i ∧ (i = 0 ∨ a.recvNotice.isSome = true ∧ a.recvLock.isSome = true)

end State

end RtThread.AtAlloc
