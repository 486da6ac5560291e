import RtThread.Lib.Run
import Mathlib.Algebra.Group.Nat.Defs
import Mathlib.Logic.Function.Basic
import Mathlib.Data.List.Basic
import Mathlib.Data.Fintype.Defs
import Mathlib.Data.Int.Notation

/-!
# Condition variables and barriers (`pthread_cond.c`, `pthread_barrier.c`)

One condition variable, its mutex, and the count of a barrier that is made of both; `T` are the threads.
A step is what runs with interrupts off. While a broadcast has the scheduler locked no other thread runs;
the timer of a wait runs out at any time. Which of the threads at the mutex gets it is left open.
-/

namespace RtThread.Pthread

variable {T : Type} [DecidableEq T]

/-- What the calls return; `0` is `ok`. -/
inductive Errno
  | ok
  | EPERM
  | EDEADLK
  | EBUSY
  | EINVAL
  | ETIMEDOUT
  deriving DecidableEq

/-! ## Mutexes (`pthread_mutex.c`) -/

/-- `attr & MUTEXATTR_TYPE_MASK`. -/
inductive MutexType
  | normal
  | recursive
  | errorcheck
  deriving DecidableEq

structure Mutex (T : Type) where
  type : MutexType
  owner : Option T
  hold : ℕ

/-- `pthread_mutex_lock` by `t`; `none` as long as it waits. -/
def Mutex.lock (m : Mutex T) (t : T) : Option (Errno × Mutex T) :=
  if m.owner = some t then
    if m.type = .recursive then some (.ok, { m with hold := m.hold + 1 }) else some (.EDEADLK, m)
  else if m.owner = none then some (.ok, { m with owner := some t, hold := 1 })
  else none

/-- `pthread_mutex_unlock` by `t`. -/
def Mutex.unlock (m : Mutex T) (t : T) : Errno × Mutex T :=
  if m.owner = some t then
    (.ok, if m.hold - 1 = 0 then { m with owner := none, hold := 0 } else { m with hold := m.hold - 1 })
  else if m.type = .errorcheck then (.EPERM, m)
  else if m.owner = none then (.ok, m)
  else (.EINVAL, m)

/-! ## Semaphores (`ipc.c`) -/

/-- `rt_sem_t`: `value` is an `rt_uint16_t`, `waiting` are the suspended threads. -/
structure Sem (T : Type) where
  value : ℕ
  waiting : List T

/-- What `rt_sem_release` leaves in the semaphore. -/
def Sem.release (m : Sem T) : Sem T :=
  match m.waiting with
  | [] => { m with value := (m.value + 1) % 2 ^ 16 }
  | _ :: waiting => { m with waiting }

/-! ## Condition variables -/

/-- Who calls the condition variable. -/
inductive Caller
  | user
  /-- `pthread_barrier_wait` -/
  | barrier
  deriving DecidableEq

/-- Where a thread is. A timeout is in ticks, and negative for `RT_WAITING_FOREVER`. -/
inductive Pc
  /-- in none of the calls -/
  | idle
  /-- `pthread_barrier_wait`: at its lock, behind it, and at its unlock -/
  | barrierLock
  | barrierCount
  | barrierUnlock
  /-- `_pthread_cond_timedwait`, at the test of the owner and the unlock -/
  | wait (k : Caller) (timeout : ℤ)
  /-- the mutex is unlocked, at `rt_sem_take` -/
  | take (k : Caller) (timeout : ℤ)
  | suspended (k : Caller) (timeout : ℤ)
  /-- at the lock behind it -/
  | relock (k : Caller) (result : Errno)
  /-- `pthread_cond_broadcast`, at `rt_enter_critical` and in its loop -/
  | broadcast (k : Caller)
  | trytake (k : Caller)
  | release (k : Caller) (taken : Bool)
  deriving DecidableEq

/-- Inside its wait: the mutex is unlocked, and the semaphore not taken. -/
def Pc.entered : Pc → Bool
  | .take _ _ | .suspended _ _ => true
  | _ => false

def Pc.isSuspended : Pc → Bool
  | .suspended _ _ => true
  | _ => false

/-- At `rt_sem_take`, and ready to wait. -/
def Pc.willing : Pc → Bool
  | .take _ timeout => timeout ≠ 0
  | _ => false

/-- In the loop of a broadcast. -/
def Pc.inLoop : Pc → Bool
  | .trytake _ | .release _ _ => true
  | _ => false

/-- In a broadcast. -/
def Pc.broadcasting : Pc → Bool
  | .broadcast _ | .trytake _ | .release _ _ => true
  | _ => false

/-- A suspended thread goes on with a result of `rt_sem_take`. -/
def Pc.resume (result : Errno) : Pc → Pc
  | .suspended k _ => .relock k result
  | p => p

/-- Behind a call of the condition variable. -/
def Caller.next : Caller → Pc
  | .user => .idle
  | .barrier => .barrierUnlock

structure State (T : Type) where
  mutex : Mutex T
  sem : Sem T
  /-- the thread that has the scheduler locked -/
  critical : Option T
  /-- `barrier->count` -/
  count : ℕ
  pc : T → Pc

inductive Act (T : Type)
  /-- a mutex call of a user -/
  | lock (t : T)
  | unlock (t : T)
  /-- `pthread_cond_wait` and `pthread_cond_timedwait` -/
  | wait (t : T) (timeout : ℤ)
  | signal (t : T)
  | broadcast (t : T)
  | barrier (t : T)
  /-- a call goes on -/
  | cont (t : T)
  /-- the timer of a suspended thread runs out -/
  | timeout (t : T)

namespace State

variable (s : State T)

def setPc (t : T) (p : Pc) : State T := { s with pc := Function.update s.pc t p }

/-- `rt_sem_release(&(cond->sem))`. -/
def semRelease : State T :=
  { s with
    sem := s.sem.release
    pc := match s.sem.waiting with
      | [] => s.pc
      | u :: _ => Function.update s.pc u ((s.pc u).resume .ok) }

/-- The next step of a call. -/
def cont (t : T) : Option (State T) :=
  match s.pc t with
  | .idle | .suspended _ _ => none
  | .barrierLock =>
    match s.mutex.lock t with
    | none => none
    | some (.ok, mutex) => some ({ s with mutex }.setPc t .barrierCount)
    | some (_, mutex) => some ({ s with mutex }.setPc t .idle)
  | .barrierCount =>
    if s.count = 0 then some (s.setPc t .barrierUnlock)
    else some ({ s with count := s.count - 1 }.setPc t
      (if s.count - 1 = 0 then .broadcast .barrier else .wait .barrier (-1)))
  | .barrierUnlock => some ({ s with mutex := (s.mutex.unlock t).2 }.setPc t .idle)
  | .wait k timeout =>
    if s.mutex.owner = some t then
      match s.mutex.unlock t with
      | (.ok, mutex) => some ({ s with mutex }.setPc t (.take k timeout))
      | (_, mutex) => some ({ s with mutex }.setPc t k.next)
    else some (s.setPc t k.next)
  | .take k timeout =>
    if 0 < s.sem.value then some ({ s with sem.value := s.sem.value - 1 }.setPc t (.relock k .ok))
    else if timeout = 0 then some (s.setPc t (.relock k .ETIMEDOUT))
    else some ({ s with sem.waiting := s.sem.waiting ++ [t] }.setPc t (.suspended k timeout))
  | .relock k _ =>
    match s.mutex.lock t with
    | none => none
    | some (_, mutex) => some ({ s with mutex }.setPc t k.next)
  | .broadcast k => some ({ s with critical := some t }.setPc t (.trytake k))
  | .trytake k =>
    if 0 < s.sem.value then some ({ s with sem.value := s.sem.value - 1 }.setPc t (.release k true))
    else some (s.setPc t (.release k false))
  | .release k true => some ({ s.semRelease with critical := none }.setPc t k.next)
  | .release k false => some (s.semRelease.setPc t (.trytake k))

/-- The timer of a wait runs out: the thread goes on without the semaphore. -/
def timeout (t : T) : Option (State T) :=
  match s.pc t with
  | .suspended k timeout =>
    if 0 < timeout then
      some ({ s with sem.waiting := s.sem.waiting.erase t }.setPc t (.relock k .ETIMEDOUT))
    else none
  | _ => none

/-- A call by a thread that is in none. -/
def call : Act T → Option (State T)
  | .lock t => (s.mutex.lock t).map fun r => { s with mutex := r.2 }
  | .unlock t => some { s with mutex := (s.mutex.unlock t).2 }
  | .wait t timeout => some (s.setPc t (.wait .user timeout))
  | .signal _ => some s.semRelease
  | .broadcast t => some (s.setPc t (.broadcast .user))
  | .barrier t => some (s.setPc t .barrierLock)
  | .cont t => s.cont t
  | .timeout t => s.timeout t

/-- `a` may be next: the scheduler is not locked by another thread, and a call is made from outside the
others. -/
def Enabled : Act T → Prop
  | .timeout _ => True
  | .cont t => s.critical = none ∨ s.critical = some t
  | .lock t | .unlock t | .wait t _ | .signal t | .broadcast t | .barrier t =>
    s.critical = none ∧ s.pc t = .idle

instance (a : Act T) : Decidable (s.Enabled a) :=
  match a with
  | .timeout _ => instDecidableTrue
  | .cont _ => instDecidableOr
  | .lock _ | .unlock _ | .wait _ _ | .signal _ | .broadcast _ | .barrier _ => instDecidableAnd

def step (a : Act T) : Option (State T) := if s.Enabled a then s.call a else none

/-- Before the first call, with a mutex of any type and a barrier of any count. -/
def Init : Prop :=
  s.mutex.owner = none ∧ s.mutex.hold = 0 ∧ s.sem = ⟨0, []⟩ ∧ s.critical = none ∧ s.pc = fun _ => .idle

end State

/-- A barrier of `n` threads, as `pthread_barrier_init` leaves it. -/
def pthreadBarrierInit (T : Type) (n : ℕ) : State T := ⟨⟨.normal, none, 0⟩, ⟨0, []⟩, none, n, fun _ => .idle⟩

/-! ## What has been called -/

/-- The waits of a thread are numbered. A signal or a broadcast is recorded with the waits it finds
entered. -/
structure Log (T : Type) where
  /-- the number of waits that have ended -/
  ended : T → ℕ
  signals : List (T → Option ℕ)
  broadcasts : List (T → Option ℕ)

def Log.start : Log T := ⟨fun _ => 0, [], []⟩

/-- The waits that are entered. -/
def waits (s : State T) (g : Log T) (u : T) : Option ℕ :=
  if (s.pc u).entered then some (g.ended u) else none

def log (s : State T) (a : Act T) (s' : State T) (g : Log T) : Log T where
  ended u := if (s.pc u).entered && !(s'.pc u).entered then g.ended u + 1 else g.ended u
  signals :=
    match a with
    | .signal _ => waits s g :: g.signals
    | _ => g.signals
  broadcasts :=
    match a with
    | .cont t =>
      match s.pc t with
      | .broadcast _ => waits s g :: g.broadcasts
      | _ => g.broadcasts
    | _ => g.broadcasts

/-- The wait of `u` that `S` recorded is blocked on the condition. -/
def Stuck (s : State T) (g : Log T) (S : T → Option ℕ) (u : T) : Prop :=
  (s.pc u).isSuspended = true ∧ S u = some (g.ended u)

instance (s : State T) (g : Log T) (S : T → Option ℕ) (u : T) : Decidable (Stuck s g S u) :=
  inferInstanceAs (Decidable (_ ∧ _))

/-- A thread that has released the mutex in its wait and finds no token was missed by no broadcast since,
and by no signal whose other threads are all blocked. -/
def KeepsToken (r : State T × Log T) : Act T → Prop
  | .cont t => (r.1.pc t).willing = true → r.1.sem.value = 0 →
      (∀ B ∈ r.2.broadcasts, B t ≠ some (r.2.ended t)) ∧
        ∀ S ∈ r.2.signals, S t = some (r.2.ended t) → ∃ u, u ≠ t ∧ S u ≠ none ∧ ¬Stuck r.1 r.2 S u
  | _ => True

/-- The condition and the mutex of a barrier are called by `pthread_barrier_wait` only. -/
def Act.OfBarrier : Act T → Prop
  | .barrier _ | .cont _ | .timeout _ => True
  | _ => False

instance [Fintype T] (r : State T × Log T) (a : Act T) : Decidable (KeepsToken r a) :=
  match a with
  | .cont _ => inferInstanceAs (Decidable (_ → _ → _ ∧ _))
  | .timeout _ | .lock _ | .unlock _ | .wait _ _ | .signal _ | .broadcast _ | .barrier _ => instDecidableTrue

instance (a : Act T) : Decidable a.OfBarrier :=
  match a with
  | .barrier _ | .cont _ | .timeout _ => instDecidableTrue
  | .lock _ | .unlock _ | .wait _ _ | .signal _ | .broadcast _ => instDecidableFalse

/-- The runs whose steps satisfy `ok`, with what was called. -/
abbrev Runs (ok : State T × Log T → Act T → Prop) : State T × Log T → Prop :=
  Run.Reach (fun r => r.1.Init ∧ r.2 = Log.start) (Run.Logged (fun s a s' => s.step a = some s') log) ok

/-- Signals and broadcasts wake whom they must: behind a broadcast none of the waits that it found is
blocked, and of the waits that a signal found, if any, one is not. -/
structure Wakes (s : State T) (g : Log T) : Prop where
  broadcast : s.critical = none → ∀ B ∈ g.broadcasts, ∀ u, ¬Stuck s g B u
  signal : ∀ S ∈ g.signals, (∃ u, S u ≠ none) → ∃ u, S u ≠ none ∧ ¬Stuck s g S u

/-- Once the count of the barrier is reached and the condition broadcast, no thread is blocked. -/
def State.Released (s : State T) : Prop :=
  s.count = 0 → (∀ u, (s.pc u).broadcasting = false) → ∀ u, (s.pc u).isSuspended = false

end RtThread.Pthread
