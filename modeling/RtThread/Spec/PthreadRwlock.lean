import RtThread.Spec.PthreadCond
import Mathlib.Algebra.BigOperators.Group.Finset.Basic

/-!
# Read-write locks (`pthread_rwlock.c`)

One lock and the threads `T` that call it. The steps are those of `Spec/PthreadCond.lean`; what a call does
between two of them with `rw_mutex` held is one step. `rw_refcount` is an integer: the 2^31 read holds at
which an `int` would overflow are left out.
-/

namespace RtThread.Rwlock

open Pthread

variable {T : Type} [DecidableEq T]

/-- The two conditions, `rw_condreaders` and `rw_condwriters`. -/
inductive Side
  | readers
  | writers
  deriving DecidableEq

/-- The calls; a timeout is what `clock_time_to_tick` makes of the absolute time. -/
inductive Call
  | rdlock
  | tryrdlock
  | timedrdlock (timeout : ℤ)
  | wrlock
  | trywrlock
  | timedwrlock (timeout : ℤ)
  | unlock
  deriving DecidableEq

/-- The ticks that a call waits for. -/
def Call.timeout : Call → ℤ
  | .timedrdlock timeout | .timedwrlock timeout => timeout
  | _ => -1

/-- What `pthread_cond_wait` and `pthread_cond_timedwait` make of the result of the wait. -/
def Call.waited : Call → Errno → Errno
  | _, .ok => .ok
  | .timedrdlock _, .ETIMEDOUT | .timedwrlock _, .ETIMEDOUT => .ETIMEDOUT
  | _, _ => .EINVAL

/-- Where a thread is in its call. -/
inductive Pc
  | idle
  /-- at the lock of `rw_mutex` -/
  | lock (c : Call)
  /-- behind it, and at each test of a waiting loop -/
  | test (c : Call)
  /-- in the wait for its condition: at the unlock, at `rt_sem_take`, suspended, and at the lock -/
  | wait (c : Call) (side : Side)
  | take (c : Call) (side : Side)
  | suspended (c : Call) (side : Side)
  | relock (c : Call) (side : Side) (result : Errno)
  /-- behind the wait -/
  | back (c : Call) (side : Side) (result : Errno)
  /-- an unlock, at `pthread_cond_signal` of the writers -/
  | signal
  /-- an unlock, in `pthread_cond_broadcast` to the readers -/
  | broadcast
  | trytake
  | release (taken : Bool)
  /-- at the unlock of `rw_mutex`, with the result of the call -/
  | done (c : Call) (result : Errno)
  deriving DecidableEq

/-- A suspended thread goes on with a result of `rt_sem_take`. -/
def Pc.resume (result : Errno) : Pc → Pc
  | .suspended c side => .relock c side result
  | p => p

/-- `pthread_rwlock_t`. -/
structure State (T : Type) where
  rwMutex : Mutex T
  /-- the semaphores of `rw_condreaders` and `rw_condwriters` -/
  rwCond : Side → Sem T
  /-- `rw_nwaitreaders` and `rw_nwaitwriters` -/
  rwNwait : Side → ℤ
  rwRefcount : ℤ
  /-- the thread that has the scheduler locked -/
  critical : Option T
  pc : T → Pc

inductive Act (T : Type)
  | call (t : T) (c : Call)
  /-- a call goes on -/
  | cont (t : T)
  /-- the timer of a suspended thread runs out -/
  | timeout (t : T)

/-- The call of `t` goes on. -/
def Act.goesOn (t : T) : Act T → Bool
  | .cont u => u = t
  | _ => false

namespace State

variable (s : State T)

def setPc (t : T) (p : Pc) : State T := { s with pc := Function.update s.pc t p }

def setCond (side : Side) (m : Sem T) : State T := { s with rwCond := Function.update s.rwCond side m }

def addNwait (side : Side) (d : ℤ) : State T :=
  { s with rwNwait := Function.update s.rwNwait side (s.rwNwait side + d) }

/-- `rt_sem_release` of the semaphore of a condition. -/
def semRelease (side : Side) : State T :=
  { s with
    rwCond := Function.update s.rwCond side (s.rwCond side).release
    pc := match (s.rwCond side).waiting with
      | [] => s.pc
      | u :: _ => Function.update s.pc u ((s.pc u).resume .ok) }

/-- A reader has to wait: writers are given preference. -/
def Busy : Prop := s.rwRefcount < 0 ∨ 0 < s.rwNwait .writers

instance : Decidable s.Busy := inferInstanceAs (Decidable (_ ∨ _))

/-- The waiting loop of `pthread_rwlock_rdlock` and `pthread_rwlock_timedrdlock`. -/
def rdlock (t : T) (c : Call) : State T :=
  if s.Busy then (s.addNwait .readers 1).setPc t (.wait c .readers)
  else { s with rwRefcount := s.rwRefcount + 1 }.setPc t (.done c .ok)

def tryrdlock (t : T) (c : Call) : State T :=
  if s.Busy then s.setPc t (.done c .EBUSY)
  else { s with rwRefcount := s.rwRefcount + 1 }.setPc t (.done c .ok)

/-- The waiting loop of `pthread_rwlock_wrlock` and `pthread_rwlock_timedwrlock`. -/
def wrlock (t : T) (c : Call) : State T :=
  if s.rwRefcount ≠ 0 then (s.addNwait .writers 1).setPc t (.wait c .writers)
  else { s with rwRefcount := -1 }.setPc t (.done c .ok)

def trywrlock (t : T) (c : Call) : State T :=
  if s.rwRefcount ≠ 0 then s.setPc t (.done c .EBUSY)
  else { s with rwRefcount := -1 }.setPc t (.done c .ok)

/-- What an unlock makes of `rw_refcount`. -/
def unlockedCount : ℤ :=
  if 0 < s.rwRefcount then s.rwRefcount - 1 else if s.rwRefcount = -1 then 0 else s.rwRefcount

/-- Whom an unlock wakes: waiting writers are given preference over waiting readers. -/
def wakes : Pc :=
  if 0 < s.rwNwait .writers then if s.unlockedCount = 0 then .signal else .done .unlock .ok
  else if 0 < s.rwNwait .readers then .broadcast
  else .done .unlock .ok

def unlock (t : T) : State T := { s with rwRefcount := s.unlockedCount }.setPc t s.wakes

def test (t : T) (c : Call) : State T :=
  match c with
  | .rdlock | .timedrdlock _ => s.rdlock t c
  | .tryrdlock => s.tryrdlock t c
  | .wrlock | .timedwrlock _ => s.wrlock t c
  | .trywrlock => s.trywrlock t c
  | .unlock => s.unlock t

/-- `rt_sem_take(&(cond->sem), timeout)`. -/
def take (t : T) (c : Call) (side : Side) : State T :=
  if 0 < (s.rwCond side).value then
    (s.setCond side { s.rwCond side with value := (s.rwCond side).value - 1 }).setPc t (.relock c side .ok)
  else if c.timeout = 0 then s.setPc t (.relock c side .ETIMEDOUT)
  else (s.setCond side { s.rwCond side with waiting := (s.rwCond side).waiting ++ [t] }).setPc t (.suspended c side)

/-- The next step of a call. -/
def cont (t : T) : Option (State T) :=
  match s.pc t with
  | .idle | .suspended _ _ => none
  | .lock c =>
    match s.rwMutex.lock t with
    | none => none
    | some (.ok, rwMutex) => some ({ s with rwMutex }.setPc t (.test c))
    | some (_, rwMutex) => some ({ s with rwMutex }.setPc t .idle)
  | .test c => some (s.test t c)
  | .wait c side =>
    if s.rwMutex.owner = some t then
      match s.rwMutex.unlock t with
      | (.ok, rwMutex) => some ({ s with rwMutex }.setPc t (.take c side))
      | (_, rwMutex) => some ({ s with rwMutex }.setPc t (.back c side .EINVAL))
    else some (s.setPc t (.back c side .EINVAL))
  | .take c side => some (s.take t c side)
  | .relock c side r =>
    match s.rwMutex.lock t with
    | none => none
    | some (_, rwMutex) => some ({ s with rwMutex }.setPc t (.back c side (c.waited r)))
  | .back c side r => some ((s.addNwait side (-1)).setPc t (if r = .ok then .test c else .done c r))
  | .signal => some ((s.semRelease .writers).setPc t (.done .unlock .ok))
  | .broadcast => some ({ s with critical := some t }.setPc t .trytake)
  | .trytake =>
    if 0 < (s.rwCond .readers).value then
      some ((s.setCond .readers { s.rwCond .readers with value := (s.rwCond .readers).value - 1 }).setPc t
        (.release true))
    else some (s.setPc t (.release false))
  | .release true => some ({ s.semRelease .readers with critical := none }.setPc t (.done .unlock .ok))
  | .release false => some ((s.semRelease .readers).setPc t .trytake)
  | .done _ _ => some ({ s with rwMutex := (s.rwMutex.unlock t).2 }.setPc t .idle)

/-- The timer of a wait runs out: the thread goes on without the semaphore. -/
def timeout (t : T) : Option (State T) :=
  match s.pc t with
  | .suspended c side =>
    if 0 < c.timeout then
      some ((s.setCond side { s.rwCond side with waiting := (s.rwCond side).waiting.erase t }).setPc t
        (.relock c side .ETIMEDOUT))
    else none
  | _ => none

/-- No thread runs while another has the scheduler locked. -/
def step : Act T → Option (State T)
  | .call t c => if s.critical = none ∧ s.pc t = .idle then some (s.setPc t (.lock c)) else none
  | .cont t => if s.critical = none ∨ s.critical = some t then s.cont t else none
  | .timeout t => s.timeout t

/-- What `pthread_rwlock_init` leaves. -/
def Init : Prop :=
  s.rwMutex = ⟨.normal, none, 0⟩ ∧ (s.rwCond = fun _ => ⟨0, []⟩) ∧ (s.rwNwait = fun _ => 0) ∧ s.rwRefcount = 0 ∧
    s.critical = none ∧ s.pc = fun _ => .idle

end State

def pthreadRwlockInit (T : Type) : State T :=
  ⟨⟨.normal, none, 0⟩, fun _ => ⟨0, []⟩, fun _ => 0, 0, none, fun _ => .idle⟩

/-! ## Who holds the lock -/

/-- What a thread holds: the lock for reading so many times, or for writing. -/
structure Hold where
  reads : ℕ
  writes : Bool
  deriving DecidableEq

/-- What a call that returns 0 makes of it. -/
def Hold.returned (h : Hold) : Call → Hold
  | .rdlock | .tryrdlock | .timedrdlock _ => { h with reads := h.reads + 1 }
  | .wrlock | .trywrlock | .timedwrlock _ => { h with writes := true }
  | .unlock => if h.writes then { h with writes := false } else { h with reads := h.reads - 1 }

/-- A thread holds the lock from the return of a lock call with 0 to that of an unlock; a call that returns
anything else leaves it with what it held. -/
def log (s : State T) (a : Act T) (_ : State T) (h : T → Hold) : T → Hold :=
  match a with
  | .cont t =>
    match s.pc t with
    | .done c .ok => Function.update h t ((h t).returned c)
    | _ => h
  | _ => h

/-- Unlocks are called by holders only. -/
def ByHolders (r : State T × (T → Hold)) : Act T → Prop
  | .call t .unlock => (r.2 t).writes = true ∨ 0 < (r.2 t).reads
  | _ => True

instance (r : State T × (T → Hold)) (a : Act T) : Decidable (ByHolders r a) :=
  match a with
  | .call _ c => match c with
    | .unlock => instDecidableOr
    | .rdlock | .tryrdlock | .timedrdlock _ | .wrlock | .trywrlock | .timedwrlock _ => instDecidableTrue
  | .cont _ | .timeout _ => instDecidableTrue

abbrev Runs (ok : State T × (T → Hold) → Act T → Prop) : State T × (T → Hold) → Prop :=
  Run.Reach (fun r => r.1.Init ∧ r.2 = fun _ => ⟨0, false⟩) (Run.Logged (fun s a s' => s.step a = some s') log) ok

/-- Inside the waiting loop of a condition. -/
def Pc.waitsOn (side : Side) : Pc → Bool
  | .wait _ d | .take _ d | .suspended _ d | .relock _ d _ | .back _ d _ => d = side
  | _ => false

/-- What the fields of a lock say while `rw_mutex` is free. -/
structure Excludes [Fintype T] (s : State T) (h : T → Hold) : Prop where
  writer : s.rwRefcount = -1 ↔ ∃! t, (h t).writes = true
  readers : s.rwRefcount ≠ -1 → s.rwRefcount = ∑ t, (h t).reads
  alone : ∀ t, (h t).writes = true → ∀ u, (u ≠ t → (h u).writes = false) ∧ (h u).reads = 0
  waiting : ∀ side, s.rwNwait side = (Finset.univ.filter fun t => (s.pc t).waitsOn side = true).card

/-! ## Who sleeps -/

/-- Suspended on a condition. -/
def Pc.sleepsOn (side : Side) : Pc → Bool
  | .suspended _ d => d = side
  | _ => false

/-- Resumed, and waiting to have `rw_mutex` again. -/
def Pc.resumed : Pc → Bool
  | .relock _ _ _ => true
  | _ => false

/-- At `rt_sem_take` on a condition. -/
def Pc.takesOn (side : Side) : Pc → Bool
  | .take _ d => d = side
  | _ => false

/-- At `rt_sem_take` on a condition, and ready to wait. -/
def Pc.willing (side : Side) : Pc → Bool
  | .take c d => d = side ∧ c.timeout ≠ 0
  | _ => false

/-- A writer that has counted itself out with a result other than 0. -/
def Pc.givesUp : Pc → Bool
  | .back _ .writers r => r ≠ .ok
  | _ => false

/-- A broadcast to the readers is under way, or a writer is about to take the lock or to wait for it. -/
def Pc.brings : Pc → Bool
  | .broadcast | .trytake | .release _ | .test .wrlock | .test (.timedwrlock _) => true
  | _ => false

/-- Nothing is under way: `rw_mutex` is free, no resumed waiter has yet to run, and no wake-up is stored. -/
structure State.Rests (s : State T) : Prop where
  free : s.rwMutex.owner = none
  ran : ∀ t, (s.pc t).resumed = false
  empty : ∀ side, (s.rwCond side).value = 0

/-- Nobody sleeps beside a free lock, and no reader beside one that readers hold and no writer waits for. -/
structure State.Awake (s : State T) : Prop where
  free : s.rwRefcount = 0 → ∀ t side, (s.pc t).sleepsOn side = false
  shared : 0 < s.rwRefcount → s.rwNwait .writers = 0 → ∀ t, (s.pc t).sleepsOn .readers = false

/-- A step loses no wake-up. The last waiting writer does not give up while a reader sleeps and no writer holds
the lock; a reader that finds no token has something to wait for; and a signal does not wrap the counter of the
semaphore while a writer is on the way to it. -/
structure KeepsWakeup (s : State T) (a : Act T) : Prop where
  givesUp : ∀ t, a.goesOn t = true → (s.pc t).givesUp = true → s.rwNwait .writers = 1 → 0 ≤ s.rwRefcount →
    ∀ u, (s.pc u).sleepsOn .readers = false
  reader : ∀ t, a.goesOn t = true → (s.pc t).willing .readers = true → (s.rwCond .readers).value = 0 →
    s.rwRefcount < 0 ∨ s.rwNwait .writers ≠ 0 ∨ ∃ u, (s.pc u).brings = true
  signal : ∀ t, a.goesOn t = true → s.pc t = .signal → ((s.rwCond .writers).value + 1) % 2 ^ 16 = 0 →
    ∀ u, (s.pc u).takesOn .writers = false

set_option synthInstance.maxSize 400 in
instance [Fintype T] (s : State T) (a : Act T) : Decidable (KeepsWakeup s a) :=
  decidable_of_iff (_ ∧ _ ∧ _) ⟨fun h => ⟨h.1, h.2.1, h.2.2⟩, fun h => ⟨h.givesUp, h.reader, h.signal⟩⟩

end RtThread.Rwlock
