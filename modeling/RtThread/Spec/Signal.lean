import RtThread.Spec.Kernel

/-!
# The signals of one thread (`signal.c`)

One thread with its handlers installed, and any number of senders `S`, at the grain of the sections of
`rt_thread_kill` and `rt_thread_handle_sig`: interrupts are on between any two of them, so a step of
anybody may come in between. `rt_thread_handle_sig` runs whenever the thread comes back from a context
switch, in a handler too, so its loops nest. The thread does not call `rt_signal_wait`.

`RT_SIG_INFO_MAX` nodes serve all threads of the system; `Act.pool` stands for what the others do.
-/

namespace RtThread.Signal

/-! ## One run of `rt_thread_handle_sig` -/

/-- The handlers that the loop of `rt_thread_handle_sig` invokes, each with `sig_pending` at that
moment. -/
def invoked (mask : BitVec 32) : List ℕ → BitVec 32 → List (ℕ × BitVec 32)
  | [], _ => []
  | signo :: l, pending =>
    if pending &&& mask = 0#32 then []
    else (signo, pending) :: invoked mask l (pending &&& ~~~(Ipc.sigMask signo))

/-! ## Senders and the thread -/

/-- Where the `rt_thread_kill` of a sender is. -/
inductive Pc
  | idle
  /-- the signal was pending: it walks through the nodes, if there were any -/
  | walk (sig : ℕ) (empty : Bool)
  | alloc (sig : ℕ)
  /-- it has a node for the signal -/
  | append (sig : ℕ)
  /-- `_signal_deliver` is next, and `RT_EOK` -/
  | deliver (sig : ℕ)
  deriving DecidableEq

/-- The signals of the thread, and its senders. -/
structure State (S : Type) where
  sigPending : BitVec 32
  sigMask : BitVec 32
  /-- the signal numbers of `si_list` -/
  siList : List ℕ
  /-- the signals whose handlers run, the innermost first -/
  handling : List ℕ
  /-- free blocks of `_rt_siginfo_pool` -/
  siginfoPool : ℕ
  sender : S → Pc

inductive Act (S : Type)
  /-- `rt_thread_kill` begins -/
  | kill (c : S) (sig : ℤ)
  | walk (c : S) (found : Bool)
  | alloc (c : S)
  | append (c : S)
  | deliver (c : S)
  /-- `rt_thread_handle_sig` unlinks the first node; its handler begins -/
  | handle
  /-- the innermost handler is done -/
  | handled
  | mask (sig : ℕ)
  | unmask (sig : ℕ)
  | pool (n : ℕ)

/-- `sig_valid(sig_no)`. -/
def sigValid (sig : ℤ) : Bool := 0 ≤ sig ∧ sig < 32

namespace State

variable {S : Type} [DecidableEq S] (s : State S)

/-- The bit of a signal is set in `sig_pending`. -/
def Pending (sig : ℕ) : Prop := s.sigPending &&& Ipc.sigMask sig ≠ 0#32

instance (sig : ℕ) : Decidable (s.Pending sig) := inferInstanceAs (Decidable (_ ≠ _))

def setPc (c : S) (p : Pc) : State S := { s with sender := Function.update s.sender c p }

/-- The first section of `rt_thread_kill`. -/
def kill (c : S) (sig : ℕ) : State S :=
  if s.Pending sig then s.setPc c (.walk sig s.siList.isEmpty)
  else { s with sigPending := s.sigPending ||| Ipc.sigMask sig }.setPc c (.alloc sig)

/-- `rt_thread_handle_sig`, to where it invokes a handler. -/
def handle : Option (State S) :=
  if s.sigPending &&& s.sigMask ≠ 0#32 then
    match s.siList with
    | signo :: siList => some { s with siList, handling := signo :: s.handling }
    | [] => none
  else none

/-- `rt_thread_handle_sig`, from where a handler returns. -/
def handled : Option (State S) :=
  match s.handling with
  | signo :: handling => some { s with
      handling
      sigPending := s.sigPending &&& ~~~(Ipc.sigMask signo)
      siginfoPool := s.siginfoPool + 1 }
  | [] => none

/-- One step. -/
def step : Act S → Option (State S)
  | .kill c sig =>
    if s.sender c = .idle then some (if sigValid sig then s.kill c sig.toNat else s) else none
  | .walk c found =>
    match s.sender c with
    | .walk sig empty =>
      -- the walk takes the first node for its link: what it compares is memory next to the node and then
      -- memory where the signal number points, and what it writes where it finds one is not seen here
      if found then if empty then none else some (s.setPc c .idle)
      else some (s.setPc c (.alloc sig))
    | _ => none
  | .alloc c =>
    match s.sender c with
    | .alloc sig =>
      if s.siginfoPool = 0 then some (s.setPc c (.deliver sig))
      else some ({ s with siginfoPool := s.siginfoPool - 1 }.setPc c (.append sig))
    | _ => none
  | .append c =>
    match s.sender c with
    | .append sig => some ({ s with siList := s.siList ++ [sig] }.setPc c (.deliver sig))
    | _ => none
  | .deliver c =>
    match s.sender c with
    | .deliver _ => some (s.setPc c .idle)
    | _ => none
  | .handle => s.handle
  | .handled => s.handled
  | .mask sig => some { s with sigMask := s.sigMask &&& ~~~(Ipc.sigMask sig) }
  | .unmask sig => some { s with sigMask := s.sigMask ||| Ipc.sigMask sig }
  | .pool siginfoPool => some { s with siginfoPool }

/-- No signal has been sent. -/
structure Init : Prop where
  sigPending : s.sigPending = 0#32
  siList : s.siList = []
  handling : s.handling = []
  sender : ∀ c, s.sender c = .idle

end State

/-! ## What the senders were promised -/

/-- The invocations of the handlers, and the calls of `rt_thread_kill` that returned `RT_EOK`. -/
structure Log (S : Type) where
  /-- how often the handler of a signal was invoked -/
  invoked : ℕ → ℕ
  /-- how often the handler had been invoked when a sender began its call -/
  began : S → ℕ
  /-- the signals accepted, each with how often its handler had been invoked before the call -/
  accepted : List (ℕ × ℕ)

variable {S : Type} [DecidableEq S]

def Log.accept (g : Log S) (c : S) (sig : ℕ) : Log S :=
  { g with accepted := (sig, g.began c) :: g.accepted }

def log (s : State S) (a : Act S) (_ : State S) (g : Log S) : Log S :=
  match a with
  | .kill c sig => { g with began := Function.update g.began c (g.invoked sig.toNat) }
  | .walk c true =>
    match s.sender c with
    | .walk sig _ => g.accept c sig
    | _ => g
  | .deliver c =>
    match s.sender c with
    | .deliver sig => g.accept c sig
    | _ => g
  | .handle =>
    match s.siList with
    | signo :: _ => { g with invoked := Function.update g.invoked signo (g.invoked signo + 1) }
    | [] => g
  | _ => g

/-- Runs of the thread and its senders. -/
abbrev Runs (ok : State S → Act S → Prop) : State S × Log S → Prop :=
  Run.Reach (fun p => p.1.Init ∧ p.2 = ⟨fun _ => 0, fun _ => 0, []⟩)
    (Run.Logged (fun s a s' => s.step a = some s') log) (fun p a => ok p.1 a)

end RtThread.Signal
