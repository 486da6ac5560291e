import RtThread.Spec.Shell

/-!
# Names in the shell (`components/finsh/finsh_node.c`, `finsh_parser.c`, `finsh_var.c`, `finsh_vm.c`)

An identifier is copied into a buffer of the parser, and the copy is looked for among the variables, the system
variables and the system calls. The last byte of the buffer is not written; what a search reads from there on is
`behind`.
-/

namespace RtThread.FinshNames

open Buffer Shell

def FINSH_NAME_MAX : ℕ := 16

/-- `is_separator`. -/
def isSeparator (c : Byte) : Bool :=
  !(0x61 ≤ c ∧ c ≤ 0x7a ∨ 0x41 ≤ c ∧ c ≤ 0x5a ∨ 0x30 ≤ c ∧ c ≤ 0x39 ∨ c = 0x5f)

/-- What `token_get_string` takes for an identifier. -/
structure Identifier where
  chars : Text
  ne : chars ≠ []
  word : ∀ c ∈ chars, isSeparator c = false
  first : ∀ c ∈ chars.head?, ¬(0x30 ≤ c ∧ c ≤ 0x39)

/-- The name in a `struct finsh_var`; that of an empty slot is empty. -/
structure Var where
  name : Text
  noZero : 0 ∉ name
  short : name.length ≤ FINSH_NAME_MAX

/-- What names stand for. -/
structure Tables where
  /-- `global_variable` -/
  vars : List Var
  /-- `_sysvar_table` -/
  sysvars : List Name
  /-- `global_sysvar_list` -/
  sysvarItems : List Name
  /-- `_syscall_table` -/
  syscalls : List Name
  /-- `global_syscall_list` -/
  syscallItems : List Name

/-- A pointer to an entry. -/
inductive Symbol
  | var (i : ℕ)
  | sysvar (i : ℕ)
  | sysvarItem (i : ℕ)
  | syscall (i : ℕ)
  | syscallItem (i : ℕ)
  deriving DecidableEq

/-- A `struct finsh_node`; of the others only that they are in use. -/
inductive Node
  | unknown
  | id (symbol : Symbol)
  | other
  deriving DecidableEq

inductive Error
  | ok
  | invalidToken
  | expectType
  | unknownType
  | variableExist
  | expectOperator
  | memoryFull
  | unknownOp
  | unknownNode
  | expectChar
  | unexpectEnd
  | unknownToken
  | noFloat
  | unknownSymbol
  | nullNode
  deriving DecidableEq

structure State where
  /-- `global_node_table` -/
  nodes : List Node
  /-- `global_errno` -/
  errno : Error
  deriving DecidableEq

/-- `strncmp` finds no difference. -/
def sameStart (a b : Text) (n : ℕ) : Bool := a.take n = b.take n

def strncpy (src : Text) (n : ℕ) : Text := src.take n ++ List.replicate (n - src.length) 0

/-- A table, then a list whose items need only begin with the name. -/
def lookup (table items : List Name) (inTable inList : ℕ → Symbol) (name : Text) : Option Symbol :=
  match table.findIdx? fun index => index.chars = name with
  | some i => some (inTable i)
  | none => (items.findIdx? fun item => sameStart item.chars name name.length).map inList

namespace Tables

variable (t : Tables)

def finshVarLookup (name : Text) : Option Symbol :=
  (t.vars.findIdx? fun v => sameStart v.name name FINSH_NAME_MAX).map .var

def finshSysvarLookup (name : Text) : Option Symbol := lookup t.sysvars t.sysvarItems .sysvar .sysvarItem name

def finshSyscallLookup (name : Text) : Option Symbol := lookup t.syscalls t.syscallItems .syscall .syscallItem name

/-- The searches of `finsh_node_new_id`. -/
def symbol (id : Text) : Option Symbol :=
  match t.finshVarLookup id with
  | some symbol => some symbol
  | none =>
    match t.finshSysvarLookup id with
    | some symbol => some symbol
    | none => t.finshSyscallLookup id

end Tables

/-- `finsh_node_allocate`. -/
def finshNodeAllocate (s : State) : Option ℕ := s.nodes.findIdx? fun node => node = .unknown

def finshNodeNewId (t : Tables) (s : State) (id : Text) : Option ℕ × State :=
  match t.symbol id with
  | some symbol =>
    match finshNodeAllocate s with
    | some i => (some i, { s with nodes := s.nodes.set i (.id symbol) })
    | none => (none, { s with errno := .memoryFull })
  | none => (none, { s with errno := .unknownSymbol })

/-- The buffer of `proc_primary_expr` after `proc_identifier`. -/
def procIdentifier (token behind : Text) : Text := strncpy token FINSH_NAME_MAX ++ behind

/-- `proc_primary_expr` at an identifier. -/
def procPrimaryExpr (t : Tables) (s : State) (token behind : Text) : Option (Option ℕ × State) := do
  let id ← string (procIdentifier token behind) 0
  some (finshNodeNewId t s id)

/-! ## What is promised -/

namespace Tables

variable (t : Tables)

def nameOf : Symbol → Option Text
  | .var i => t.vars[i]?.map (·.name)
  | .sysvar i => t.sysvars[i]?.map (·.chars)
  | .sysvarItem i => t.sysvarItems[i]?.map (·.chars)
  | .syscall i => t.syscalls[i]?.map (·.chars)
  | .syscallItem i => t.syscallItems[i]?.map (·.chars)

def HasVar (name : Text) : Prop := ∃ v ∈ t.vars, v.name = name

def HasSysvar (name : Text) : Prop := ∃ e ∈ t.sysvars ++ t.sysvarItems, e.chars = name

def HasSyscall (name : Text) : Prop := ∃ e ∈ t.syscalls ++ t.syscallItems, e.chars = name

/-- Something has the name. -/
def Has (name : Text) : Prop := t.HasVar name ∨ t.HasSysvar name ∨ t.HasSyscall name

/-- What comes before the kind of an entry does not have the name. -/
def First (name : Text) : Symbol → Prop
  | .var _ => True
  | .sysvar _ | .sysvarItem _ => ¬t.HasVar name
  | .syscall _ | .syscallItem _ => ¬t.HasVar name ∧ ¬t.HasSysvar name

/-- **The name stands for an entry of that name**, a variable rather than a system variable, and that rather than a
system call. -/
def Resolves (name : Text) (symbol : Symbol) : Prop := t.nameOf symbol = some name ∧ t.First name symbol

end Tables

/-- **The node is one for the name**; without an entry of that name the symbol is unknown. -/
def Exact (t : Tables) (s : State) (name : Text) (r : Option (Option ℕ × State)) : Prop :=
  ∃ node s', r = some (node, s') ∧
    match node with
    | some i => ∃ symbol, s.nodes[i]? = some .unknown ∧ s' = { s with nodes := s.nodes.set i (.id symbol) } ∧
        t.Resolves name symbol
    | none => s' = { s with errno := .unknownSymbol } ∧ ¬t.Has name

/-- The first item that begins with the name has a longer one. -/
def Shadowed (name : Text) (items : List Name) : Prop :=
  ∃ item ∈ items.find? fun item => name <+: item.chars, item.chars ≠ name

/-- A name that fits is not shadowed in the lists in which it is looked for; of one that does not fit, or just so,
nothing else has the beginning. -/
def Tables.Clear (t : Tables) (name : Text) : Prop :=
  if name.length < FINSH_NAME_MAX then
    t.HasVar name ∨ (∃ e ∈ t.sysvars, e.chars = name) ∨
      ¬Shadowed name t.sysvarItems ∧
        ((∃ e ∈ t.sysvarItems, e.chars = name) ∨ (∃ e ∈ t.syscalls, e.chars = name) ∨ ¬Shadowed name t.syscallItems)
  else
    name.length = FINSH_NAME_MAX ∧ t.HasVar name ∨
      ¬t.HasVar (name.take FINSH_NAME_MAX) ∧
        ∀ e ∈ t.sysvars ++ t.sysvarItems ++ (t.syscalls ++ t.syscallItems), ¬name.take FINSH_NAME_MAX <+: e.chars

end RtThread.FinshNames
