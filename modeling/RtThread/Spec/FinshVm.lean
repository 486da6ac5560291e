import RtThread.Lib.Bytes
import Mathlib.Data.BitVec

/-!
# The compiler and the virtual machine of the shell (`components/finsh/finsh_compiler.c`, `finsh_ops.c`, `finsh_vm.c`)

A cell of the stack is a `union finsh_value` of four bytes, of which a narrow store writes the low ones. `long` has 32
bits and `char` is unsigned, as for the ARM compilers. An access outside the stack or the text segment is `none`, and
so is what C leaves undefined: a division by zero, a shift by 32 or more.
-/

namespace RtThread.FinshVm

open Bytes

abbrev Byte := BitVec 8

abbrev Word := BitVec 32

def FINSH_NODE_MAX : ℕ := 16

def FINSH_STACK_MAX : ℕ := 64

def FINSH_TEXT_MAX : ℕ := 128

inductive FinshType
  | unknown
  | void
  | voidp
  | char
  | uchar
  | charp
  | short
  | ushort
  | shortp
  | int
  | uint
  | intp
  | long
  | ulong
  | longp
  deriving DecidableEq

inductive DataType
  | void
  | byte
  | word
  | dword
  deriving DecidableEq

/-- What an identifier stands for, with the address of its entry. -/
inductive Id
  | var (self : Word) (type : FinshType)
  | sysvar (self : Word) (type : FinshType) (var : Word)
  | syscall (self func : Word)
  deriving DecidableEq

inductive BinOp
  | add
  | sub
  | mul
  | div
  | mod
  | and
  | or
  | xor
  | shl
  | shr
  deriving DecidableEq

inductive NodeType
  | unknown
  | id (id : Id)
  | valueChar (c : Byte)
  | valueInt (i : Word)
  | valueLong (l : Word)
  | valueString (ptr : Word)
  | valueNull (ptr : Word)
  /-- `FINSH_NODE_SYS_ADD` to `FINSH_NODE_SYS_SHR`, all but `FINSH_NODE_SYS_BITWISE` -/
  | sys (op : BinOp)
  | sysBitwise
  | sysFunc
  | sysAssign
  | sysCast
  | sysPreinc
  | sysPredec
  | sysInc
  | sysDec
  | sysGetvalue
  | sysGetaddr
  | sysNull
  deriving DecidableEq

/-- The fields of a `struct finsh_node`; of `idtype`, `address` is the bit `FINSH_IDTYPE_ADDRESS`. -/
structure Info where
  nodeType : NodeType
  dataType : DataType
  address : Bool
  deriving DecidableEq

inductive Node
  | null
  | node (info : Info) (child sibling : Node)
  deriving DecidableEq

inductive Error
  | unknownType
  | unknownNode
  deriving DecidableEq

/-! ## The type check -/

/-- The data type of a variable. -/
def FinshType.dataType : FinshType → Option DataType
  | .unknown => none
  | .void => some .void
  | .char | .uchar => some .byte
  | .short | .ushort => some .word
  | .int | .uint | .long | .ulong => some .dword
  | .charp | .voidp | .shortp | .intp | .longp => some .dword

/-- Whether the child of a node is to be an address. -/
def NodeType.childAddress (t : NodeType) (isAddr : Bool) : Bool :=
  match t with
  | .sysAssign | .sysPreinc | .sysPredec | .sysGetaddr => true
  -- the child of `getvalue` is a value on either side of an assignment
  | .sysGetvalue => false
  | _ => isAddr

def NodeType.isSyscall : NodeType → Bool
  | .id (.syscall _ _) => true
  | _ => false

/-- The data type of a leaf; where there is none, the field keeps its value. -/
def NodeType.leafType : NodeType → Option DataType
  | .id (.var _ type) => type.dataType
  | .id (.sysvar _ type _) => type.dataType
  | .valueChar _ => some .byte
  | .valueInt _ | .valueLong _ | .valueString _ | .valueNull _ => some .dword
  | _ => none

/-- Of the leaves, only a variable of unknown type is an error. -/
def NodeType.leafError : NodeType → Option Error
  | .id (.var _ .unknown) | .id (.sysvar _ .unknown _) => some .unknownType
  | _ => none

/-- `node->data_type`; a missing node has none. -/
def Node.dataType : Node → Option DataType
  | .null => none
  | .node info _ _ => some info.dataType

/-- A node after the type check, with the last error. -/
structure Checked where
  node : Node
  error : Option Error

def finshTypeCheck : Node → Bool → Checked
  | .null, _ => ⟨.null, none⟩
  | .node info child sibling, isAddr =>
    let c := finshTypeCheck child (info.nodeType.childAddress isAddr)
    let s := finshTypeCheck sibling false
    let address := if info.nodeType.isSyscall then info.address else info.address || isAddr
    match c.node.dataType with
    | some t => ⟨.node ⟨info.nodeType, t, address⟩ c.node s.node, s.error <|> c.error⟩
    | none =>
      ⟨.node ⟨info.nodeType, info.nodeType.leafType.getD info.dataType, address⟩ c.node s.node,
        info.nodeType.leafError <|> s.error <|> c.error⟩

/-! ## The code -/

inductive Width
  | byte
  | word
  | dword
  deriving DecidableEq

def DataType.width : DataType → Option Width
  | .void => none
  | .byte => some .byte
  | .word => some .word
  | .dword => some .dword

/-- Operations come in three, for bytes, words and double words; this is the one of them, given the first. -/
def FINSH_OP (first : Byte) : Width → Byte
  | .byte => first
  | .word => first + 1
  | .dword => first + 2

/-- `FINSH_OP_ADD_BYTE` and so on. -/
def BinOp.first : BinOp → Byte
  | .add => 0x01
  | .sub => 0x04
  | .div => 0x07
  | .mod => 0x0A
  | .mul => 0x0D
  | .and => 0x10
  | .or => 0x13
  | .xor => 0x16
  | .shl => 0x1C
  | .shr => 0x1F

def FINSH_OP_BITWISE : Width → Byte := FINSH_OP 0x19

def FINSH_OP_LD : Width → Byte := FINSH_OP 0x22

def FINSH_OP_LD_VALUE : Width → Byte := FINSH_OP 0x25

def FINSH_OP_ST : Width → Byte := FINSH_OP 0x28

def FINSH_OP_POP : Byte := 0x2B

def FINSH_OP_SYSCALL : Byte := 0x2C

def FINSH_OP_LD_VALUE_STACK : Width → Byte := FINSH_OP 0x2D

/-- `FINSH_SET32` -/
def FINSH_SET32 (v : Word) : List Byte := [v.extractLsb' 0 8, v.extractLsb' 8 8, v.extractLsb' 16 8, v.extractLsb' 24 8]

/-- What is written to the text segment, with the last error. -/
structure Emitted where
  code : List Byte
  error : Option Error
  deriving DecidableEq

def Emitted.andThen (a b : Emitted) : Emitted := ⟨a.code ++ b.code, b.error <|> a.error⟩

/-- The code for a data type; there is none for `void`. -/
def forType (t : DataType) (code : Width → List Byte) : Emitted :=
  match t.width with
  | some w => ⟨code w, none⟩
  | none => ⟨[], none⟩

/-- As which width a variable is loaded; a `void` pointer is not. -/
def FinshType.loadWidth : FinshType → Option Width
  | .char | .uchar => some .byte
  | .short | .ushort => some .word
  | .int | .uint | .long | .ulong | .charp | .shortp | .intp | .longp => some .dword
  | .unknown | .void | .voidp => none

/-- The address of `value` in a `struct finsh_var`, behind a name of 17 bytes and the type. -/
def valueOf (self : Word) : Word := self + 20

/-- The code for a variable with its value at an address. -/
def loadVar (type : FinshType) (value : Word) (address : Bool) : List Byte :=
  match type.loadWidth with
  | some w => (if address then FINSH_OP_LD .dword else FINSH_OP_LD_VALUE w) :: FINSH_SET32 value
  | none => []

def Id.self : Id → Word
  | .var self _ => self
  | .sysvar self _ _ => self
  | .syscall self _ => self

/-- The code for an identifier. -/
def loadId (address : Bool) : Id → List Byte
  | .syscall _ func => FINSH_OP_LD .dword :: FINSH_SET32 func
  | .sysvar _ type var => loadVar type var address
  | .var self type => loadVar type (valueOf self) address

/-- The constant 1. -/
def loadOne : Width → List Byte
  | .byte => [FINSH_OP_LD .byte, 1]
  | .word => [FINSH_OP_LD .word, 1, 0]
  | .dword => FINSH_OP_LD .dword :: FINSH_SET32 1

/-- `++x` and `--x`; the address is below on the stack. -/
def preStep (op : BinOp) (t : DataType) (value : Word) : Emitted :=
  forType t fun w => FINSH_OP_LD_VALUE w :: FINSH_SET32 value ++ loadOne w ++
    [FINSH_OP op.first w, FINSH_OP_ST w, FINSH_OP_LD_VALUE_STACK .dword]

/-- `x++` and `x--`; the value before is below on the stack. -/
def postStep (op : BinOp) (t : DataType) (value : Word) : Emitted :=
  forType t fun w => FINSH_OP_LD .dword :: FINSH_SET32 value ++ FINSH_OP_LD_VALUE w :: FINSH_SET32 value ++
    loadOne w ++ [FINSH_OP op.first w, FINSH_OP_ST w, FINSH_OP_POP]

/-- A store, and the value is loaded again. -/
def assign (t : DataType) : Emitted :=
  match t.width with
  | some w => ⟨[FINSH_OP_ST w, FINSH_OP_LD_VALUE_STACK w], none⟩
  | none => ⟨[], some .unknownType⟩

/-- How many siblings follow. -/
def Node.count : Node → ℕ
  | .null => 0
  | .node _ _ sibling => sibling.count + 1

/-- `x++` and the like take the entry of an identifier for that of a variable. -/
def Node.asVar : Node → Option Word
  | .node ⟨.id id, _, _⟩ _ _ => some (valueOf id.self)
  | _ => none

/-- The part of `finsh_compile` between the child of a node and its sibling. -/
def generate (info : Info) (child : Node) : Emitted :=
  match info.nodeType with
  | .id id => ⟨loadId info.address id, none⟩
  | .valueChar c => ⟨[FINSH_OP_LD .byte, c], none⟩
  | .valueInt v | .valueLong v | .valueString v | .valueNull v => ⟨FINSH_OP_LD .dword :: FINSH_SET32 v, none⟩
  | .sys op => forType info.dataType fun w => [FINSH_OP op.first w]
  | .sysBitwise => forType info.dataType fun w => [FINSH_OP_BITWISE w]
  | .sysFunc =>
    match child with
    | .null => ⟨[], none⟩
    | .node _ _ parameters => ⟨[FINSH_OP_SYSCALL, BitVec.ofNat 8 parameters.count], none⟩
  | .sysAssign =>
    match child with
    | .node ⟨.id _, t, _⟩ _ _ => assign t
    | .node ⟨.sysGetvalue, t, _⟩ _ _ => assign t
    | _ => ⟨[], none⟩
  | .sysPreinc => (child.asVar.map (preStep .add info.dataType)).getD ⟨[], none⟩
  | .sysPredec => (child.asVar.map (preStep .sub info.dataType)).getD ⟨[], none⟩
  | .sysInc => (child.asVar.map (postStep .add info.dataType)).getD ⟨[], none⟩
  | .sysDec => (child.asVar.map (postStep .sub info.dataType)).getD ⟨[], none⟩
  | .sysNull => ⟨FINSH_SET32 0, none⟩
  | .sysGetvalue =>
    if info.address then ⟨[], none⟩ else forType info.dataType fun w => [FINSH_OP_LD_VALUE_STACK w]
  | .sysGetaddr => ⟨[], none⟩
  | .sysCast | .unknown => ⟨[], some .unknownNode⟩

def finshCompile : Node → Emitted
  | .null => ⟨[], none⟩
  | .node info child sibling => (finshCompile child).andThen ((generate info child).andThen (finshCompile sibling))

/-- The statements one after the other, with a pop between two of them. -/
def compileStatements : Node → Emitted
  | .null => ⟨[], none⟩
  | .node info child sibling =>
    (finshCompile (.node info child .null)).andThen
      ((if sibling = .null then ⟨[], none⟩ else ⟨[FINSH_OP_POP], none⟩ : Emitted).andThen (compileStatements sibling))

/-- The text segment after `finsh_compiler_run`, with the error; code that does not fit is written behind it. -/
def finshCompilerRun (root : Node) : Option Emitted :=
  let checked := finshTypeCheck root false
  let emitted := compileStatements checked.node
  if emitted.code.length ≤ FINSH_TEXT_MAX then
    some ⟨emitted.code ++ List.replicate (FINSH_TEXT_MAX - emitted.code.length) 0, emitted.error <|> checked.error⟩
  else none

/-! ## The machine -/

structure Vm where
  /-- `text_segment` -/
  text : List Byte
  /-- `finsh_vm_stack` -/
  stack : List Word
  /-- `finsh_sp` -/
  sp : ℕ
  /-- `finsh_pc` -/
  pc : ℕ
  /-- the memory outside of the machine -/
  mem : Mem

/-- A result and the memory after it. -/
structure Value where
  value : Word
  mem : Mem

/-- The system calls: what the function at an address does. -/
abbrev Calls := Word → List Word → Mem → Value

/-- What is read of a cell, after the integer promotions. -/
def Width.get (cell : Word) : Width → Word
  | .byte => (cell.setWidth 8).setWidth 32
  | .word => (cell.setWidth 16).signExtend 32
  | .dword => cell

/-- A cell with a value written to it. -/
def Width.put (cell value : Word) : Width → Word
  | .byte => cell.extractLsb' 8 24 ++ value.setWidth 8
  | .word => cell.extractLsb' 16 16 ++ value.setWidth 16
  | .dword => value

def Width.bytes : Width → ℕ
  | .byte => 1
  | .word => 2
  | .dword => 4

/-- What is at an address. -/
def Width.load (w : Width) (m : Mem) (address : Word) : Word := BitVec.ofNat 32 (readLE m address.toNat w.bytes)

def Width.store (w : Width) (m : Mem) (address value : Word) : Mem := writeLE m address.toNat w.bytes value.toNat

def BinOp.apply (x y : Word) : BinOp → Option Word
  | .add => some (x + y)
  | .sub => some (x - y)
  | .mul => some (x * y)
  | .div => if y = 0 then none else some (x.sdiv y)
  | .mod => if y = 0 then none else some (x.srem y)
  | .and => some (x &&& y)
  | .or => some (x ||| y)
  | .xor => some (x ^^^ y)
  | .shl => if y.toNat < 32 then some (x <<< y.toNat) else none
  | .shr => if y.toNat < 32 then some (x.sshiftRight y.toNat) else none

namespace Vm

/-- `*(finsh_sp - k)` -/
def peek (s : Vm) (k : ℕ) : Option Word := if k ≤ s.sp then s.stack[s.sp - k]? else none

def poke (s : Vm) (k : ℕ) (cell : Word) : Vm := { s with stack := s.stack.set (s.sp - k) cell }

def push (s : Vm) (w : Width) (value : Word) : Option Vm :=
  (s.peek 0).bind fun cell => some { s.poke 0 (w.put cell value) with sp := s.sp + 1 }

/-- `*finsh_pc`, `FINSH_GET16` and `FINSH_GET32` -/
def operand (s : Vm) : Width → Option Word
  | .byte => s.text[s.pc]?.map (BitVec.setWidth 32)
  | .word =>
    s.text[s.pc]?.bind fun a => s.text[s.pc + 1]?.bind fun b => some ((b ++ a : BitVec 16).setWidth 32)
  | .dword =>
    s.text[s.pc]?.bind fun a => s.text[s.pc + 1]?.bind fun b => s.text[s.pc + 2]?.bind fun c =>
      s.text[s.pc + 3]?.bind fun d => some (d ++ c ++ b ++ a : BitVec 32)

end Vm

def opNoOp (_ : Calls) (s : Vm) : Option Vm := some s

/-- `OP_BIN_BYTE`, `OP_BIN_WORD` and `OP_BIN_DWORD` -/
def opBin (op : BinOp) (w : Width) (_ : Calls) (s : Vm) : Option Vm :=
  (s.peek 2).bind fun x => (s.peek 1).bind fun y => (op.apply (w.get x) (w.get y)).bind fun r =>
    some { s.poke 2 (w.put x r) with sp := s.sp - 1 }

def opBw (w : Width) (_ : Calls) (s : Vm) : Option Vm :=
  (s.peek 1).bind fun x => some (s.poke 1 (w.put x (~~~(w.get x))))

def opLd (w : Width) (_ : Calls) (s : Vm) : Option Vm :=
  (s.operand w).bind fun v => (s.push w v).bind fun s => some { s with pc := s.pc + w.bytes }

def opLdValue (w : Width) (_ : Calls) (s : Vm) : Option Vm :=
  (s.operand .dword).bind fun c => (s.push w (w.load s.mem c)).bind fun s => some { s with pc := s.pc + 4 }

def opLdValueStack (w : Width) (_ : Calls) (s : Vm) : Option Vm :=
  (s.peek 1).bind fun c => some (s.poke 1 (w.put c (w.load s.mem c)))

def opSt (w : Width) (_ : Calls) (s : Vm) : Option Vm :=
  (s.peek 2).bind fun c => (s.peek 1).bind fun v => some { s with mem := w.store s.mem c (w.get v), sp := s.sp - 1 }

def opPop (_ : Calls) (s : Vm) : Option Vm := if 1 ≤ s.sp then some { s with sp := s.sp - 1 } else none

/-- The parameters of a call; without any, the function is called with a zero. -/
def parameterv (l : List Word) : List Word := if l = [] then [0] else l

/-- There is room for 16 parameters. -/
def opCall (call : Calls) (s : Vm) : Option Vm :=
  s.text[s.pc]?.bind fun n => (s.peek (n.toNat + 1)).bind fun f =>
    if n.toNat ≤ 16 then
      let r := call f (parameterv ((s.stack.drop (s.sp - n.toNat)).take n.toNat)) s.mem
      some { s.poke (n.toNat + 1) r.value with sp := s.sp - n.toNat, pc := s.pc + 1, mem := r.mem }
    else none

/-- `op_table` -/
def opTable : List (Calls → Vm → Option Vm) :=
  [opNoOp,
    opBin .add .byte, opBin .add .word, opBin .add .dword,
    opBin .sub .byte, opBin .sub .word, opBin .sub .dword,
    opBin .div .byte, opBin .div .word, opBin .div .dword,
    opBin .mod .byte, opBin .mod .word, opBin .mod .dword,
    opBin .mul .byte, opBin .mul .word, opBin .mul .dword,
    opBin .and .byte, opBin .and .word, opBin .and .dword,
    opBin .or .byte, opBin .or .word, opBin .or .dword,
    opBin .xor .byte, opBin .xor .word, opBin .xor .dword,
    opBw .byte, opBw .word, opBw .dword,
    opBin .shl .byte, opBin .shl .word, opBin .shl .dword,
    opBin .shr .byte, opBin .shr .word, opBin .shr .dword,
    opLd .byte, opLd .word, opLd .dword,
    opLdValue .byte, opLdValue .word, opLdValue .dword,
    opSt .byte, opSt .word, opSt .dword,
    opPop,
    opCall,
    opLdValueStack .byte, opLdValueStack .word, opLdValueStack .dword]

variable (call : Calls)

def step (s : Vm) : Option Vm :=
  s.text[s.pc]?.bind fun op => opTable[op.toNat]?.bind fun f => f call { s with pc := s.pc + 1 }

/-- The loop of `finsh_vm_run`, for so many operations at most. -/
def loop : ℕ → Vm → Option Vm
  | 0, s => if s.pc < FINSH_TEXT_MAX then none else some s
  | n + 1, s => if s.pc < FINSH_TEXT_MAX then (step call s).bind (loop n) else some s

/-- Every operation takes a byte at least. -/
def finshVmRun (s : Vm) : Option Vm := loop call FINSH_TEXT_MAX { s with sp := 0, pc := 0 }

/-- `finsh_run_line` after the parser: the stack and the memory, which are as before if there was an error. -/
def finshRunLine (root : Node) (s : Vm) : Option Vm :=
  (finshCompilerRun root).bind fun emitted =>
    let s := { s with text := emitted.code, stack := s.stack.set 0 0 }
    if emitted.error = none then finshVmRun call s else some s

/-! ## What is promised

Expressions of 32 bits, evaluated from the left to the right.
-/

/-- What has a value at an address. -/
inductive Place
  | var (self : Word) (type : FinshType)
  | sysvar (self : Word) (type : FinshType) (value : Word)

namespace Place

def address : Place → Word
  | .var self _ => valueOf self
  | .sysvar _ _ value => value

def type : Place → FinshType
  | .var _ type => type
  | .sysvar _ type _ => type

def id : Place → Id
  | .var self type => .var self type
  | .sysvar self type value => .sysvar self type value

end Place

inductive Constant
  | int
  | long
  | string
  | null

/-- `x++` and `x--`, before or after. -/
inductive Step
  | inc
  | dec

def Step.op : Step → BinOp
  | .inc => .add
  | .dec => .sub

mutual

inductive Expr
  | const (kind : Constant) (v : Word)
  | place (x : Place)
  | addressOf (x : Place)
  | deref (p : Expr)
  | assign (x : Place) (e : Expr)
  | assignAt (p e : Expr)
  | pre (step : Step) (self : Word) (type : FinshType)
  | post (step : Step) (self : Word) (type : FinshType)
  | bin (op : BinOp) (a b : Expr)
  | not (a : Expr)
  | call (self func : Word) (args : Args)

inductive Args
  | nil
  | cons (e : Expr) (args : Args)

end

/-- The values of arguments and the memory after them. -/
structure Values where
  values : List Word
  mem : Mem

/-- One more or one less, at an address. -/
def Step.eval (step : Step) (pre : Bool) (address : Word) (m : Mem) : Option Value :=
  let v := Width.dword.load m address
  (step.op.apply v 1).bind fun r => some ⟨if pre then r else v, Width.dword.store m address r⟩

mutual

def Expr.eval : Expr → Mem → Option Value
  | .const _ v, m => some ⟨v, m⟩
  | .place x, m => some ⟨Width.dword.load m x.address, m⟩
  | .addressOf x, m => some ⟨x.address, m⟩
  | .deref p, m => (p.eval m).bind fun a => some ⟨Width.dword.load a.mem a.value, a.mem⟩
  | .assign x e, m => (e.eval m).bind fun v => some ⟨v.value, Width.dword.store v.mem x.address v.value⟩
  | .assignAt p e, m =>
    (p.eval m).bind fun a => (e.eval a.mem).bind fun v => some ⟨v.value, Width.dword.store v.mem a.value v.value⟩
  | .pre step self _, m => step.eval true (valueOf self) m
  | .post step self _, m => step.eval false (valueOf self) m
  | .bin op a b, m =>
    (a.eval m).bind fun x => (b.eval x.mem).bind fun y => (op.apply x.value y.value).bind fun r => some ⟨r, y.mem⟩
  | .not a, m => (a.eval m).bind fun x => some ⟨~~~x.value, x.mem⟩
  | .call _ func args, m => (args.eval m).bind fun vs => some (call func (parameterv vs.values) vs.mem)

def Args.eval : Args → Mem → Option Values
  | .nil, m => some ⟨[], m⟩
  | .cons e args, m => (e.eval m).bind fun v => (args.eval v.mem).bind fun vs => some ⟨v.value :: vs.values, vs.mem⟩

end

/-- The statements of a line, one after the other: the value of the last, and the memory. -/
def evalLine (line : List Expr) (m : Mem) : Option Value :=
  line.foldlM (fun v e => e.eval call v.mem) ⟨0, m⟩

/-! The tree that the parser builds. -/

def Constant.nodeType (v : Word) : Constant → NodeType
  | .int => .valueInt v
  | .long => .valueLong v
  | .string => .valueString v
  | .null => .valueNull v

def Expr.nodeType : Expr → NodeType
  | .const kind v => kind.nodeType v
  | .place x => .id x.id
  | .addressOf _ => .sysGetaddr
  | .deref _ => .sysGetvalue
  | .assign _ _ | .assignAt _ _ => .sysAssign
  | .pre .inc _ _ => .sysPreinc
  | .pre .dec _ _ => .sysPredec
  | .post .inc _ _ => .sysInc
  | .post .dec _ _ => .sysDec
  | .bin op _ _ => .sys op
  | .not _ => .sysBitwise
  | .call _ _ _ => .sysFunc

/-- A new node. -/
def make (t : NodeType) (child sibling : Node) : Node := .node ⟨t, .void, false⟩ child sibling

mutual

def Expr.child : Expr → Node
  | .const _ _ | .place _ => .null
  | .addressOf x => make (.id x.id) .null .null
  | .deref p => make p.nodeType p.child .null
  | .assign x e => make (.id x.id) .null (make e.nodeType e.child .null)
  | .assignAt p e => make .sysGetvalue (make p.nodeType p.child .null) (make e.nodeType e.child .null)
  | .pre _ self type | .post _ self type => make (.id (.var self type)) .null .null
  | .bin _ a b => make a.nodeType a.child (make b.nodeType b.child .null)
  | .not a => make a.nodeType a.child .null
  | .call self func args => make (.id (.syscall self func)) .null args.tree

def Args.tree : Args → Node
  | .nil => .null
  | .cons e args => make e.nodeType e.child args.tree

end

/-- The tree of a line: its statements are siblings. -/
def root : List Expr → Node
  | [] => .null
  | e :: line => make e.nodeType e.child (root line)

/-- The data type of an expression is that of its first operand; that of a call is `void`. -/
def Expr.isDword : Expr → Bool
  | .const _ _ | .place _ | .addressOf _ | .assign _ _ | .pre _ _ _ | .post _ _ _ => true
  | .deref p | .assignAt p _ => p.isDword
  | .bin _ a _ | .not a => a.isDword
  | .call _ _ _ => false

mutual

/-- All variables have 32 bits, and no operator has a call as its first operand. -/
def Expr.Typed : Expr → Prop
  | .const _ _ => True
  | .place x | .addressOf x => x.type.loadWidth = some .dword
  | .deref p => p.isDword ∧ p.Typed
  | .assign x e => x.type.loadWidth = some .dword ∧ e.Typed
  | .assignAt p e => p.isDword ∧ p.Typed ∧ e.Typed
  | .pre _ _ type | .post _ _ type => type.loadWidth = some .dword
  | .bin _ a b => a.isDword ∧ a.Typed ∧ b.Typed
  | .not a => a.isDword ∧ a.Typed
  | .call _ _ args => args.Typed

def Args.Typed : Args → Prop
  | .nil => True
  | .cons e args => e.Typed ∧ args.Typed

end

/-- The nodes of a tree. -/
def Node.size : Node → ℕ
  | .null => 0
  | .node _ child sibling => child.size + sibling.size + 1

end RtThread.FinshVm
