import RtThread.Spec.FinshVm

/-!
# The code that the shell emits for a line

`Expr.code` says which code that is. A node is checked with its siblings, and compiled after its children and before
them, so what is said of a node is said for any siblings (`Compiled`).

* `compiled`: **the compiler emits this code for an expression**, and sets no error.
* `compiled_line`, `finshCompilerRun_root`: the statements of a line, with a pop between two of them.
-/

namespace RtThread.FinshVm

open Bytes

-- the walks over the trees, which the proofs below unfold
attribute [local simp] finshTypeCheck finshCompile generate compileStatements Expr.child Args.tree Expr.nodeType
  Emitted.andThen

/-! ## The code -/

/-- A constant. -/
def ld (v : Word) : List Byte := FINSH_OP_LD .dword :: FINSH_SET32 v

/-- What is at an address. -/
def ldValue (v : Word) : List Byte := FINSH_OP_LD_VALUE .dword :: FINSH_SET32 v

/-- One more or one less, at the address below on the stack. -/
def stepCode (step : Step) (address : Word) (last : Byte) : List Byte :=
  ldValue address ++ (ld 1 ++ [FINSH_OP step.op.first .dword, FINSH_OP_ST .dword, last])

def assignCode : List Byte := [FINSH_OP_ST .dword, FINSH_OP_LD_VALUE_STACK .dword]

mutual

def Expr.code : Expr → List Byte
  | .const _ v => ld v
  | .place x => ldValue x.address
  | .addressOf x => ld x.address
  | .deref p => p.code ++ [FINSH_OP_LD_VALUE_STACK .dword]
  | .assign x e => ld x.address ++ (e.code ++ assignCode)
  | .assignAt p e => p.code ++ (e.code ++ assignCode)
  | .pre step self _ => ld (valueOf self) ++ stepCode step (valueOf self) (FINSH_OP_LD_VALUE_STACK .dword)
  | .post step self _ => ldValue (valueOf self) ++ (ld (valueOf self) ++ stepCode step (valueOf self) FINSH_OP_POP)
  | .bin op a b => a.code ++ (b.code ++ [FINSH_OP op.first .dword])
  | .not a => a.code ++ [FINSH_OP_BITWISE .dword]
  | .call _ func args => ld func ++ (args.code ++ [FINSH_OP_SYSCALL, BitVec.ofNat 8 args.length])

def Args.code : Args → List Byte
  | .nil => []
  | .cons e args => e.code ++ args.code

def Args.length : Args → ℕ
  | .nil => 0
  | .cons _ args => args.length + 1

end

def lineCode : List Expr → List Byte
  | [] => []
  | [e] => e.code
  | e :: line => e.code ++ FINSH_OP_POP :: lineCode line

/-! ## One node -/

def Expr.dataType (e : Expr) : DataType := if e.isDword then .dword else .void

/-- After the check, an expression is a node of its type with this child, for which this code is emitted. -/
structure Compiled (e : Expr) (child : Node) : Prop where
  checked : ∀ sibling, finshTypeCheck (make e.nodeType e.child sibling) false =
    ⟨.node ⟨e.nodeType, e.dataType, false⟩ child (finshTypeCheck sibling false).node,
      (finshTypeCheck sibling false).error⟩
  emitted : (finshCompile child).andThen (generate ⟨e.nodeType, e.dataType, false⟩ child) = ⟨e.code, none⟩

variable {e p a b : Expr} {x : Place} {child c d : Node} {op : BinOp} {isAddr : Bool}

theorem loadVar_dword {type : FinshType} {value : Word} {address : Bool} (h : type.loadWidth = some .dword) :
    loadVar type value address = if address then ld value else ldValue value := by
  unfold loadVar ld ldValue
  rw [h]
  cases address <;> rfl

theorem dataType_of_loadWidth {type : FinshType} (h : type.loadWidth = some .dword) :
    type.dataType = some .dword ∧ type ≠ .unknown := by
  cases type <;> simp [FinshType.loadWidth, FinshType.dataType] at h ⊢

theorem loadId_place (h : x.type.loadWidth = some .dword) :
    loadId isAddr x.id = if isAddr then ld x.address else ldValue x.address := by
  cases x with
  | var self type => exact loadVar_dword h
  | sysvar self type value => exact loadVar_dword h

/-- The node of a variable, as a value or as an address. -/
theorem check_place (isAddr : Bool) (h : x.type.loadWidth = some .dword) (sibling : Node) :
    finshTypeCheck (make (.id x.id) .null sibling) isAddr =
      ⟨.node ⟨.id x.id, .dword, isAddr⟩ .null (finshTypeCheck sibling false).node,
        (finshTypeCheck sibling false).error⟩ := by
  obtain ⟨hdt, hne⟩ := dataType_of_loadWidth h
  have herr : (NodeType.id x.id).leafError = none := by
    cases x <;> simp only [Place.type] at hne <;> simp only [Place.id, NodeType.leafError] <;> split <;> simp_all
  have hleaf : (NodeType.id x.id).leafType = some .dword := by
    cases x <;> exact hdt
  have hsys : (NodeType.id x.id).isSyscall = false := by
    cases x <;> rfl
  simp only [make, finshTypeCheck, Node.dataType, hsys, hleaf, herr, Bool.false_or, Option.getD_some,
    Bool.false_eq_true, if_false]
  cases (finshTypeCheck sibling false).error <;> rfl

/-- A node with a child takes its data type. -/
theorem check_parent {t : NodeType} (hsys : t.isSyscall = false) (sibling : Node) {type : DataType} {e : Option Error}
    (h : finshTypeCheck child (t.childAddress isAddr) = ⟨c, e⟩) (htype : c.dataType = some type) :
    finshTypeCheck (make t child sibling) isAddr =
      ⟨.node ⟨t, type, isAddr⟩ c (finshTypeCheck sibling false).node, (finshTypeCheck sibling false).error <|> e⟩ := by
  simp only [make, finshTypeCheck, h, htype, hsys, Bool.false_or, Bool.false_eq_true, if_false]

theorem error_or_none {e : Option Error} : (e <|> none) = e := by
  cases e <;> rfl

theorem Emitted.andThen_ok {u v : List Byte} : Emitted.andThen ⟨u, none⟩ ⟨v, none⟩ = ⟨u ++ v, none⟩ := rfl

theorem compile_null : finshCompile .null = ⟨[], none⟩ := rfl

/-- The code of an expression with siblings behind it. -/
theorem Compiled.compile (h : Compiled e child) {sibling : Node} {code : List Byte}
    (hs : finshCompile sibling = ⟨code, none⟩) :
    finshCompile (.node ⟨e.nodeType, e.dataType, false⟩ child sibling) = ⟨e.code ++ code, none⟩ := by
  have hassoc : ∀ u v w : Emitted, u.andThen (v.andThen w) = (u.andThen v).andThen w := by
    intro u v w
    simp only [Emitted.andThen, List.append_assoc]
    cases u.error <;> cases v.error <;> cases w.error <;> rfl
  rw [finshCompile, hassoc, h.emitted, hs]
  rfl

theorem dataType_dword (h : e.isDword) : e.dataType = .dword := by
  unfold Expr.dataType
  rw [if_pos h]

theorem compile_place (h : x.type.loadWidth = some .dword) {t : DataType} {sibling : Node} {code : List Byte}
    (hs : finshCompile sibling = ⟨code, none⟩) :
    finshCompile (.node ⟨.id x.id, t, isAddr⟩ .null sibling) =
      ⟨(if isAddr then ld x.address else ldValue x.address) ++ code, none⟩ := by
  simp only [finshCompile, generate, hs, loadId_place h]
  rfl

/-- A node without siblings. -/
theorem Compiled.alone (h : Compiled e child) : finshTypeCheck (make e.nodeType e.child .null) false =
    ⟨.node ⟨e.nodeType, e.dataType, false⟩ child .null, none⟩ := h.checked .null

/-! ## All nodes -/

theorem compiled_const (kind : Constant) (v : Word) : Compiled (.const kind v) .null := by
  constructor
  · intro sibling
    cases kind <;> simp only [Expr.nodeType, Constant.nodeType, Expr.child, make, finshTypeCheck, Node.dataType,
      NodeType.leafType, NodeType.leafError, NodeType.isSyscall, Expr.dataType, Expr.isDword, Option.getD_some] <;>
      cases (finshTypeCheck sibling false).error <;> rfl
  · cases kind <;> rfl

theorem compiled_place (h : x.type.loadWidth = some .dword) : Compiled (.place x) .null := by
  constructor
  · intro sibling
    exact check_place false h sibling
  · simp only [finshCompile, Expr.nodeType, generate, loadId_place h, Expr.code]
    rfl

theorem compiled_addressOf (h : x.type.loadWidth = some .dword) :
    Compiled (.addressOf x) (.node ⟨.id x.id, .dword, true⟩ .null .null) := by
  constructor
  · intro sibling
    rw [Expr.nodeType, Expr.child, check_parent rfl sibling (check_place true h .null) rfl]
    simp only [finshTypeCheck, error_or_none]
    rfl
  · rw [compile_place h compile_null]
    rfl

theorem compiled_deref (hd : p.isDword) (h : Compiled p child) :
    Compiled (.deref p) (.node ⟨p.nodeType, .dword, false⟩ child .null) := by
  have halone := h.alone
  rw [dataType_dword hd] at halone
  constructor
  · intro sibling
    rw [Expr.nodeType, Expr.child, check_parent rfl sibling halone rfl, error_or_none, Expr.dataType, Expr.isDword,
      if_pos hd]
  · have hc := h.compile compile_null
    rw [dataType_dword hd] at hc
    rw [hc, Expr.dataType, Expr.isDword, if_pos hd, Expr.code, List.append_nil]
    rfl

theorem compiled_assign (hx : x.type.loadWidth = some .dword) (h : Compiled e child) :
    Compiled (.assign x e)
      (.node ⟨.id x.id, .dword, true⟩ .null (.node ⟨e.nodeType, e.dataType, false⟩ child .null)) := by
  constructor
  · intro sibling
    have hc := check_place true hx (make e.nodeType e.child .null)
    rw [h.alone] at hc
    rw [Expr.nodeType, Expr.child, check_parent rfl sibling hc rfl, error_or_none]
    rfl
  · rw [compile_place hx (h.compile compile_null), List.append_nil, Expr.code, ← List.append_assoc]
    rfl

theorem compiled_assignAt (hd : p.isDword) (hp : Compiled p c) (h : Compiled e child) :
    Compiled (.assignAt p e) (.node ⟨.sysGetvalue, .dword, true⟩ (.node ⟨p.nodeType, .dword, false⟩ c .null)
      (.node ⟨e.nodeType, e.dataType, false⟩ child .null)) := by
  have halone := hp.alone
  rw [dataType_dword hd] at halone
  constructor
  · intro sibling
    have hc : finshTypeCheck (make .sysGetvalue (make p.nodeType p.child .null) (make e.nodeType e.child .null)) true =
        _ := check_parent rfl (make e.nodeType e.child .null) halone rfl
    rw [h.alone] at hc
    rw [Expr.nodeType, Expr.child, check_parent rfl sibling hc rfl,
      dataType_dword (show (Expr.assignAt p e).isDword from hd)]
    simp only [error_or_none]
  · have hc := hp.compile compile_null
    rw [dataType_dword hd] at hc
    have he := h.compile compile_null
    rw [finshCompile, hc, he, List.append_nil, List.append_nil, Expr.code, ← List.append_assoc]
    rfl

theorem compiled_pre {step : Step} {self : Word} {type : FinshType} (h : type.loadWidth = some .dword) :
    Compiled (.pre step self type) (.node ⟨.id (.var self type), .dword, true⟩ .null .null) := by
  have hx : (Place.var self type).type.loadWidth = some .dword := h
  constructor
  · intro sibling
    have hc : finshTypeCheck (make (.id (.var self type)) .null .null) true = _ := check_place true hx .null
    cases step <;>
    · rw [Expr.nodeType, Expr.child, check_parent rfl sibling hc rfl]
      simp only [finshTypeCheck, error_or_none]
      rfl
  · rw [show NodeType.id (.var self type) = .id (Place.var self type).id from rfl, compile_place hx compile_null]
    cases step <;> rfl

theorem compiled_post {step : Step} {self : Word} {type : FinshType} (h : type.loadWidth = some .dword) :
    Compiled (.post step self type) (.node ⟨.id (.var self type), .dword, false⟩ .null .null) := by
  have hx : (Place.var self type).type.loadWidth = some .dword := h
  constructor
  · intro sibling
    have hc : finshTypeCheck (make (.id (.var self type)) .null .null) false = _ := check_place false hx .null
    cases step <;>
    · rw [Expr.nodeType, Expr.child, check_parent rfl sibling hc rfl]
      simp only [finshTypeCheck, error_or_none]
      rfl
  · rw [show NodeType.id (.var self type) = .id (Place.var self type).id from rfl, compile_place hx compile_null]
    cases step <;> rfl

theorem compiled_bin (hd : a.isDword) (ha : Compiled a c) (hb : Compiled b d) :
    Compiled (.bin op a b) (.node ⟨a.nodeType, .dword, false⟩ c (.node ⟨b.nodeType, b.dataType, false⟩ d .null)) := by
  constructor
  · intro sibling
    have hc := ha.checked (make b.nodeType b.child .null)
    rw [hb.alone, dataType_dword hd] at hc
    rw [Expr.nodeType, Expr.child, check_parent rfl sibling hc rfl, error_or_none,
      dataType_dword (show (Expr.bin op a b).isDword from hd)]
  · have hc := ha.compile (hb.compile compile_null)
    rw [dataType_dword hd] at hc
    rw [hc, dataType_dword (show (Expr.bin op a b).isDword from hd), List.append_nil, Expr.code, ← List.append_assoc]
    rfl

theorem compiled_not (hd : a.isDword) (h : Compiled a child) :
    Compiled (.not a) (.node ⟨a.nodeType, .dword, false⟩ child .null) := by
  have halone := h.alone
  rw [dataType_dword hd] at halone
  constructor
  · intro sibling
    rw [Expr.nodeType, Expr.child, check_parent rfl sibling halone rfl, error_or_none, Expr.dataType, Expr.isDword,
      if_pos hd]
  · have hc := h.compile compile_null
    rw [dataType_dword hd] at hc
    rw [hc, Expr.dataType, Expr.isDword, if_pos hd, Expr.code, List.append_nil]
    rfl

/-- The parameters are the siblings of the function. -/
structure CompiledArgs (args : Args) (node : Node) : Prop where
  checked : finshTypeCheck args.tree false = ⟨node, none⟩
  emitted : finshCompile node = ⟨args.code, none⟩
  count : node.count = args.length

theorem compiled_call {self func : Word} {args : Args} (h : CompiledArgs args child) :
    Compiled (.call self func args) (.node ⟨.id (.syscall self func), .void, false⟩ .null child) := by
  constructor
  · intro sibling
    have hc : finshTypeCheck (make (.id (.syscall self func)) .null args.tree) false =
        ⟨.node ⟨.id (.syscall self func), .void, false⟩ .null child, none⟩ := by
      simp only [make, finshTypeCheck, Node.dataType, h.checked]
      rfl
    rw [Expr.nodeType, Expr.child, check_parent rfl sibling hc rfl, error_or_none]
    rfl
  · simp only [finshCompile, h.emitted, generate, loadId, Expr.nodeType, Expr.code, h.count, Emitted.andThen_ok,
      List.nil_append, ← List.append_assoc]
    rfl

theorem compiled_cons {args : Args} (h : Compiled e c) (hargs : CompiledArgs args child) :
    CompiledArgs (.cons e args) (.node ⟨e.nodeType, e.dataType, false⟩ c child) := by
  constructor
  · rw [Args.tree, h.checked, hargs.checked]
  · exact h.compile hargs.emitted
  · rw [Node.count, hargs.count, Args.length]

mutual

/-- **The compiler emits the code of every expression.** -/
theorem compiled (e : Expr) (h : e.Typed) : ∃ child, Compiled e child := by
  cases e with
  | const kind v => exact ⟨_, compiled_const kind v⟩
  | place x => exact ⟨_, compiled_place h⟩
  | addressOf x => exact ⟨_, compiled_addressOf h⟩
  | deref p =>
    obtain ⟨c, hc⟩ := compiled p h.2
    exact ⟨_, compiled_deref h.1 hc⟩
  | assign x e =>
    obtain ⟨c, hc⟩ := compiled e h.2
    exact ⟨_, compiled_assign h.1 hc⟩
  | assignAt p e =>
    obtain ⟨c, hc⟩ := compiled p h.2.1
    obtain ⟨d, hd⟩ := compiled e h.2.2
    exact ⟨_, compiled_assignAt h.1 hc hd⟩
  | pre step self type => exact ⟨_, compiled_pre h⟩
  | post step self type => exact ⟨_, compiled_post h⟩
  | bin op a b =>
    obtain ⟨c, hc⟩ := compiled a h.2.1
    obtain ⟨d, hd⟩ := compiled b h.2.2
    exact ⟨_, compiled_bin h.1 hc hd⟩
  | not a =>
    obtain ⟨c, hc⟩ := compiled a h.2
    exact ⟨_, compiled_not h.1 hc⟩
  | call self func args =>
    obtain ⟨c, hc⟩ := compiled_args args h
    exact ⟨_, compiled_call hc⟩

theorem compiled_args (args : Args) (h : args.Typed) : ∃ node, CompiledArgs args node := by
  cases args with
  | nil => exact ⟨.null, rfl, rfl, rfl⟩
  | cons e args =>
    obtain ⟨c, hc⟩ := compiled e h.1
    obtain ⟨d, hd⟩ := compiled_args args h.2
    exact ⟨_, compiled_cons hc hd⟩

end

/-! ## A line -/

theorem lineCode_cons {line : List Expr} (h : line ≠ []) :
    lineCode (e :: line) = e.code ++ FINSH_OP_POP :: lineCode line := by
  cases line with
  | nil => exact absurd rfl h
  | cons d line => rfl

/-- The statements of a line after the check. -/
structure CompiledLine (line : List Expr) (node : Node) : Prop where
  checked : finshTypeCheck (root line) false = ⟨node, none⟩
  emitted : compileStatements node = ⟨lineCode line, none⟩
  null_iff : node = .null ↔ line = []

/-- **The code of a line.** -/
theorem compiled_line (line : List Expr) (h : ∀ e ∈ line, e.Typed) : ∃ node, CompiledLine line node := by
  induction line with
  | nil => exact ⟨.null, rfl, rfl, by simp⟩
  | cons e line ih =>
    obtain ⟨child, hc⟩ := compiled e (h e List.mem_cons_self)
    obtain ⟨rest, hrest⟩ := ih fun d hd => h d (List.mem_cons_of_mem _ hd)
    refine ⟨.node ⟨e.nodeType, e.dataType, false⟩ child rest, ?_, ?_, by simp⟩
    · rw [root, hc.checked, hrest.checked]
    · rw [compileStatements, hc.compile compile_null, hrest.emitted, List.append_nil]
      by_cases hl : line = []
      · subst hl
        rw [if_pos (hrest.null_iff.2 rfl), Emitted.andThen_ok, Emitted.andThen_ok]
        simp only [lineCode, List.append_nil]
      · rw [if_neg (fun h0 => hl (hrest.null_iff.1 h0)), Emitted.andThen_ok, Emitted.andThen_ok, lineCode_cons hl]
        rfl

/-- **The text segment of a line that fits.** -/
theorem finshCompilerRun_root {line : List Expr} (h : ∀ e ∈ line, e.Typed)
    (hfit : (lineCode line).length ≤ FINSH_TEXT_MAX) :
    finshCompilerRun (root line) =
      some ⟨lineCode line ++ List.replicate (FINSH_TEXT_MAX - (lineCode line).length) 0, none⟩ := by
  obtain ⟨node, hn⟩ := compiled_line line h
  simp only [finshCompilerRun, hn.checked, hn.emitted, if_pos hfit, error_or_none]

end RtThread.FinshVm
