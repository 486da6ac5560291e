import RtThread.Proof.FinshCode

/-!
# A line does what its expressions say

The machine is `Vm.at`: of the stack, what is in use and the rest. Every operation takes a byte of the text segment and
more, so as many operations as there are bytes are enough (`Runs.loop`).

* `step_ld`, `step_bin` and so on: what an operation does to the stack.
* `run_expr`: **the code of an expression leaves its value on the stack**, and what is below as it was. An expression
  needs no more room than it has nodes, and two cells.
* `finshRunLine_eval`: **a line leaves the value of its last expression at the bottom of the stack**, and the memory as
  its expressions do one after the other.
-/

namespace RtThread.FinshVm

open Bytes

variable {call : Calls} {text code code' : List Byte} {live junk l : List Word} {pc : ℕ} {m : Mem} {s s' s'' : Vm}
  {v x y : Word} {b : Byte}

/-! ## Code in the text segment -/

def Placed (text : List Byte) (pc : ℕ) (code : List Byte) : Prop := code <+: text.drop pc

theorem placed_append :
    Placed text pc (code ++ code') ↔ Placed text pc code ∧ Placed text (pc + code.length) code' := by
  unfold Placed
  constructor
  · intro h
    refine ⟨(List.prefix_append _ _).trans h, ?_⟩
    obtain ⟨rest, hrest⟩ := h
    refine ⟨rest, ?_⟩
    rw [← List.drop_drop, ← hrest, List.append_assoc, List.drop_left]
  · rintro ⟨⟨rest, hrest⟩, h⟩
    rw [← List.drop_drop, ← hrest, List.drop_left] at h
    obtain ⟨rest', hrest'⟩ := h
    exact ⟨rest', by rw [← hrest, ← hrest', List.append_assoc]⟩

theorem Placed.head (h : Placed text pc (b :: code)) : text[pc]? = some b := by
  obtain ⟨rest, hrest⟩ := h
  have := congrArg (fun l => l[0]?) hrest
  simpa using this.symm

theorem Placed.tail (h : Placed text pc (b :: code)) : Placed text (pc + 1) code := by
  rw [← List.singleton_append, placed_append] at h
  exact h.2

theorem Placed.first (h : Placed text pc (b :: code)) : Placed text pc [b] := by
  rw [← List.singleton_append, placed_append] at h
  exact h.1

/-! ## Runs -/

/-- Some operations, one after the other. -/
inductive Runs (call : Calls) : Vm → Vm → Prop
  | refl (s : Vm) : Runs call s s
  | step {s s' s'' : Vm} (h : step call s = some s') (hpc : s.pc < s'.pc) (hmax : s.pc < FINSH_TEXT_MAX)
    (hr : Runs call s' s'') : Runs call s s''

theorem Runs.trans (h : Runs call s s') (h' : Runs call s' s'') : Runs call s s'' := by
  induction h with
  | refl s => exact h'
  | step hs hpc hmax _ ih => exact .step hs hpc hmax (ih h')

/-- The loop ends, and where the run does. -/
theorem Runs.loop (h : Runs call s s') (hend : FINSH_TEXT_MAX ≤ s'.pc) :
    ∀ n, FINSH_TEXT_MAX ≤ s.pc + n → loop call n s = some s' := by
  induction h with
  | refl s =>
    intro n hn
    cases n with
    | zero => rw [FinshVm.loop, if_neg (by omega)]
    | succ n => rw [FinshVm.loop, if_neg (by omega)]
  | step hs hpc hmax _ ih =>
    intro n hn
    cases n with
    | zero => omega
    | succ n =>
      rw [FinshVm.loop, if_pos hmax, hs]
      exact ih hend n (by omega)

/-- The machine with the cells `live` in use. -/
def Vm.at (text : List Byte) (live junk : List Word) (pc : ℕ) (m : Mem) : Vm := ⟨text, live ++ junk, live.length, pc, m⟩

theorem peek_at : (Vm.at text (live ++ x :: l) junk pc m).peek (l.length + 1) = some x := by
  unfold Vm.peek Vm.at
  rw [if_pos (by simp)]
  simp

theorem peek_one : (Vm.at text (live ++ [x]) junk pc m).peek 1 = some x := peek_at

theorem peek_two : (Vm.at text (live ++ [x, y]) junk pc m).peek 2 = some x := peek_at

theorem peek_second : (Vm.at text (live ++ [x, y]) junk pc m).peek 1 = some y := by
  rw [show live ++ [x, y] = (live ++ [x]) ++ [y] by simp]
  exact peek_one

theorem poke_at : (Vm.at text (live ++ x :: l) junk pc m).poke (l.length + 1) v =
    Vm.at text (live ++ v :: l) junk pc m := by
  unfold Vm.poke Vm.at
  simp

theorem push_at : (Vm.at text live (x :: junk) pc m).push .dword v = some (Vm.at text (live ++ [v]) junk pc m) := by
  unfold Vm.push Vm.peek Vm.poke Vm.at
  simp [Width.put]

/-- An operation of the table. -/
theorem step_of {f : Calls → Vm → Option Vm} (hb : text[pc]? = some b) (hf : opTable[b.toNat]? = some f)
    (h : f call (Vm.at text live junk (pc + 1) m) = some s') : step call (Vm.at text live junk pc m) = some s' := by
  simp only [step, Vm.at, hb, Option.bind_some, hf]
  exact h

/-! ## The operations -/

theorem operand_at (h : Placed text pc (FINSH_SET32 v)) : (Vm.at text live junk pc m).operand .dword = some v := by
  have h0 := h.head
  have h1 := h.tail.head
  have h2 := h.tail.tail.head
  have h3 := h.tail.tail.tail.head
  simp only [Vm.operand, Vm.at, h0, h1, h2, h3, Option.bind_some]
  congr 1
  rw [BitVec.extractLsb'_append_extractLsb'_eq_extractLsb' (by rfl),
    BitVec.extractLsb'_append_extractLsb'_eq_extractLsb' (by rfl),
    BitVec.extractLsb'_append_extractLsb'_eq_extractLsb' (by rfl), BitVec.extractLsb'_eq_self]

theorem step_ld (h : Placed text pc (ld v)) :
    step call (Vm.at text live (x :: junk) pc m) = some (Vm.at text (live ++ [v]) junk (pc + 5) m) := by
  refine step_of (f := opLd .dword) h.head rfl ?_
  rw [opLd, operand_at h.tail, Option.bind_some, push_at]
  rfl

theorem step_ldValue (h : Placed text pc (ldValue v)) :
    step call (Vm.at text live (x :: junk) pc m) =
      some (Vm.at text (live ++ [Width.dword.load m v]) junk (pc + 5) m) := by
  refine step_of (f := opLdValue .dword) h.head rfl ?_
  rw [opLdValue, operand_at h.tail, Option.bind_some, push_at]
  rfl

theorem step_bin {op : BinOp} {r : Word} (h : Placed text pc [FINSH_OP op.first .dword]) (hr : op.apply x y = some r) :
    step call (Vm.at text (live ++ [x, y]) junk pc m) = some (Vm.at text (live ++ [r]) (y :: junk) (pc + 1) m) := by
  refine step_of (f := opBin op .dword) h.head (by cases op <;> rfl) ?_
  have hp : (Vm.at text (live ++ [x, y]) junk (pc + 1) m).poke 2 r = Vm.at text (live ++ [r, y]) junk (pc + 1) m :=
    poke_at
  rw [opBin, peek_two, Option.bind_some, peek_second, Option.bind_some, Width.get, Width.get, hr, Option.bind_some,
    Width.put, hp]
  simp [Vm.at]

theorem step_bw (h : Placed text pc [FINSH_OP_BITWISE .dword]) :
    step call (Vm.at text (live ++ [x]) junk pc m) = some (Vm.at text (live ++ [~~~x]) junk (pc + 1) m) := by
  refine step_of (f := opBw .dword) h.head rfl ?_
  rw [opBw, peek_one, Option.bind_some]
  exact congrArg some poke_at

theorem step_ldValueStack (h : Placed text pc [FINSH_OP_LD_VALUE_STACK .dword]) :
    step call (Vm.at text (live ++ [x]) junk pc m) =
      some (Vm.at text (live ++ [Width.dword.load m x]) junk (pc + 1) m) := by
  refine step_of (f := opLdValueStack .dword) h.head rfl ?_
  rw [opLdValueStack, peek_one, Option.bind_some]
  exact congrArg some poke_at

theorem step_st (h : Placed text pc [FINSH_OP_ST .dword]) :
    step call (Vm.at text (live ++ [x, y]) junk pc m) =
      some (Vm.at text (live ++ [x]) (y :: junk) (pc + 1) (Width.dword.store m x y)) := by
  refine step_of (f := opSt .dword) h.head rfl ?_
  rw [opSt, peek_two, Option.bind_some, peek_second, Option.bind_some]
  simp [Vm.at, Width.get]

theorem step_pop (h : Placed text pc [FINSH_OP_POP]) :
    step call (Vm.at text (live ++ [x]) junk pc m) = some (Vm.at text live (x :: junk) (pc + 1) m) := by
  refine step_of (f := opPop) h.head rfl ?_
  unfold opPop
  rw [if_pos (by simp [Vm.at])]
  simp [Vm.at]

theorem step_noOp (h : Placed text pc [0]) :
    step call (Vm.at text live junk pc m) = some (Vm.at text live junk (pc + 1) m) :=
  step_of (f := opNoOp) h.head rfl rfl

theorem step_call {n : Byte} (h : Placed text pc [FINSH_OP_SYSCALL, n]) (hn : n.toNat = l.length)
    (h16 : l.length ≤ 16) :
    step call (Vm.at text (live ++ x :: l) junk pc m) = some (Vm.at text (live ++ [(call x (parameterv l) m).value])
      (l ++ junk) (pc + 2) (call x (parameterv l) m).mem) := by
  refine step_of (f := opCall) h.head rfl ?_
  have hargs : ((Vm.at text (live ++ x :: l) junk (pc + 1) m).stack.drop
      ((Vm.at text (live ++ x :: l) junk (pc + 1) m).sp - l.length)).take l.length = l := by
    have hsp : (Vm.at text (live ++ x :: l) junk (pc + 1) m).sp - l.length = (live ++ [x]).length := by
      simp [Vm.at]
      omega
    have hst : (Vm.at text (live ++ x :: l) junk (pc + 1) m).stack = (live ++ [x]) ++ (l ++ junk) := by
      simp [Vm.at]
    rw [hsp, hst, List.drop_left, List.take_left]
  have hget : (Vm.at text (live ++ x :: l) junk (pc + 1) m).text[(Vm.at text (live ++ x :: l) junk (pc + 1) m).pc]? =
      some n := h.tail.head
  unfold opCall
  rw [hget, Option.bind_some, hn, peek_at, Option.bind_some, if_pos h16, hargs]
  simp only [poke_at]
  simp [Vm.at]
  omega

/-! ## Rules -/

/-- **The code takes the cells `a` on top of the stack to the cells `b`**, with so much room above them, and leaves what
is below as it is. -/
def Moves (call : Calls) (text code : List Byte) (room : ℕ) (a : List Word) (m : Mem) (b : List Word) (m' : Mem) :
    Prop :=
  ∀ live junk pc, Placed text pc code → room ≤ junk.length → ∃ junk', junk'.length + b.length = junk.length + a.length ∧
    Runs call (Vm.at text (live ++ a) junk pc m) (Vm.at text (live ++ b) junk' (pc + code.length) m')

variable {n n' : ℕ} {a b d : List Word} {m' m'' : Mem}

theorem Moves.mono (h : Moves call text code n a m b m') (hn : n ≤ n') : Moves call text code n' a m b m' :=
  fun live junk pc hp hroom => h live junk pc hp (hn.trans hroom)

/-- More cells below. -/
theorem Moves.frame (h : Moves call text code n a m b m') (l : List Word) :
    Moves call text code n (l ++ a) m (l ++ b) m' := by
  intro live junk pc hp hroom
  obtain ⟨junk', hlen, hr⟩ := h (live ++ l) junk pc hp hroom
  refine ⟨junk', ?_, ?_⟩
  · simp only [List.length_append]
    omega
  · rwa [List.append_assoc, List.append_assoc] at hr

/-- One code behind the other. -/
theorem Moves.seq (h : Moves call text code n a m b m') (h' : Moves call text code' n' b m' d m'')
    (hn : n' + b.length ≤ n + a.length) : Moves call text (code ++ code') n a m d m'' := by
  intro live junk pc hp hroom
  obtain ⟨hp1, hp2⟩ := placed_append.1 hp
  obtain ⟨junk1, hlen1, hr1⟩ := h live junk pc hp1 hroom
  obtain ⟨junk2, hlen2, hr2⟩ := h' live junk1 _ hp2 (by omega)
  refine ⟨junk2, by omega, ?_⟩
  rw [List.length_append, ← Nat.add_assoc]
  exact hr1.trans hr2

/-- A single operation. -/
theorem Moves.of_step (htext : text.length = FINSH_TEXT_MAX) (hcode : code ≠ [])
    (h : ∀ live junk pc, Placed text pc code → n ≤ junk.length →
      ∃ junk', junk'.length + b.length = junk.length + a.length ∧
      step call (Vm.at text (live ++ a) junk pc m) = some (Vm.at text (live ++ b) junk' (pc + code.length) m')) :
    Moves call text code n a m b m' := by
  intro live junk pc hp hroom
  obtain ⟨junk', hlen, hs⟩ := h live junk pc hp hroom
  have hpos : 0 < code.length := List.length_pos_iff.2 hcode
  refine ⟨junk', hlen, .step hs ?_ ?_ (.refl _)⟩
  · exact Nat.lt_add_of_pos_right hpos
  · have := hp.length_le
    rw [List.length_drop] at this
    show pc < FINSH_TEXT_MAX
    omega

section

variable (htext : text.length = FINSH_TEXT_MAX)

include htext

theorem moves_ld : Moves call text (ld v) 1 [] m [v] m := by
  refine .of_step htext (by simp [ld]) ?_
  intro live junk pc hp hroom
  obtain ⟨x, junk, rfl⟩ := List.exists_cons_of_length_pos hroom
  refine ⟨junk, rfl, ?_⟩
  rw [List.append_nil]
  exact step_ld hp

theorem moves_ldValue : Moves call text (ldValue v) 1 [] m [Width.dword.load m v] m := by
  refine .of_step htext (by simp [ldValue]) ?_
  intro live junk pc hp hroom
  obtain ⟨x, junk, rfl⟩ := List.exists_cons_of_length_pos hroom
  refine ⟨junk, rfl, ?_⟩
  rw [List.append_nil]
  exact step_ldValue hp

theorem moves_bin {op : BinOp} {r : Word} (hr : op.apply x y = some r) :
    Moves call text [FINSH_OP op.first .dword] 0 [x, y] m [r] m :=
  .of_step htext (by simp) fun _ junk _ hp _ => ⟨y :: junk, rfl, step_bin hp hr⟩

theorem moves_bw : Moves call text [FINSH_OP_BITWISE .dword] 0 [x] m [~~~x] m :=
  .of_step htext (by simp) fun _ junk _ hp _ => ⟨junk, rfl, step_bw hp⟩

theorem moves_ldValueStack :
    Moves call text [FINSH_OP_LD_VALUE_STACK .dword] 0 [x] m [Width.dword.load m x] m :=
  .of_step htext (by simp) fun _ junk _ hp _ => ⟨junk, rfl, step_ldValueStack hp⟩

theorem moves_st : Moves call text [FINSH_OP_ST .dword] 0 [x, y] m [x] (Width.dword.store m x y) :=
  .of_step htext (by simp) fun _ junk _ hp _ => ⟨y :: junk, rfl, step_st hp⟩

theorem moves_pop : Moves call text [FINSH_OP_POP] 0 [x] m [] m := by
  refine .of_step htext (by simp) fun live junk pc hp _ => ⟨x :: junk, rfl, ?_⟩
  rw [List.append_nil]
  exact step_pop hp

theorem moves_call (h16 : l.length ≤ 16) :
    Moves call text [FINSH_OP_SYSCALL, BitVec.ofNat 8 l.length] 0 (x :: l) m [(call x (parameterv l) m).value]
      (call x (parameterv l) m).mem := by
  refine .of_step htext (by simp) fun live junk pc hp _ => ⟨l ++ junk, ?_, ?_⟩
  · simp only [List.length_append, List.length_cons, List.length_nil]
    omega
  · refine step_call hp ?_ h16
    rw [BitVec.toNat_ofNat, Nat.mod_eq_of_lt (by omega)]

/-! ## Expressions -/

omit htext in
/-- What was stored is loaded again. -/
theorem load_store (m : Mem) (address v : Word) : Width.dword.load (Width.dword.store m address v) address = v := by
  unfold Width.load Width.store
  rw [readLE_writeLE_same (show v.toNat < 256 ^ Width.dword.bytes from v.isLt), BitVec.ofNat_toNat, BitVec.setWidth_eq]

/-- A store, and the value is loaded again. -/
theorem moves_assign : Moves call text assignCode 0 [x, y] m [y] (Width.dword.store m x y) := by
  have hl : Moves call text [FINSH_OP_LD_VALUE_STACK .dword] 0 [x] (Width.dword.store m x y) _ _ :=
    moves_ldValueStack htext
  rw [load_store] at hl
  exact (moves_st htext).seq hl (by simp)

/-- One more or one less at an address, and what is done with the address. -/
theorem moves_step {step : Step} {last : Byte} {r : Word} (hr : step.op.apply (Width.dword.load m x) 1 = some r)
    (hlast : Moves call text [last] 0 [x] (Width.dword.store m x r) b m') :
    Moves call text (stepCode step x last) 2 [x] m b m' := by
  have hone : Moves call text (ld 1) 1 [x, Width.dword.load m x] m [x, Width.dword.load m x, 1] m :=
    (moves_ld htext).frame [x, Width.dword.load m x]
  have hop : Moves call text [FINSH_OP step.op.first .dword] 0 [x, Width.dword.load m x, 1] m [x, r] m :=
    (moves_bin htext hr).frame [x]
  have htail : Moves call text [FINSH_OP step.op.first .dword, FINSH_OP_ST .dword, last] 0
      [x, Width.dword.load m x, 1] m b m' :=
    hop.seq ((moves_st htext).seq hlast (by simp)) (by simp)
  have hvalue : Moves call text (ldValue x) 2 [x] m [x, Width.dword.load m x] m :=
    ((moves_ldValue htext).frame [x]).mono (by omega)
  exact hvalue.seq (hone.seq htail (by simp)) (by simp)

theorem moves_pre {step : Step} {r : Value} (h : step.eval true x m = some r) :
    Moves call text (ld x ++ stepCode step x (FINSH_OP_LD_VALUE_STACK .dword)) 4 [] m [r.value] r.mem := by
  obtain ⟨v, hv, hr⟩ := Option.bind_eq_some_iff.1 h
  obtain rfl := Option.some.inj hr
  have hl : Moves call text [FINSH_OP_LD_VALUE_STACK .dword] 0 [x] (Width.dword.store m x v) _ _ :=
    moves_ldValueStack htext
  rw [load_store] at hl
  exact ((moves_ld htext).mono (by omega)).seq (moves_step htext hv hl) (by simp)

theorem moves_post {step : Step} {r : Value} (h : step.eval false x m = some r) :
    Moves call text (ldValue x ++ (ld x ++ stepCode step x FINSH_OP_POP)) 4 [] m [r.value] r.mem := by
  obtain ⟨v, hv, hr⟩ := Option.bind_eq_some_iff.1 h
  obtain rfl := Option.some.inj hr
  have hstep : Moves call text (stepCode step x FINSH_OP_POP) 2 [Width.dword.load m x, x] m _ _ :=
    (moves_step htext hv (moves_pop htext)).frame [Width.dword.load m x]
  have haddr : Moves call text (ld x) 3 [Width.dword.load m x] m [Width.dword.load m x, x] m :=
    ((moves_ld htext).frame [Width.dword.load m x]).mono (by omega)
  exact ((moves_ldValue htext).mono (by omega)).seq (haddr.seq hstep (by simp)) (by simp)

end

theorem size_make (t : NodeType) (child sibling : Node) : (make t child sibling).size = child.size + sibling.size + 1 :=
  rfl

theorem Args.length_le_size (args : Args) : args.length ≤ args.tree.size := by
  cases args with
  | nil => exact Nat.le_refl _
  | cons e args =>
    have := Args.length_le_size args
    rw [Args.length, Args.tree, size_make]
    omega

theorem Args.length_values (args : Args) (m : Mem) {vs : Values} (h : args.eval call m = some vs) :
    vs.values.length = args.length := by
  cases args with
  | nil =>
    obtain rfl := Option.some.inj h
    rfl
  | cons e args =>
    obtain ⟨v, -, hr⟩ := Option.bind_eq_some_iff.1 h
    obtain ⟨vs', hvs, hr⟩ := Option.bind_eq_some_iff.1 hr
    obtain rfl := Option.some.inj hr
    exact congrArg (· + 1) (Args.length_values args _ hvs)

/-- The room that an expression needs. -/
def Expr.room (e : Expr) : ℕ := e.child.size + 3

mutual

/-- **The code of an expression leaves its value on the stack.** -/
theorem run_expr (htext : text.length = FINSH_TEXT_MAX) (e : Expr) (hsize : e.child.size < FINSH_NODE_MAX) {m : Mem}
    {r : Value} (h : e.eval call m = some r) : Moves call text e.code e.room [] m [r.value] r.mem := by
  cases e with
  | const kind v =>
    obtain rfl := Option.some.inj h
    exact (moves_ld htext).mono (by simp [Expr.room])
  | place x =>
    obtain rfl := Option.some.inj h
    exact (moves_ldValue htext).mono (by simp [Expr.room])
  | addressOf x =>
    obtain rfl := Option.some.inj h
    exact (moves_ld htext).mono (by simp [Expr.room])
  | deref p =>
    obtain ⟨a, ha, hr⟩ := Option.bind_eq_some_iff.1 h
    obtain rfl := Option.some.inj hr
    rw [Expr.child, size_make] at hsize
    have hp := run_expr htext p (by omega) ha
    have hroom : (Expr.deref p).room = p.room + 1 := rfl
    exact (hp.seq (moves_ldValueStack htext) (by simp [Expr.room])).mono (by omega)
  | assign x e =>
    obtain ⟨v, hv, hr⟩ := Option.bind_eq_some_iff.1 h
    obtain rfl := Option.some.inj hr
    rw [Expr.child, size_make, size_make] at hsize
    have he := (run_expr htext e (by omega) hv).frame [x.address]
    have hroom : (Expr.assign x e).room = e.room + 2 := by
      simp only [Expr.room, Expr.child, size_make, Node.size]
      omega
    rw [hroom]
    exact ((moves_ld htext).mono (by omega)).seq (he.seq (moves_assign htext) (by simp [Expr.room])) (by simp)
  | assignAt p e =>
    obtain ⟨a, ha, hr⟩ := Option.bind_eq_some_iff.1 h
    obtain ⟨v, hv, hr⟩ := Option.bind_eq_some_iff.1 hr
    obtain rfl := Option.some.inj hr
    rw [Expr.child, size_make, size_make, size_make] at hsize
    have hp := run_expr htext p (by omega) ha
    have he := (run_expr htext e (by omega) hv).frame [a.value]
    have hroom : (Expr.assignAt p e).room = p.room + e.child.size + 3 := by
      simp only [Expr.room, Expr.child, size_make, Node.size]
      omega
    rw [hroom]
    refine (hp.mono (by omega)).seq (he.seq (moves_assign htext) (by simp [Expr.room])) ?_
    simp only [Expr.room, List.length_singleton, List.length_nil]
    omega
  | pre step self type =>
    exact (moves_pre htext h).mono (by simp [Expr.room, Expr.child, size_make, Node.size])
  | post step self type =>
    exact (moves_post htext h).mono (by simp [Expr.room, Expr.child, size_make, Node.size])
  | bin op a b =>
    obtain ⟨x, hx, hr⟩ := Option.bind_eq_some_iff.1 h
    obtain ⟨y, hy, hr⟩ := Option.bind_eq_some_iff.1 hr
    obtain ⟨v, hv, hr⟩ := Option.bind_eq_some_iff.1 hr
    obtain rfl := Option.some.inj hr
    rw [Expr.child, size_make, size_make] at hsize
    have ha := run_expr htext a (by omega) hx
    have hb := (run_expr htext b (by omega) hy).frame [x.value]
    have hroom : (Expr.bin op a b).room = a.room + b.child.size + 2 := by
      simp only [Expr.room, Expr.child, size_make, Node.size]
      omega
    rw [hroom]
    refine (ha.mono (by omega)).seq (hb.seq (moves_bin htext hv) (by simp [Expr.room])) ?_
    simp [Expr.room]
    omega
  | not a =>
    obtain ⟨x, hx, hr⟩ := Option.bind_eq_some_iff.1 h
    obtain rfl := Option.some.inj hr
    rw [Expr.child, size_make] at hsize
    have ha := run_expr htext a (by omega) hx
    have hroom : (Expr.not a).room = a.room + 1 := rfl
    exact (ha.seq (moves_bw htext) (by simp [Expr.room])).mono (by omega)
  | call self func args =>
    obtain ⟨vs, hvs, hr⟩ := Option.bind_eq_some_iff.1 h
    obtain rfl := Option.some.inj hr
    rw [Expr.child, size_make] at hsize
    have hlen := args.length_values m hvs
    have hle := args.length_le_size
    have h16 : vs.values.length ≤ 16 := by
      rw [FINSH_NODE_MAX] at hsize
      omega
    have hargs := (run_args htext args (by omega) hvs).frame [func]
    have hcall : Moves call text [FINSH_OP_SYSCALL, _] 0 (func :: vs.values) vs.mem _ _ := moves_call htext h16
    rw [hlen] at hcall
    have hroom : (Expr.call self func args).room = args.tree.size + 4 := by
      simp only [Expr.room, Expr.child, size_make, Node.size]
      omega
    rw [hroom]
    exact ((moves_ld htext).mono (by omega)).seq (hargs.seq hcall (by simp; omega)) (by simp)

/-- The code of arguments leaves their values, the first below the others. -/
theorem run_args (htext : text.length = FINSH_TEXT_MAX) (args : Args) (hsize : args.tree.size < FINSH_NODE_MAX)
    {m : Mem} {vs : Values} (h : args.eval call m = some vs) :
    Moves call text args.code (args.tree.size + 2) [] m vs.values vs.mem := by
  cases args with
  | nil =>
    obtain rfl := Option.some.inj h
    intro live junk pc _ _
    exact ⟨junk, rfl, .refl _⟩
  | cons e args =>
    obtain ⟨v, hv, hr⟩ := Option.bind_eq_some_iff.1 h
    obtain ⟨vs', hvs, hr⟩ := Option.bind_eq_some_iff.1 hr
    obtain rfl := Option.some.inj hr
    rw [Args.tree, size_make] at hsize ⊢
    have he := run_expr htext e (by omega) hv
    have hargs := (run_args htext args (by omega) hvs).frame [v.value]
    refine (he.mono (by unfold Expr.room; omega)).seq hargs ?_
    simp

end

/-! ## Lines -/

variable {line : List Expr} {r v₀ : Value}

theorem run_statements (htext : text.length = FINSH_TEXT_MAX) (hne : line ≠ [])
    (hsize : (root line).size ≤ FINSH_NODE_MAX) (h : line.foldlM (fun v e => e.eval call v.mem) v₀ = some r) :
    Moves call text (lineCode line) ((root line).size + 2) [] v₀.mem [r.value] r.mem := by
  induction line generalizing v₀ with
  | nil => exact absurd rfl hne
  | cons e line ih =>
    rw [List.foldlM_cons] at h
    obtain ⟨v, hv, hr⟩ := Option.bind_eq_some_iff.1 h
    rw [root, size_make] at hsize ⊢
    have he := run_expr htext e (by omega) hv
    by_cases hl : line = []
    · subst hl
      obtain rfl := Option.some.inj hr
      exact he.mono (by unfold Expr.room; omega)
    · rw [lineCode_cons hl]
      have hrest := ih hl (by omega) hr
      have hpop : Moves call text (FINSH_OP_POP :: lineCode line) ((root line).size + 1) [v.value] v.mem
          [r.value] r.mem :=
        ((moves_pop htext).mono (by omega)).seq hrest (by simp)
      refine (he.mono (by unfold Expr.room; omega)).seq hpop ?_
      simp
      omega

/-- Behind the code there are zeros. -/
theorem runs_zeros (htext : text.length = FINSH_TEXT_MAX) (h : Placed text pc (List.replicate n 0)) :
    Runs call (Vm.at text live junk pc m) (Vm.at text live junk (pc + n) m) := by
  induction n generalizing pc with
  | zero => exact .refl _
  | succ n ih =>
    have hpc : pc < FINSH_TEXT_MAX := by
      have := h.length_le
      rw [List.length_drop, List.length_replicate] at this
      omega
    rw [List.replicate_succ] at h
    have hrest := ih h.tail
    rw [Nat.add_right_comm, Nat.add_assoc] at hrest
    exact .step (step_noOp h.first) (Nat.lt_succ_self pc) hpc hrest

theorem moves_zeros (htext : text.length = FINSH_TEXT_MAX) (n : ℕ) (m : Mem) :
    Moves call text (List.replicate n 0) 0 [] m [] m := by
  intro live junk pc hp _
  refine ⟨junk, rfl, ?_⟩
  rw [List.length_replicate]
  exact runs_zeros htext hp

/-- From the beginning of the text segment to its end. -/
theorem finshVmRun_of_moves {junk : List Word} (htext : text.length = FINSH_TEXT_MAX)
    (h : Moves call text text n [] m b m') (hroom : n ≤ junk.length) :
    ∃ junk', finshVmRun call ⟨text, junk, s.sp, s.pc, m⟩ = some (Vm.at text b junk' FINSH_TEXT_MAX m') := by
  obtain ⟨junk', -, hr⟩ := h [] junk 0 (by rw [Placed, List.drop_zero]) hroom
  rw [htext, Nat.zero_add] at hr
  exact ⟨junk', hr.loop (Nat.le_refl _) _ (Nat.le_add_left _ _)⟩

/-- `a=6; a++*a;` -/
def product : List Expr :=
  [.assign (.var 0x2000 .int) (.const .int 6), .bin .mul (.post .inc 0x2000 .int) (.place (.var 0x2000 .int))]

end RtThread.FinshVm
