import RtThread.Proof.FinshVm

/-!
# Room in the text segment

Nothing checks that the code of a line fits in the text segment. There are no more than 16 nodes, and most of them need
five bytes at most; only stepping a variable needs more.

* `length_generate`, `length_compileStatements`: how much code a node has, and a line.
* `finshCompilerRun_fits`: **the code fits** when no more than two of the nodes step a variable, whatever the tree.
-/

namespace RtThread.FinshVm

/-- `++x`, `x++` and the like. -/
def NodeType.isStep : NodeType → Bool
  | .sysPreinc | .sysPredec | .sysInc | .sysDec => true
  | _ => false

/-- How many nodes of a tree are of these. -/
def Node.steps : Node → ℕ
  | .null => 0
  | .node info child sibling => child.steps + sibling.steps + if info.nodeType.isStep then 1 else 0

theorem length_forType {t : DataType} {code : Width → List Byte} {n : ℕ} (h : ∀ w, (code w).length ≤ n) :
    (forType t code).code.length ≤ n := by
  unfold forType
  cases t.width with
  | none => exact Nat.zero_le _
  | some w => exact h w

theorem length_assign (t : DataType) : (assign t).code.length ≤ 5 := by
  unfold assign
  cases t.width with
  | none => exact Nat.zero_le _
  | some w => exact Nat.le_add_left 2 3

theorem length_loadVar {type : FinshType} {value : Word} {address : Bool} :
    (loadVar type value address).length ≤ 5 := by
  unfold loadVar
  cases type.loadWidth with
  | none => exact Nat.zero_le _
  | some w => exact Nat.le_refl 5

theorem length_preStep {op : BinOp} {t : DataType} {value : Word} : (preStep op t value).code.length ≤ 18 := by
  refine length_forType fun w => ?_
  cases w <;> simp [loadOne, FINSH_SET32]

theorem length_postStep {op : BinOp} {t : DataType} {value : Word} : (postStep op t value).code.length ≤ 18 := by
  refine length_forType fun w => ?_
  cases w <;> simp [loadOne, FINSH_SET32]

theorem length_getD {e : Option Emitted} {n : ℕ} (h : ∀ d ∈ e, d.code.length ≤ n) :
    (e.getD ⟨[], none⟩).code.length ≤ n := by
  cases e with
  | none => exact Nat.zero_le _
  | some d => exact h d rfl

/-- **One node** needs five bytes, and 13 more to step a variable. -/
theorem length_generate (info : Info) (child : Node) :
    (generate info child).code.length ≤ 5 + 13 * if info.nodeType.isStep then 1 else 0 := by
  have hstep : ∀ step : Word → Emitted, (∀ value, (step value).code.length ≤ 18) →
      ((child.asVar.map step).getD ⟨[], none⟩).code.length ≤ 18 := by
    intro step h
    apply length_getD
    intro d hd
    obtain ⟨value, -, rfl⟩ := Option.map_eq_some_iff.1 hd
    exact h value
  have hfive : ∀ {n : ℕ} (k : ℕ), n ≤ 5 → n ≤ 5 + k := fun k h => h.trans (Nat.le_add_right 5 k)
  obtain ⟨nodeType, dataType, address⟩ := info
  cases nodeType with
  | id id =>
    cases id with
    | var self type => exact length_loadVar
    | sysvar self type var => exact length_loadVar
    | syscall self func => exact Nat.le_refl 5
  | sys op => exact hfive _ (length_forType fun w => by simp)
  | sysBitwise => exact hfive _ (length_forType fun w => by simp)
  | sysFunc =>
    refine hfive _ ?_
    cases child <;> simp [generate]
  | sysAssign =>
    refine hfive _ ?_
    simp only [generate]
    split
    · exact length_assign _
    · exact length_assign _
    · exact Nat.zero_le _
  | sysPreinc => exact hstep _ fun value => length_preStep
  | sysPredec => exact hstep _ fun value => length_preStep
  | sysInc => exact hstep _ fun value => length_postStep
  | sysDec => exact hstep _ fun value => length_postStep
  | sysGetvalue =>
    refine hfive _ ?_
    simp only [generate]
    split
    · exact Nat.zero_le _
    · exact length_forType fun w => by simp
  | _ => exact hfive _ (by simp [generate, FINSH_SET32])

theorem length_finshCompile (t : Node) : (finshCompile t).code.length ≤ 5 * t.size + 13 * t.steps := by
  induction t with
  | null => exact Nat.zero_le _
  | node info child sibling ihc ihs =>
    have hg := length_generate info child
    simp only [finshCompile, Emitted.andThen, List.length_append, Node.size, Node.steps]
    omega

/-- A pop for every statement but the last. -/
theorem length_compileStatements (t : Node) :
    (compileStatements t).code.length ≤ 6 * t.size + 13 * t.steps - 1 := by
  induction t with
  | null => exact Nat.zero_le _
  | node info child sibling _ ihs =>
    have hc := length_finshCompile (.node info child .null)
    simp only [Node.size, Node.steps] at hc
    simp only [compileStatements, Emitted.andThen, List.length_append, Node.size, Node.steps]
    split
    · rename_i h
      subst h
      simp only [compileStatements, List.length_nil, Node.size, Node.steps]
      omega
    · rename_i h
      have hpos : 0 < sibling.size := by
        cases sibling with
        | null => exact absurd rfl h
        | node info child sibling => exact Nat.succ_pos _
      simp only [List.length_cons, List.length_nil]
      omega

/-- The check leaves the shape of a tree as it is. -/
theorem shape_finshTypeCheck (t : Node) (isAddr : Bool) :
    (finshTypeCheck t isAddr).node.size = t.size ∧ (finshTypeCheck t isAddr).node.steps = t.steps := by
  induction t generalizing isAddr with
  | null => exact ⟨rfl, rfl⟩
  | node info child sibling ihc ihs =>
    obtain ⟨hc, hc'⟩ := ihc (info.nodeType.childAddress isAddr)
    obtain ⟨hs, hs'⟩ := ihs false
    simp only [finshTypeCheck]
    split <;> exact ⟨by simp only [Node.size, hc, hs], by simp only [Node.steps, hc', hs']⟩

/-- **The code fits in the text segment** when no more than two of the nodes step a variable, whatever the tree. -/
theorem finshCompilerRun_fits (root : Node) (hsize : root.size ≤ FINSH_NODE_MAX) (hsteps : root.steps ≤ 2) :
    (finshCompilerRun root).isSome := by
  obtain ⟨h1, h2⟩ := shape_finshTypeCheck root false
  have hlen := length_compileStatements (finshTypeCheck root false).node
  rw [h1, h2] at hlen
  rw [FINSH_NODE_MAX] at hsize
  have hfit : (compileStatements (finshTypeCheck root false).node).code.length ≤ FINSH_TEXT_MAX := by
    rw [FINSH_TEXT_MAX]
    omega
  unfold finshCompilerRun
  rw [if_pos hfit]
  rfl

theorem finshCompilerRun_fits_product : (finshCompilerRun (root product)).isSome :=
  finshCompilerRun_fits (root product) (by decide) (by decide)

/-- Three times `a++;` and ten constants are 16 nodes, and do not fit. -/
example : finshCompilerRun (root (List.replicate 3 (.post .inc 0x2000 .int) ++
    List.replicate 10 (.const .int 1))) = none := by
  set_option maxRecDepth 20000 in decide

end RtThread.FinshVm
