import RtThread.Proof.FinshHeap
import RtThread.Spec.FinshStrings

/-!
# The string literals of a line stay alive

* `Sim`: the heap while a line is parsed, and the plan for its literals.
* `sim_collect`, `sim_place`: a collection that spares the literals, and a literal that is placed.
* `strings_alive`: **the literals are alive at every point of a line if and only if the heap is large enough for it.**
-/

namespace RtThread.FinshHeap

open FreeList Bytes State

variable {s s' s₀ : State} {free used free' used₀ : List Range} {r : Range} {heap size lo i : ℕ} {vars : List ℕ}
  {done line : List Item} {n : Session} {p : Plan} {l : Literal}

theorem ranges_eq {h : Option ℕ} {l : List Range} (hl : s.Lists h l) (hk : l.length < rounds) : s.ranges h = l := by
  rw [State.ranges, blocks_eq hl.chain (by simpa using hk), List.map_map]
  refine (List.map_congr_left fun r hr => ?_).trans (List.map_id l)
  rw [Function.comp_apply, hl.length r hr]
  rfl

theorem plan_start (hb : Blocks heap s free used) : Plan.start s = ⟨free, used, 0, []⟩ := by
  rw [Plan.start, ranges_eq hb.freeLists hb.length_free, ranges_eq hb.usedLists hb.length_used]

/-- **The heap while a line is parsed**, and the plan: the literals are in blocks of their own. -/
structure Sim (heap : ℕ) (vars : List ℕ) (s₀ : State) (used₀ : List Range) (done : List Item) (n : Session)
    (p : Plan) : Prop where
  blocks : Blocks heap n.heap p.free p.used
  nodes : n.nodes = p.nodes
  pointers : n.literals.map (·.1) = p.pointers
  complete : n.error = false → n.literals.map (·.2) = texts done
  owned : ∀ l ∈ n.literals, ∃ r ∈ p.used, l.1 = r.lo + headerSize ∧ l.2.length + 1 + headerSize ≤ r.len
  nodup : (n.literals.map (·.1)).Nodup
  holds : ∀ l ∈ n.literals, load n.heap.mem l.1 (l.2.length + 1) = l.2 ++ [0]
  keeps : ∀ r ∈ used₀, r.lo + headerSize ∈ vars → r ∈ p.used ∧
    ∀ i, r.lo + headerSize ≤ i → i < r.hi → n.heap.mem i = s₀.mem i

theorem sim_start (hb : Blocks heap s₀ free used₀) : Sim heap vars s₀ used₀ [] (Session.start s₀) (Plan.start s₀) := by
  rw [plan_start hb]
  exact ⟨hb, rfl, rfl, fun _ => rfl, nofun, .nil, nofun, fun r hr _ => ⟨hr, fun _ _ _ => rfl⟩⟩

/-! ## What a plan promises -/

theorem Sim.alive (hsim : Sim heap vars s₀ used₀ done n p) : n.Alive heap done := by
  have hlen := hsim.blocks.usedLists.length
  refine ⟨hsim.complete, fun l hl => ?_, ?_, hsim.holds⟩
  · obtain ⟨r, hr, hptr, hfits⟩ := hsim.owned l hl
    have hin := hsim.blocks.within (List.mem_append_right _ hr)
    have := hlen r hr
    refine ⟨r.lo, ?_, hptr, by omega, hin.1, ?_⟩
    · rw [hsim.blocks.allocated]
      exact List.mem_map_of_mem hr
    · unfold Range.hi at hin
      omega
  · refine (List.pairwise_map.1 hsim.nodup).imp_of_mem fun {l k} hl hk hne => ?_
    obtain ⟨r, hr, hlptr, -⟩ := hsim.owned l hl
    obtain ⟨t, ht, hkptr, -⟩ := hsim.owned k hk
    have hr' := hlen r hr
    have ht' := hlen t ht
    rw [State.DataApart, hlptr, hkptr, Nat.add_sub_cancel, Nat.add_sub_cancel]
    rcases hsim.blocks.eq_or_apart (List.mem_append_right _ hr) (List.mem_append_right _ ht) with rfl | h | h
    · exact absurd (hlptr.trans hkptr.symm) hne
    · unfold Range.hi at h
      omega
    · unfold Range.hi at h
      omega

theorem Sim.keepsReferenced (hb : Blocks heap s₀ free used₀) (hsim : Sim heap vars s₀ used₀ done n p) :
    s₀.KeepsReferenced vars n.heap := by
  intro header hheader hvar
  rw [hb.allocated] at hheader
  obtain ⟨r, hr, rfl⟩ := List.mem_map.1 hheader
  obtain ⟨hused, hsame⟩ := hsim.keeps r hr hvar
  have h₀ := hb.usedLists.length r hr
  have h₁ := hsim.blocks.usedLists.length r hused
  refine ⟨?_, by omega, load_congr fun i h h' => hsame i h ?_⟩
  · rw [hsim.blocks.allocated]
    exact List.mem_map_of_mem hused
  · unfold Range.hi
    omega

/-! ## Steps -/

/-- A collection that spares the literals. -/
theorem sim_collect (hsim : Sim heap vars s₀ used₀ done n p) (hspares : ∀ ptr ∈ p.pointers, ptr ∈ vars)
    (hb : Blocks heap s (collect vars p.used p.free) (referenced vars p.used))
    (hkeep : Keeps n.heap s (referenced vars p.used)) :
    Sim heap vars s₀ used₀ done { n with heap := s }
      { p with free := collect vars p.used p.free, used := referenced vars p.used } := by
  have hmem : ∀ r ∈ p.used, r.lo + headerSize ∈ vars → r ∈ referenced vars p.used :=
    fun r hr hvar => List.mem_filter.2 ⟨hr, decide_eq_true hvar⟩
  -- the block of a literal is referenced
  have howned : ∀ l ∈ n.literals, ∃ r ∈ referenced vars p.used, l.1 = r.lo + headerSize ∧
      l.2.length + 1 + headerSize ≤ r.len := by
    intro l hl
    obtain ⟨r, hr, hptr, hfits⟩ := hsim.owned l hl
    have hvar : l.1 ∈ vars := hspares l.1 (hsim.pointers ▸ List.mem_map_of_mem hl)
    exact ⟨r, hmem r hr (hptr ▸ hvar), hptr, hfits⟩
  refine ⟨hb, hsim.nodes, hsim.pointers, hsim.complete, howned, hsim.nodup, fun l hl => ?_, fun r hr hvar => ?_⟩
  · obtain ⟨r, hr, hptr, hfits⟩ := howned l hl
    refine (load_congr fun i h h' => hkeep r hr i (hptr ▸ h) ?_).trans (hsim.holds l hl)
    unfold Range.hi
    omega
  · obtain ⟨hused, hsame⟩ := hsim.keeps r hr hvar
    have href := hmem r hused hvar
    exact ⟨href, fun i h h' => (hkeep r href i h h').trans (hsame i h h')⟩

/-- The copy of a literal. -/
def copied (m : Mem) (ptr : ℕ) (text : List UInt8) : Mem := store (store m ptr text) (ptr + text.length) [0]

theorem copied_out {m : Mem} {ptr : ℕ} {text : List UInt8} (h : i < ptr ∨ ptr + text.length + 1 ≤ i) :
    copied m ptr text i = m i := by
  rw [copied, store_out (by rw [List.length_singleton]; omega), store_out (by omega)]

theorem load_copied {m : Mem} {ptr : ℕ} {text : List UInt8} :
    load (copied m ptr text) ptr (text.length + 1) = text ++ [0] := by
  have htext : load (copied m ptr text) ptr text.length = text := by
    refine (load_congr fun i _ h => store_out (.inl h)).trans load_store_same
  have hzero : load (copied m ptr text) (ptr + text.length) [(0 : UInt8)].length = [0] := load_store_same
  rw [load_append, htext]
  exact congrArg _ hzero

/-- **A literal that is placed.** -/
theorem sim_place (hsim : Sim heap vars s₀ used₀ done n p) (hpl : Placed heap n.heap s free' p.used size lo)
    (hsize : l.text.length + 1 ≤ size) :
    Sim heap vars s₀ used₀ (done ++ [.literal l])
      { n with
        heap := { s with mem := copied s.mem (lo + headerSize) l.text }
        nodes := n.nodes + 1
        literals := n.literals ++ [(lo + headerSize, l.text)] }
      (p.put size lo free' p.used) := by
  have hnew : (⟨lo, headerSize + size⟩ : Range) ∈ place ⟨lo, headerSize + size⟩ p.used := mem_place.2 (.inl rfl)
  have hout : ∀ i, (i < lo + headerSize ∨ lo + (headerSize + size) ≤ i) →
      copied s.mem (lo + headerSize) l.text i = s.mem i := fun i hi => copied_out (by omega)
  -- the blocks that were there keep their bytes
  have hkeep : ∀ r ∈ p.used, ∀ i, r.lo + headerSize ≤ i → i < r.hi →
      copied s.mem (lo + headerSize) l.text i = n.heap.mem i := by
    intro r hr i h h'
    refine (hout i ?_).trans (hpl.keeps r hr i h h')
    have hapart := hpl.blocks.eq_or_apart (List.mem_append_right _ hnew)
      (List.mem_append_right _ (mem_place.2 (.inr hr)))
    rcases hapart with heq | hlt | hlt
    · exact absurd (congrArg Range.lo heq).symm (hpl.fresh r hr)
    · right
      unfold Range.hi at hlt
      dsimp only at hlt
      omega
    · left
      exact Nat.lt_of_lt_of_le h' (Nat.le_trans hlt (Nat.le_add_right _ _))
  have hfresh : lo + headerSize ∉ n.literals.map (·.1) := by
    intro hmem
    obtain ⟨k, hk, hptr⟩ := List.mem_map.1 hmem
    obtain ⟨r, hr, hkptr, -⟩ := hsim.owned k hk
    exact hpl.fresh r hr (Nat.add_right_cancel (hkptr.symm.trans hptr))
  refine ⟨hpl.blocks.store hnew hout, congrArg (· + 1) hsim.nodes, ?_, fun herr => ?_, fun k hk => ?_, ?_,
    fun k hk => ?_, fun r hr hvar => ?_⟩
  · rw [List.map_append, hsim.pointers]
    rfl
  · rw [List.map_append, hsim.complete herr, texts, texts, List.filterMap_append]
    rfl
  · rcases List.mem_append.1 hk with hk | hk
    · obtain ⟨r, hr, hptr, hfits⟩ := hsim.owned k hk
      exact ⟨r, mem_place.2 (.inr hr), hptr, hfits⟩
    · rw [List.mem_singleton.1 hk]
      refine ⟨_, hnew, rfl, ?_⟩
      dsimp only
      omega
  · rw [List.map_append]
    refine List.nodup_append.2 ⟨hsim.nodup, List.nodup_singleton _, fun a ha b hb heq => hfresh ?_⟩
    rw [heq, List.mem_singleton.1 hb] at ha
    exact ha
  · rcases List.mem_append.1 hk with hk | hk
    · obtain ⟨r, hr, hptr, hfits⟩ := hsim.owned k hk
      refine (load_congr fun i h h' => hkeep r hr i (hptr ▸ h) ?_).trans (hsim.holds k hk)
      unfold Range.hi
      omega
    · rw [List.mem_singleton.1 hk]
      exact load_copied
  · obtain ⟨hused, hsame⟩ := hsim.keeps r hr hvar
    exact ⟨mem_place.2 (.inr hused), fun i h h' => (hkeep r hused i h h').trans (hsame i h h')⟩

theorem texts_append : texts (done ++ line) = texts done ++ texts line := List.filterMap_append

/-- A literal whose node there is room for. -/
theorem add_literal {ptr : Option ℕ} (hn : n.nodes < FINSH_NODE_MAX)
    (ha : n.heap.finshHeapAllocate heap vars (l.text.length + 1) = some (ptr, s)) :
    n.add heap vars (.literal l) = ptr.map fun ptr =>
      { n with
        heap := { s with mem := copied s.mem ptr l.text }
        nodes := n.nodes + 1
        literals := n.literals ++ [(ptr, l.text)] } := by
  have hnode : n.finshNodeAllocate = some { n with nodes := n.nodes + 1 } := if_pos hn
  rw [Session.add, Session.finshNodeNewString, hnode]
  dsimp only
  rw [ha]
  cases ptr <;> rfl

/-- A literal that is collected is lost. -/
theorem not_alive_of_collected {ptr : ℕ} {m : Session} {text : List UInt8} (hptr : ptr ∈ n.literals.map (·.1))
    (hvar : ptr ∉ vars) (hm : m.literals = n.literals ++ [(lo + headerSize, text)])
    (hallocated : m.heap.allocated = (place ⟨lo, headerSize + size⟩ (referenced vars used)).map (·.lo)) :
    ¬m.Alive heap done := by
  intro halive
  obtain ⟨k, hk, rfl⟩ := List.mem_map.1 hptr
  obtain ⟨header, hheader, hkptr, -⟩ := halive.owns k (hm ▸ List.mem_append_left _ hk)
  rw [hallocated] at hheader
  obtain ⟨r, hr, rfl⟩ := List.mem_map.1 hheader
  rcases mem_place.1 hr with rfl | hr
  · -- its block is the new one's
    have hapart := halive.apart
    rw [hm] at hapart
    have := (List.pairwise_append.1 hapart).2.2 k hk _ (List.mem_singleton_self _)
    unfold State.DataApart at this
    rw [hkptr] at this
    dsimp only at this
    unfold headerSize at this
    omega
  · have hspared := of_decide_eq_true (List.mem_filter.1 hr).2
    exact hvar (hkptr ▸ hspared)

theorem sim_node (hsim : Sim heap vars s₀ used₀ done n p) :
    Sim heap vars s₀ used₀ (done ++ [.node]) { n with nodes := n.nodes + 1 } { p with nodes := p.nodes + 1 } := by
  refine ⟨hsim.blocks, congrArg (· + 1) hsim.nodes, hsim.pointers, fun herr => ?_, hsim.owned, hsim.nodup, hsim.holds,
    hsim.keeps⟩
  rw [texts_append]
  exact (hsim.complete herr).trans (List.append_nil _).symm

/-- The node table is full. -/
theorem sim_error (hsim : Sim heap vars s₀ used₀ done n p) (item : Item) :
    Sim heap vars s₀ used₀ (done ++ [item]) { n with error := true } p :=
  ⟨hsim.blocks, hsim.nodes, hsim.pointers, nofun, hsim.owned, hsim.nodup, hsim.holds, hsim.keeps⟩

/-- **Step lemma**: what the plan allows is done, and where there is no plan a literal is lost. -/
theorem sim_add (hsim : Sim heap vars s₀ used₀ done n p) (item : Item) :
    match p.add vars item with
    | some p' => ∃ n', n.add heap vars item = some n' ∧ Sim heap vars s₀ used₀ (done ++ [item]) n' p'
    | none => ∀ n', n.add heap vars item = some n' → ¬n'.Alive heap (done ++ [item]) := by
  by_cases hn : p.nodes < FINSH_NODE_MAX
  case neg =>
    have hnode : n.finshNodeAllocate = none := if_neg (hsim.nodes ▸ hn)
    cases item with
    | node =>
      rw [Plan.add, if_neg hn, Session.add, hnode]
      exact ⟨_, rfl, sim_error hsim _⟩
    | literal l =>
      rw [Plan.add, if_neg hn, Session.add, Session.finshNodeNewString, hnode]
      exact ⟨_, rfl, sim_error hsim _⟩
  case pos =>
    have hn' : n.nodes < FINSH_NODE_MAX := hsim.nodes ▸ hn
    cases item with
    | node =>
      have hnode : n.finshNodeAllocate = some { n with nodes := n.nodes + 1 } := if_pos hn'
      rw [Plan.add, if_pos hn, Session.add, hnode]
      exact ⟨_, rfl, sim_node hsim⟩
    | literal l =>
      have hsize : l.text.length + 1 + headerSize + 4 ≤ 2 ^ 32 := by
        have := l.short
        unfold FINSH_STRING_MAX at this
        unfold headerSize
        omega
      have hbounds := heapAlignSize_bounds hsize
      have hfirst := blocks_allocate vars hsim.blocks hsize
      rw [Plan.add, if_pos hn]
      dsimp only
      cases hff : firstFit (heapAlignSize (l.text.length + 1)) p.free with
      | some q =>
        rw [hff] at hfirst
        obtain ⟨s', hs', hplaced⟩ := hfirst
        exact ⟨_, add_literal hn' hs', sim_place hsim hplaced hbounds.1⟩
      | none =>
        rw [hff] at hfirst
        obtain ⟨s₁, hgc, hagain⟩ := hfirst
        obtain ⟨s₁', hgc', hb₁, hkeep₁⟩ := blocks_gc vars hsim.blocks
        rw [hgc] at hgc'
        cases hgc'
        have hsecond := blocks_allocateAgain hb₁ hbounds.2
        dsimp only
        cases hlf : lastFit (heapAlignSize (l.text.length + 1)) (collect vars p.used p.free) with
        | none =>
          -- a write through `NULL`
          rw [hlf] at hsecond
          have hadd := add_literal hn' (hagain.trans hsecond)
          rw [Option.map_none, ite_self]
          intro n' hn''
          rw [hadd] at hn''
          cases hn''
        | some q =>
          rw [hlf] at hsecond
          obtain ⟨s', hs', hplaced⟩ := hsecond
          have hadd := add_literal hn' (hagain.trans hs')
          by_cases hspares : ∀ ptr ∈ p.pointers, ptr ∈ vars
          · rw [if_pos hspares]
            exact ⟨_, hadd, sim_place (sim_collect hsim hspares hb₁ hkeep₁) hplaced hbounds.1⟩
          · rw [if_neg hspares]
            intro n' hn''
            rw [hadd] at hn''
            cases hn''
            obtain ⟨ptr, hspares⟩ := not_forall.1 hspares
            obtain ⟨hptr, hvar⟩ := Classical.not_imp.1 hspares
            have hout : ∀ i, i < q.1 + headerSize ∨ q.1 + (headerSize + heapAlignSize (l.text.length + 1)) ≤ i →
                copied s'.mem (q.1 + headerSize) l.text i = s'.mem i := fun i hi => copied_out (by omega)
            have hcopied := hplaced.blocks.store (mem_place.2 (.inl rfl)) hout
            exact not_alive_of_collected (hsim.pointers ▸ hptr) hvar rfl hcopied.allocated

/-! ## Lines -/

theorem parse_append {item : Item} : n.parse heap vars (line ++ [item]) =
    (n.parse heap vars line).bind fun n' => n'.add heap vars item := by
  rw [Session.parse, List.foldlM_append]
  cases h : line.foldlM (Session.add heap vars) n with
  | none => simp [Session.parse, h]
  | some n' => simp [Session.parse, h]

theorem plan_append {item : Item} : (line ++ [item]).foldlM (Plan.add vars) p =
    (line.foldlM (Plan.add vars) p).bind fun p' => p'.add vars item := by
  rw [List.foldlM_append]
  cases line.foldlM (Plan.add vars) p <;> simp

theorem lasts_left {rest : List Item} (h : s.Lasts vars (line ++ rest)) : s.Lasts vars line := by
  unfold State.Lasts at *
  rw [List.foldlM_append] at h
  cases hline : line.foldlM (Plan.add vars) (Plan.start s) with
  | none =>
    rw [hline] at h
    exact h
  | some p => rfl

/-- **Run lemma.** -/
theorem sim_line (hb : Blocks heap s₀ free used₀) (h : s₀.Lasts vars line) :
    ∃ n p, (Session.start s₀).parse heap vars line = some n ∧
      line.foldlM (Plan.add vars) (Plan.start s₀) = some p ∧ Sim heap vars s₀ used₀ line n p := by
  induction line using List.reverseRecOn with
  | nil => exact ⟨_, _, rfl, rfl, sim_start hb⟩
  | append_singleton line item ih =>
    obtain ⟨n, p, hn, hp, hsim⟩ := ih (lasts_left h)
    rw [State.Lasts, plan_append, hp, Option.bind_some] at h
    obtain ⟨p', hp'⟩ := Option.isSome_iff_exists.1 h
    have hstep := sim_add hsim item
    rw [hp'] at hstep
    obtain ⟨n', hn', hsim'⟩ := hstep
    exact ⟨n', p', by rw [parse_append, hn, Option.bind_some, hn'], by rw [plan_append, hp, Option.bind_some, hp'], hsim'⟩

theorem lasts_of_alive (hb : Blocks heap s₀ free used₀) (h : s₀.LineAlive heap vars line) : s₀.Lasts vars line := by
  induction line using List.reverseRecOn with
  | nil => rfl
  | append_singleton line item ih =>
    have hline := ih fun done hdone => h done (List.mem_inits _ _ |>.2
      (((List.mem_inits _ _).1 hdone).trans (List.prefix_append _ _)))
    obtain ⟨n, p, hn, hp, hsim⟩ := sim_line hb hline
    have hstep := sim_add hsim item
    rw [State.Lasts, plan_append, hp, Option.bind_some]
    cases hp' : p.add vars item with
    | some p' => rfl
    | none =>
      rw [hp'] at hstep
      obtain ⟨n', hn', halive, -⟩ := h (line ++ [item]) ((List.mem_inits _ _).2 List.prefix_rfl)
      rw [parse_append, hn, Option.bind_some] at hn'
      exact absurd halive (hstep n' hn')

theorem alive_of_lasts (hb : Blocks heap s₀ free used₀) (h : s₀.Lasts vars line) : s₀.LineAlive heap vars line := by
  intro done hdone
  obtain ⟨rest, rfl⟩ := (List.mem_inits _ _).1 hdone
  obtain ⟨n, p, hn, -, hsim⟩ := sim_line hb (lasts_left h)
  exact ⟨n, hn, hsim.alive, hsim.keepsReferenced hb⟩

/-- **The literals of a line are alive at every point of it if and only if the heap is large enough for the line.** -/
theorem strings_alive (harray : 0 < heap ∧ heap + FINSH_HEAP_MAX ≤ 2 ^ 32)
    (hr : Run.Reach (State.Init heap) (fun s a s' => s.step heap a = some s') State.Fits s) (vars : List ℕ)
    (line : List Item) : s.LineAlive heap vars line ↔ s.Lasts vars line := by
  obtain ⟨free, used, hb⟩ := blocks_reach harray hr
  exact ⟨lasts_of_alive hb, alive_of_lasts hb⟩

/-- `"abc"`. -/
def abc : Literal := ⟨[97, 98, 99], by decide, by decide⟩

theorem strings_alive_three :
    (fresh.finshHeapInit 4096).LineAlive 4096 [] [.literal abc, .node, .literal abc, .literal abc] :=
  (strings_alive (by decide) (.init fresh_init) [] _).2 (by decide)

/-- `"aaaaaaaa"`. -/
def letters : Literal := ⟨List.replicate 8 97, by decide, by decide⟩

/-- **The sixth literal of a line is where the first one was.** -/
theorem literals_lost : ¬∀ heap s, 0 < heap ∧ heap + FINSH_HEAP_MAX ≤ 2 ^ 32 →
    Run.Reach (State.Init heap) (fun s a s' => s.step heap a = some s') State.Fits s → ∀ vars line,
      s.LineAlive heap vars line := by
  intro h
  have hrun : (((Session.start (fresh.finshHeapInit 4096)).parse 4096 [] (List.replicate 6 (.literal letters))).all
      fun n => !decide (n.literals.Pairwise fun l k => n.heap.DataApart l.1 k.1)) = true := by
    decide
  obtain ⟨n, hn, halive, -⟩ := h 4096 _ (by decide) (.init fresh_init) [] (List.replicate 6 (.literal letters)) _
    ((List.mem_inits _ _).2 List.prefix_rfl)
  rw [hn] at hrun
  have hapart := decide_eq_true halive.apart
  rw [Option.all_some, hapart] at hrun
  cases hrun

end RtThread.FinshHeap
