import RtThread.Proof.RingBlk
import Mathlib.Data.List.Nodup
import Mathlib.Data.List.Range

/-!
# When a queue of blocks is exact

* `queueGet_eq`, `nextLen_eq`: the two loops take the blocks of `loopRun`.
* `loopRun_eq_iff`: these are the blocks that follow each other in the buffer, unless the loop goes on.
* `MaximalRun.unique`, `runBehind_maximal`: the maximal run.
* `free_blocks`, `freed_blocks`: `rt_rbb_blk_queue_free`.
* `queue_exact`: a queue is exact if and only if the first block fits, the loop stops where the blocks do not follow
  each other, and they lie side by side in `blk_set`, in every state that the calls reach.
* `queue_too_large`: a block is taken that is larger than asked for.
-/

namespace RtThread.RingBlk

variable {cfg : Config} {s s' s₁ : State} {a : Act} {i j n last : ℕ} {l l' nodes acc : List ℕ} {q : BlkQueue}
  {len sum : BitVec 32}

/-! ## Blocks taken out -/

@[simp] theorem taken_nil (s : State) : s.taken [] = s := by
  cases s
  simp [State.taken]

theorem taken_of_notMem (h : i ∉ l) : (s.taken l).blkSet i = s.blkSet i := if_neg h

theorem taken_of_mem (h : i ∈ l) : (s.taken l).blkSet i = { s.blkSet i with status := .get } := if_pos h

theorem taken_blk (s : State) (l : List ℕ) (i : ℕ) :
    ((s.taken l).blkSet i).size = (s.blkSet i).size ∧ ((s.taken l).blkSet i).buf = (s.blkSet i).buf := by
  by_cases h : i ∈ l
  · rw [taken_of_mem h]
    exact ⟨rfl, rfl⟩
  · rw [taken_of_notMem h]
    exact ⟨rfl, rfl⟩

/-- A block more is taken out. -/
theorem takeOut_taken (hnd : s.blkList.Nodup) (hi : i ∉ l) : (s.taken l).takeOut i = s.taken (l ++ [i]) := by
  have hlist : (s.blkList.filter (· ∉ l)).erase i = s.blkList.filter (· ∉ l ++ [i]) := by
    rw [(hnd.filter _).erase_eq_filter, List.filter_filter]
    refine List.filter_congr fun j _ => ?_
    by_cases hj : j = i <;> simp [hj]
  have hset : ∀ j, ((s.taken l).takeOut i).blkSet j = (s.taken (l ++ [i])).blkSet j := by
    intro j
    by_cases hj : j = i
    · subst hj
      rw [taken_of_mem (List.mem_append_right _ (List.mem_singleton_self j))]
      refine (setStatus_blkSet_self ..).trans ?_
      show { (s.taken l).blkSet j with status := .get } = _
      rw [taken_of_notMem hi]
    · refine (setStatus_blkSet_of_ne _ _ hj).trans ?_
      show (s.taken l).blkSet j = _
      by_cases hjl : j ∈ l
      · rw [taken_of_mem hjl, taken_of_mem (List.mem_append_left _ hjl)]
      · rw [taken_of_notMem hjl, taken_of_notMem]
        simp [hjl, hj]
  show State.mk _ _ = State.mk _ _
  rw [State.mk.injEq]
  exact ⟨funext hset, hlist⟩

@[simp] theorem total_nil (s : State) : s.total [] = 0 := rfl

@[simp] theorem total_cons (s : State) (i : ℕ) (l : List ℕ) :
    s.total (i :: l) = (s.blkSet i).size.toNat + s.total l := by
  rw [State.total, List.map_cons, List.sum_cons, State.total]

theorem total_append (s : State) (l l' : List ℕ) : s.total (l ++ l') = s.total l + s.total l' := by
  rw [State.total, List.map_append, List.sum_append, State.total, State.total]

/-! ## The two loops -/

/-- The blocks on which a loop goes on from `last`. -/
def loopRun (s : State) (len : BitVec 32) : ℕ → BitVec 32 → List ℕ → List ℕ
  | _, _, [] => []
  | last, sum, i :: l =>
    if s.GoesOn len last sum i then i :: loopRun s len i (sum + (s.blkSet i).size) l else []

theorem word_zero_add (x : BitVec 32) : 0 + x = x := BitVec.zero_add x

theorem le_allOnes (x : BitVec 32) : x ≤ BitVec.allOnes 32 := by
  have hlt := x.isLt
  show x.toNat ≤ (BitVec.allOnes 32).toNat
  rw [BitVec.toNat_allOnes]
  omega

theorem ofNat_total (s : State) (i : ℕ) (l : List ℕ) (sum : BitVec 32) :
    sum + BitVec.ofNat 32 (s.total (i :: l)) = sum + (s.blkSet i).size + BitVec.ofNat 32 (s.total l) := by
  rw [total_cons, BitVec.ofNat_add, BitVec.ofNat_toNat, BitVec.setWidth_eq, BitVec.add_assoc]

theorem loopRun_sublist (s : State) (len : BitVec 32) (last : ℕ) (sum : BitVec 32) (l : List ℕ) :
    (loopRun s len last sum l).Sublist l := by
  induction l generalizing last sum with
  | nil => exact .refl _
  | cons i l ih =>
    unfold loopRun
    split
    · exact (ih ..).cons_cons i
    · exact List.nil_sublist _

theorem loopRun_put (s : State) (l : List ℕ) : ∀ i ∈ loopRun s len last sum l, s.status i = .put := by
  induction l generalizing last sum with
  | nil => nofun
  | cons j l ih =>
    intro i hi
    unfold loopRun at hi
    split at hi
    · rename_i hgo
      rcases List.mem_cons.1 hi with rfl | hi
      · exact hgo.1
      · exact ih i hi
    · cases hi

/-- **The loop of `rt_rbb_blk_queue_get`** takes out the blocks on which it goes on. -/
theorem queueGetLoop_eq (hnd : s.blkList.Nodup) (hnodes : nodes.Nodup) (hacc : ∀ i ∈ nodes, i ∉ acc) :
    State.queueGetLoop len nodes (some last) q sum (s.taken acc) =
      (sum + BitVec.ofNat 32 (s.total (loopRun s len last sum nodes)),
        { q with blkNum := q.blkNum + (loopRun s len last sum nodes).length },
        s.taken (acc ++ loopRun s len last sum nodes)) := by
  induction nodes generalizing last q sum acc with
  | nil => simp [State.queueGetLoop, loopRun]
  | cons i nodes ih =>
    have hi : (s.taken acc).blkSet i = s.blkSet i := taken_of_notMem (hacc i List.mem_cons_self)
    have hlast : ((s.taken acc).blkSet last).buf = (s.blkSet last).buf := (taken_blk s acc last).2
    obtain ⟨hnew, hnodes⟩ := List.nodup_cons.1 hnodes
    simp only [State.queueGetLoop, hi, hlast]
    by_cases hgo : s.GoesOn len last sum i
    · have hstop : ¬((s.blkSet i).status ≠ .put ∨ (s.blkSet last).buf > (s.blkSet i).buf ∨
          sum + (s.blkSet i).size > len) := by
        rintro (hs | hs | hs)
        · exact hs hgo.1
        · exact BitVec.not_le.2 hs hgo.2.1
        · exact BitVec.not_le.2 hs hgo.2.2
      have hacc' : ∀ j ∈ nodes, j ∉ acc ++ [i] := by
        intro j hj hmem
        rcases List.mem_append.1 hmem with hmem | hmem
        · exact hacc j (List.mem_cons_of_mem i hj) hmem
        · exact hnew (List.mem_singleton.1 hmem ▸ hj)
      rw [if_neg hstop, takeOut_taken hnd (hacc i List.mem_cons_self), ih hnodes hacc', loopRun, if_pos hgo,
        ofNat_total, List.length_cons, List.append_assoc, List.singleton_append]
      have hnum : q.blkNum + 1 + (loopRun s len i (sum + (s.blkSet i).size) nodes).length =
          q.blkNum + ((loopRun s len i (sum + (s.blkSet i).size) nodes).length + 1) := by omega
      simp only [hnum]
    · have hstop : (s.blkSet i).status ≠ .put ∨ (s.blkSet last).buf > (s.blkSet i).buf ∨
          sum + (s.blkSet i).size > len := by
        by_contra hno
        obtain ⟨hput, hno⟩ := not_or.1 hno
        obtain ⟨hbuf, hsize⟩ := not_or.1 hno
        exact hgo ⟨not_not.1 hput, BitVec.not_lt.1 hbuf, BitVec.not_lt.1 hsize⟩
      rw [if_pos hstop, loopRun, if_neg hgo]
      simp

/-- The loops skip what stands before the first block with the status PUT. -/
theorem queueGetLoop_none (s : State) (len : BitVec 32) (q : BlkQueue) (nodes : List ℕ) :
    State.queueGetLoop len nodes none q 0 s =
      match nodes.dropWhile fun i => s.status i ≠ .put with
      | [] => (0, q, s)
      | i :: l => State.queueGetLoop len l (some i) ⟨i, 1⟩ (0 + (s.blkSet i).size) (s.takeOut i) := by
  induction nodes with
  | nil => rfl
  | cons i nodes ih =>
    rw [State.queueGetLoop]
    by_cases hput : s.status i = .put
    · rw [if_pos hput, List.dropWhile_cons_of_neg (by simp [hput])]
    · rw [if_neg hput, List.dropWhile_cons_of_pos (by simp [hput])]
      exact ih

theorem nextLenLoop_none (s : State) (nodes : List ℕ) :
    s.nextLenLoop nodes none 0 =
      match nodes.dropWhile fun i => s.status i ≠ .put with
      | [] => 0
      | i :: l => s.nextLenLoop l (some i) (0 + (s.blkSet i).size) := by
  induction nodes with
  | nil => rfl
  | cons i nodes ih =>
    rw [State.nextLenLoop]
    by_cases hput : s.status i = .put
    · rw [if_neg (not_not.2 hput), List.dropWhile_cons_of_neg (by simp [hput])]
    · rw [if_pos hput, List.dropWhile_cons_of_pos (by simp [hput])]
      exact ih

/-- **`rt_rbb_blk_queue_get`** takes out the first block with the status PUT, and those on which it goes on. -/
theorem queueGet_eq (h : Listed cfg s) (len : BitVec 32) (q : BlkQueue) :
    s.rtRbbBlkQueueGet len q =
      match s.fromPut with
      | [] => (0, q, s)
      | i :: l =>
        let run := i :: loopRun s len i (s.blkSet i).size l
        (BitVec.ofNat 32 (s.total run), ⟨i, run.length⟩, s.taken run) := by
  rw [State.rtRbbBlkQueueGet, queueGetLoop_none, ← State.fromPut]
  have hsub : s.fromPut.Sublist s.blkList := List.dropWhile_sublist _
  cases hput : s.fromPut with
  | nil => rfl
  | cons i l =>
    rw [hput] at hsub
    obtain ⟨hnew, hl⟩ := List.nodup_cons.1 (h.nodup.sublist hsub)
    have hfirst : s.takeOut i = s.taken [i] := by
      have htake := takeOut_taken (s := s) (l := []) (i := i) h.nodup List.not_mem_nil
      rwa [taken_nil] at htake
    have hothers : ∀ j ∈ l, j ∉ [i] := by
      intro j hj hmem
      exact hnew (List.mem_singleton.1 hmem ▸ hj)
    simp only
    rw [hfirst, queueGetLoop_eq h.nodup hl hothers, word_zero_add]
    have hsum := ofNat_total s i (loopRun s len i (s.blkSet i).size l) 0
    rw [word_zero_add, word_zero_add] at hsum
    rw [hsum]
    simp [Nat.add_comm]

/-- **`rt_rbb_next_blk_queue_len`** is what `rt_rbb_blk_queue_get` returns without a limit. -/
theorem nextLen_eq (h : Listed cfg s) (q : BlkQueue) :
    s.rtRbbNextBlkQueueLen = (s.rtRbbBlkQueueGet (BitVec.allOnes 32) q).1 := by
  have hloop : ∀ (nodes : List ℕ) (last : ℕ) (sum : BitVec 32), s.nextLenLoop nodes (some last) sum =
      sum + BitVec.ofNat 32 (s.total (loopRun s (BitVec.allOnes 32) last sum nodes)) := by
    intro nodes
    induction nodes with
    | nil => simp [State.nextLenLoop, loopRun]
    | cons i nodes ih =>
      intro last sum
      have hle : sum + (s.blkSet i).size ≤ BitVec.allOnes 32 := le_allOnes _
      simp only [State.nextLenLoop]
      by_cases hgo : s.GoesOn (BitVec.allOnes 32) last sum i
      · have hstop : ¬((s.blkSet i).status ≠ .put ∨ (s.blkSet last).buf > (s.blkSet i).buf) := by
          rintro (hs | hs)
          · exact hs hgo.1
          · exact BitVec.not_le.2 hs hgo.2.1
        rw [if_neg hstop, ih, loopRun, if_pos hgo, ofNat_total]
      · have hstop : (s.blkSet i).status ≠ .put ∨ (s.blkSet last).buf > (s.blkSet i).buf := by
          by_contra hno
          obtain ⟨hput, hbuf⟩ := not_or.1 hno
          exact hgo ⟨not_not.1 hput, BitVec.not_lt.1 hbuf, hle⟩
        rw [if_pos hstop, loopRun, if_neg hgo, total_nil]
        simp
  rw [State.rtRbbNextBlkQueueLen, nextLenLoop_none, ← State.fromPut, queueGet_eq h]
  cases hput : s.fromPut with
  | nil => rfl
  | cons i l =>
    simp only
    have hsum := ofNat_total s i (loopRun s (BitVec.allOnes 32) i (s.blkSet i).size l) 0
    rw [word_zero_add, word_zero_add] at hsum
    rw [hloop, hsum, word_zero_add]

/-! ## Maximal runs -/

theorem Fits.of_append {m : ℕ} (h : s.Fits m (l ++ l')) : s.Fits m l := by
  refine ⟨fun i hi => h.1 i (List.mem_append_left _ hi), h.2.1.left_of_append, ?_⟩
  have hle := h.2.2
  rw [total_append] at hle
  omega

/-- There is one maximal run. -/
theorem MaximalRun.unique {m : ℕ} (h : s.MaximalRun m l) (h' : s.MaximalRun m l') : l = l' := by
  have hbegins : ∀ {k k' : List ℕ}, s.MaximalRun m k → s.MaximalRun m k' → k <+: k' → k = k' := by
    rintro k k' ⟨rest, hk, -, hmax⟩ ⟨rest', hk', hfits, -⟩ ⟨t, rfl⟩
    cases t with
    | nil => exact (List.append_nil k).symm
    | cons i t =>
      rw [hk, List.append_assoc] at hk'
      have hrest : rest = i :: t ++ rest' := List.append_cancel_left hk'
      refine absurd ?_ (hmax i (by rw [hrest]; rfl))
      rw [← List.singleton_append, ← List.append_assoc] at hfits
      exact Fits.of_append hfits
  obtain ⟨rest, hl, -, -⟩ := id h
  obtain ⟨rest', hl', -, -⟩ := id h'
  rcases List.prefix_or_prefix_of_prefix ⟨rest, hl.symm⟩ ⟨rest', hl'.symm⟩ with hp | hp
  · exact hbegins h h' hp
  · exact (hbegins h' h hp).symm

theorem fromPut_status (h : s.fromPut = i :: l) : s.status i = .put := by
  have hhead := List.head?_dropWhile_not (p := fun i => decide (s.status i ≠ .put)) (l := s.blkList)
  rw [← State.fromPut, h] at hhead
  simpa using hhead

/-- What `runBehind` finds. -/
structure Behind (s : State) (m last n : ℕ) (l run : List ℕ) : Prop where
  split : l = run ++ l.drop run.length
  put : ∀ i ∈ run, s.status i = .put
  contiguous : s.Contiguous (last :: run)
  total_le : n + s.total run ≤ m
  stops : ∀ i ∈ (l.drop run.length).head?, ¬(s.status i = .put ∧ s.stop (run.getLastD last) = s.start i ∧
    n + s.total run + (s.blkSet i).size.toNat ≤ m)

theorem runBehind_behind {m : ℕ} (s : State) (last : ℕ) (l : List ℕ) (hle : n ≤ m) :
    Behind s m last n l (s.runBehind m last n l) := by
  induction l generalizing last n with
  | nil => exact ⟨rfl, nofun, List.isChain_singleton last, hle, nofun⟩
  | cons i l ih =>
    unfold State.runBehind
    by_cases htest : s.status i = .put ∧ s.stop last = s.start i ∧ n + (s.blkSet i).size.toNat ≤ m
    · rw [if_pos htest]
      obtain ⟨hput, hnext, hsize⟩ := htest
      obtain ⟨hsplit, hputs, hcont, htotal, hstops⟩ := ih i hsize
      generalize s.runBehind m i (n + (s.blkSet i).size.toNat) l = run at *
      refine ⟨?_, ?_, ?_, ?_, ?_⟩
      · rw [List.length_cons, List.drop_succ_cons, List.cons_append, ← hsplit]
      · intro j hj
        rcases List.mem_cons.1 hj with rfl | hj
        · exact hput
        · exact hputs j hj
      · exact List.isChain_cons_cons.2 ⟨hnext, hcont⟩
      · rw [total_cons]
        omega
      · intro j hj
        rw [List.length_cons, List.drop_succ_cons] at hj
        rw [List.getLastD_cons, total_cons, ← Nat.add_assoc]
        exact hstops j hj
    · rw [if_neg htest]
      refine ⟨rfl, nofun, List.isChain_singleton last, hle, ?_⟩
      intro j hj
      obtain rfl : i = j := Option.some.inj hj
      exact htest

/-- A block more behind a run. -/
theorem Fits.snoc {m : ℕ} (h : s.Fits m (last :: l ++ [i])) :
    s.status i = .put ∧ s.stop (l.getLastD last) = s.start i ∧ s.total (last :: l) + (s.blkSet i).size.toNat ≤ m := by
  obtain ⟨hput, hcont, htotal⟩ := h
  refine ⟨hput i (List.mem_append_right _ (List.mem_singleton_self i)), ?_, ?_⟩
  · have hjoin := (List.isChain_append.1 hcont).2.2
    refine hjoin _ ?_ i rfl
    rw [List.getLast?_cons, List.getLastD_eq_getLast?]
    exact Option.mem_some_self _
  · rw [total_append, total_cons s i, total_nil] at htotal
    exact htotal

/-- **The maximal run** is the first block with the status PUT and those behind it, if that fits. -/
theorem runBehind_maximal {m : ℕ} (h : s.fromPut = i :: l) (hle : (s.blkSet i).size.toNat ≤ m) :
    s.MaximalRun m (i :: s.runBehind m i (s.blkSet i).size.toNat l) := by
  obtain ⟨hsplit, hputs, hcont, htotal, hstops⟩ := runBehind_behind s i l hle
  generalize s.runBehind m i (s.blkSet i).size.toNat l = run at *
  refine ⟨l.drop run.length, ?_, ⟨?_, hcont, ?_⟩, fun j hj hfits => hstops j hj ?_⟩
  · rw [h, List.cons_append, ← hsplit]
  · intro j hj
    rcases List.mem_cons.1 hj with rfl | hj
    · exact fromPut_status h
    · exact hputs j hj
  · rw [total_cons]
    exact htotal
  · have hsnoc := Fits.snoc hfits
    rw [total_cons] at hsnoc
    exact hsnoc

theorem nil_maximal {m : ℕ} (h : s.fromPut = i :: l) (hlt : m < (s.blkSet i).size.toNat) : s.MaximalRun m [] := by
  refine ⟨i :: l, h, ⟨nofun, List.isChain_nil, Nat.zero_le m⟩, fun j hj hfits => ?_⟩
  obtain rfl : i = j := Option.some.inj hj
  have hle := hfits.2.2
  rw [List.nil_append, total_cons, total_nil] at hle
  omega

/-- **The loop takes these blocks** if and only if it does not go on behind them. -/
theorem loopRun_eq_iff (s : State) (last : ℕ) (l : List ℕ) (hle : n ≤ len.toNat) :
    s.runBehind len.toNat last n l <+: loopRun s len last (BitVec.ofNat 32 n) l ∧
      (loopRun s len last (BitVec.ofNat 32 n) l = s.runBehind len.toNat last n l ↔
        ∀ i ∈ (l.drop (s.runBehind len.toNat last n l).length).head?,
          ¬s.GoesOn len ((s.runBehind len.toNat last n l).getLastD last)
            (BitVec.ofNat 32 (n + s.total (s.runBehind len.toNat last n l))) i) := by
  have hlen := len.isLt
  induction l generalizing last n with
  | nil => exact ⟨List.prefix_rfl, iff_of_true rfl nofun⟩
  | cons i l ih =>
    unfold State.runBehind loopRun
    by_cases htest : s.status i = .put ∧ s.stop last = s.start i ∧ n + (s.blkSet i).size.toNat ≤ len.toNat
    · obtain ⟨hput, hnext, hsize⟩ := htest
      have hsum : BitVec.ofNat 32 n + (s.blkSet i).size = BitVec.ofNat 32 (n + (s.blkSet i).size.toNat) := by
        rw [BitVec.ofNat_add, BitVec.ofNat_toNat, BitVec.setWidth_eq]
      have hgo : s.GoesOn len last (BitVec.ofNat 32 n) i := by
        refine ⟨hput, ?_, ?_⟩
        · show s.start last ≤ s.start i
          rw [← hnext]
          exact start_le_stop s last
        · show (BitVec.ofNat 32 n + (s.blkSet i).size).toNat ≤ len.toNat
          rw [hsum, BitVec.toNat_ofNat, Nat.mod_eq_of_lt (by omega)]
          exact hsize
      obtain ⟨hbegins, hiff⟩ := ih i hsize
      rw [if_pos ⟨hput, hnext, hsize⟩, if_pos hgo, hsum]
      refine ⟨List.cons_prefix_cons.2 ⟨rfl, hbegins⟩, ?_⟩
      rw [List.cons_inj_right, hiff, List.length_cons, List.drop_succ_cons, List.getLastD_cons, total_cons,
        ← Nat.add_assoc]
    · rw [if_neg htest]
      refine ⟨List.nil_prefix, ?_⟩
      rw [List.length_nil, List.drop_zero, List.getLastD_nil, total_nil, Nat.add_zero]
      by_cases hgo : s.GoesOn len last (BitVec.ofNat 32 n) i
      · rw [if_pos hgo]
        exact iff_of_false nofun fun hno => hno i rfl hgo
      · rw [if_neg hgo]
        refine iff_of_true rfl fun j hj => ?_
        obtain rfl : i = j := Option.some.inj hj
        exact hgo

/-! ## The blocks of a queue -/

/-- `blk_queue->blocks[0]`, `blk_queue->blocks[1]`, .. -/
def queueBlocks (q : BlkQueue) : List ℕ := (List.range q.blkNum).map (q.blocks + ·)

theorem mem_queueBlocks : i ∈ queueBlocks q ↔ q.blocks ≤ i ∧ i < q.blocks + q.blkNum := by
  rw [queueBlocks, List.mem_map]
  constructor
  · rintro ⟨k, hk, rfl⟩
    have hlt := List.mem_range.1 hk
    exact ⟨Nat.le_add_right .., by omega⟩
  · rintro ⟨hle, hlt⟩
    exact ⟨i - q.blocks, List.mem_range.2 (by omega), by omega⟩

theorem nodup_queueBlocks (q : BlkQueue) : (queueBlocks q).Nodup :=
  List.nodup_range.map fun _ _ h => Nat.add_left_cancel h

theorem queueFree_eq (s : State) (q : BlkQueue) :
    s.rtRbbBlkQueueFree cfg q = (queueBlocks q).foldlM (fun s i => s.rtRbbBlkFree cfg i) s := by
  rw [State.rtRbbBlkQueueFree, queueBlocks, List.foldlM_map]

/-- **`rt_rbb_blk_queue_free`** frees blocks in use that are not in the list. -/
theorem free_blocks (hnd : l.Nodup) (hused : ∀ i ∈ l, s.inUse cfg i ∧ i ∉ s.blkList) :
    l.foldlM (fun s i => s.rtRbbBlkFree cfg i) s = some (s.freed l) := by
  induction l generalizing s with
  | nil =>
    cases s
    simp [State.freed]
  | cons i l ih =>
    obtain ⟨hnew, hnd⟩ := List.nodup_cons.1 hnd
    obtain ⟨hi, hout⟩ := hused i List.mem_cons_self
    have hfree : s.rtRbbBlkFree cfg i = some (s.freed [i]) := by
      have hi' : i < cfg.blkMaxNum ∧ s.status i ≠ .unused := hi
      rw [State.rtRbbBlkFree, if_pos hi', List.erase_of_not_mem hout, Option.some.injEq]
      show State.mk _ _ = State.mk _ _
      rw [State.mk.injEq]
      refine ⟨funext fun j => ?_, rfl⟩
      by_cases hj : j = i
      · subst hj
        rw [Function.update_self, if_pos (List.mem_singleton_self j)]
      · rw [Function.update_of_ne hj, if_neg (by simpa using hj)]
    have hothers : ∀ j ∈ l, (s.freed [i]).blkSet j = s.blkSet j := by
      intro j hj
      refine if_neg fun hmem => hnew ?_
      exact List.mem_singleton.1 hmem ▸ hj
    have hrest : ∀ j ∈ l, (s.freed [i]).inUse cfg j ∧ j ∉ (s.freed [i]).blkList := by
      intro j hj
      obtain ⟨hjused, hjout⟩ := hused j (List.mem_cons_of_mem i hj)
      refine ⟨⟨hjused.1, ?_⟩, hjout⟩
      rw [State.status, hothers j hj]
      exact hjused.2
    rw [List.foldlM_cons, hfree]
    refine (ih hnd hrest).trans ?_
    rw [Option.some.injEq]
    show State.mk _ _ = State.mk _ _
    rw [State.mk.injEq]
    refine ⟨funext fun j => ?_, rfl⟩
    by_cases hj : j ∈ l
    · rw [if_pos hj, if_pos (List.mem_cons_of_mem i hj), hothers j hj]
    · rw [if_neg hj]
      by_cases hji : j = i
      · subst hji
        rw [if_pos List.mem_cons_self]
        exact if_pos (List.mem_singleton_self j)
      · rw [if_neg (by simp [hji, hj])]
        exact if_neg (by simpa using hji)

/-- What has been freed was in use and is not any more; the other blocks are what they were. -/
theorem freed_blocks (hnd : l.Nodup) (h : l.foldlM (fun s i => s.rtRbbBlkFree cfg i) s = some s') :
    (∀ i ∈ l, s.status i ≠ .unused ∧ s'.status i = .unused) ∧ ∀ i, i ∉ l → s'.status i = s.status i := by
  induction l generalizing s with
  | nil =>
    cases h
    exact ⟨nofun, fun _ _ => rfl⟩
  | cons i l ih =>
    obtain ⟨hnew, hnd⟩ := List.nodup_cons.1 hnd
    obtain ⟨s₁, hfree, h⟩ := Option.bind_eq_some_iff.1 h
    obtain ⟨hin, hout⟩ := ih hnd h
    have hfree : s.rtRbbBlkFree cfg i = some s₁ := hfree
    unfold State.rtRbbBlkFree at hfree
    split at hfree
    swap
    · cases hfree
    rename_i hused
    cases hfree
    refine ⟨fun j hj => ?_, fun j hj => ?_⟩
    · rcases List.mem_cons.1 hj with rfl | hjl
      · exact ⟨hused.2, (hout j hnew).trans (setStatus_self ..)⟩
      · have hji : j ≠ i := by
          rintro rfl
          exact hnew hjl
        obtain ⟨hjused, hjfree⟩ := hin j hjl
        rw [setStatus_of_ne _ _ hji] at hjused
        exact ⟨hjused, hjfree⟩
    · obtain ⟨hji, hjl⟩ := not_or.1 (fun h => hj (List.mem_cons.2 h))
      exact (hout j hjl).trans (setStatus_of_ne _ _ hji)

/-- **`rt_rbb_blk_queue_len`** adds up the blocks. -/
theorem queueLen_eq (hlt : ∀ i ∈ queueBlocks q, i < cfg.blkMaxNum) :
    s.rtRbbBlkQueueLen cfg q = some (BitVec.ofNat 32 (s.total (queueBlocks q))) := by
  have hfold : ∀ (l : List ℕ) (sum : BitVec 32), (∀ i ∈ l, q.blocks + i < cfg.blkMaxNum) →
      l.foldlM (fun sum i => (s.blocks cfg q i).map fun block => sum + block.size) sum =
        some (sum + BitVec.ofNat 32 (s.total (l.map (q.blocks + ·)))) := by
    intro l
    induction l with
    | nil => simp
    | cons i l ih =>
      intro sum hlt
      rw [List.foldlM_cons, State.blocks, if_pos (hlt i List.mem_cons_self)]
      refine (ih _ fun j hj => hlt j (List.mem_cons_of_mem i hj)).trans ?_
      rw [List.map_cons, ofNat_total]
  rw [State.rtRbbBlkQueueLen, hfold _ 0 fun i hi => hlt _ (List.mem_map_of_mem hi), word_zero_add, queueBlocks]

/-! ## Exact queues -/

theorem run_nodup (h : Listed cfg s) (hput : s.fromPut = i :: l) (len : BitVec 32) :
    (i :: loopRun s len i (s.blkSet i).size l).Nodup ∧
      ∀ j ∈ i :: loopRun s len i (s.blkSet i).size l, j ∈ s.blkList := by
  have hsub : (i :: loopRun s len i (s.blkSet i).size l).Sublist s.blkList := by
    refine ((loopRun_sublist s len i (s.blkSet i).size l).cons_cons i).trans ?_
    rw [← hput]
    exact List.dropWhile_sublist _
  exact ⟨h.nodup.sublist hsub, fun j hj => hsub.subset hj⟩

/-- With no block to take, a queue is exact if and only if it is empty before. -/
theorem exact_nil (h : Listed cfg s) (hput : s.fromPut = []) :
    s.QueueExact cfg len q ↔ q.blkNum = 0 := by
  have hget := queueGet_eq h len q
  rw [hput] at hget
  have hmax : s.MaximalRun len.toNat [] := ⟨[], hput, ⟨nofun, List.isChain_nil, Nat.zero_le _⟩, nofun⟩
  constructor
  · rintro ⟨⟨l, hl, hexact⟩, -⟩
    obtain rfl := MaximalRun.unique hl hmax
    rw [hget] at hexact
    obtain ⟨-, -, -, -, hfree⟩ := hexact
    rw [queueFree_eq] at hfree
    -- a block that is freed does not stay what it was
    by_contra hnum
    have hmem : q.blocks ∈ queueBlocks q := mem_queueBlocks.2 ⟨le_rfl, by omega⟩
    obtain ⟨hused, hfreed⟩ := (freed_blocks (nodup_queueBlocks q) hfree).1 _ hmem
    exact hused hfreed
  · intro hnum
    have hnone : queueBlocks q = [] := by rw [queueBlocks, hnum, List.range_zero, List.map_nil]
    refine ⟨⟨[], hmax, ?_⟩, nextLen_eq h q⟩
    rw [hget]
    refine ⟨(taken_nil s).symm, rfl, nofun, ?_, ?_⟩
    · rw [queueLen_eq (by rw [hnone]; nofun), hnone]
      rfl
    · rw [queueFree_eq, hnone]
      exact free_blocks .nil nofun

/-- The blocks of a run are freed together if and only if they lie side by side. -/
theorem free_run (h : Listed cfg s) (hlist : ∀ i ∈ l, i ∈ s.blkList) :
    (s.taken l).rtRbbBlkQueueFree cfg q = some ((s.taken l).freed l) ↔ ∀ i, i ∈ l ↔ i ∈ queueBlocks q := by
  have hgot : ∀ i ∈ l, (s.taken l).status i ≠ .unused := by
    intro i hi
    rw [State.status, taken_of_mem hi]
    simp
  rw [queueFree_eq]
  constructor
  · intro hfree i
    obtain ⟨hin, hout⟩ := freed_blocks (nodup_queueBlocks q) hfree
    constructor
    · intro hi
      by_contra hno
      have hsame := hout i hno
      have hunused : ((s.taken l).freed l).status i = .unused := by
        show (if i ∈ l then _ else _ : Blk).status = _
        rw [if_pos hi]
      exact hgot i hi (hsame.symm.trans hunused)
    · intro hi
      by_contra hno
      obtain ⟨hused, hfreed⟩ := hin i hi
      refine hused ?_
      rw [← hfreed]
      show _ = (if i ∈ l then _ else _ : Blk).status
      rw [if_neg hno]
      rfl
  · intro hsame
    have hfreed : (s.taken l).freed l = (s.taken l).freed (queueBlocks q) := by
      show State.mk _ _ = State.mk _ _
      rw [State.mk.injEq]
      refine ⟨funext fun i => ?_, rfl⟩
      by_cases hi : i ∈ l
      · rw [if_pos hi, if_pos ((hsame i).1 hi)]
      · rw [if_neg hi, if_neg fun hmem => hi ((hsame i).2 hmem)]
    rw [hfreed]
    refine free_blocks (nodup_queueBlocks q) fun i hi => ?_
    have hmem := (hsame i).2 hi
    refine ⟨⟨(h.used i (hlist i hmem)).1, hgot i hmem⟩, fun hlisted => ?_⟩
    exact of_decide_eq_true (List.mem_filter.1 hlisted).2 hmem

/-- **A queue is exact** if and only if the first block fits, the loop stops where the blocks do not follow each
other, and they lie side by side. -/
theorem exact_iff (h : Listed cfg s) : s.QueueExact cfg len q ↔ s.QueueFits len q := by
  have hget := queueGet_eq h len q
  cases hput : s.fromPut with
  | nil =>
    rw [exact_nil h hput, State.QueueFits, hput]
  | cons first l =>
    rw [hput] at hget
    obtain ⟨hnd, hlist⟩ := run_nodup h hput len
    rw [State.QueueFits, hput]
    simp only at hget ⊢
    have hsize : BitVec.ofNat 32 (s.blkSet first).size.toNat = (s.blkSet first).size := by
      rw [BitVec.ofNat_toNat, BitVec.setWidth_eq]
    by_cases hle : (s.blkSet first).size ≤ len
    swap
    · -- the code takes the first block all the same
      refine iff_of_false ?_ fun hfits => hle hfits.1
      rintro ⟨⟨l', hl', hexact⟩, -⟩
      obtain rfl := MaximalRun.unique hl' (nil_maximal hput (BitVec.not_le.1 hle))
      rw [hget] at hexact
      have hstate := hexact.1
      have hstatus : (s.taken (first :: loopRun s len first (s.blkSet first).size l)).status first = .get := by
        rw [State.status, taken_of_mem List.mem_cons_self]
      rw [hstate, taken_nil, fromPut_status hput] at hstatus
      cases hstatus
    have hmax := runBehind_maximal hput hle
    obtain ⟨hbegins, hiff⟩ := loopRun_eq_iff s first l hle
    rw [hsize] at hbegins hiff
    generalize s.runBehind len.toNat first (s.blkSet first).size.toNat l = run at *
    rw [total_cons, ← hiff]
    constructor
    · rintro ⟨⟨l', hl', hexact⟩, -⟩
      obtain rfl := MaximalRun.unique hl' hmax
      rw [hget] at hexact
      obtain ⟨hstate, -, -, -, hfree⟩ := hexact
      -- what is taken is the run
      have hsub : ∀ i ∈ loopRun s len first (s.blkSet first).size l, i ∈ first :: run := by
        intro i hi
        by_contra hno
        have hgot := congrArg (fun s' => State.status s' i) hstate
        simp only [State.status, taken_of_mem (List.mem_cons_of_mem first hi), taken_of_notMem hno] at hgot
        have hputs : (s.blkSet i).status = .put := loopRun_put s l i hi
        rw [hputs] at hgot
        cases hgot
      have hrun : loopRun s len first (s.blkSet first).size l = run := by
        obtain ⟨hnew, hnd'⟩ := List.nodup_cons.1 hnd
        have hsub' : ∀ i ∈ loopRun s len first (s.blkSet first).size l, i ∈ run := by
          intro i hi
          rcases List.mem_cons.1 (hsub i hi) with rfl | hmem
          · exact absurd hi hnew
          · exact hmem
        exact (hbegins.eq_of_length (Nat.le_antisymm hbegins.length_le (hnd'.subperm hsub').length_le)).symm
      refine ⟨hle, hrun, ?_⟩
      rw [hrun] at hfree hnd hlist
      refine (List.perm_ext_iff_of_nodup hnd List.nodup_range').2 fun i => ?_
      rw [(free_run h hlist).1 hfree i, mem_queueBlocks, List.length_cons, List.mem_range'_1]
    · rintro ⟨-, hrun, hside⟩
      rw [hrun] at hget hnd hlist
      have hsame : ∀ i, i ∈ first :: run ↔ i ∈ queueBlocks ⟨first, (first :: run).length⟩ := by
        intro i
        rw [mem_queueBlocks, hside.mem_iff, List.mem_range'_1, List.length_cons]
      have hlt : ∀ i ∈ queueBlocks ⟨first, (first :: run).length⟩, i < cfg.blkMaxNum :=
        fun i hi => (h.used i (hlist i ((hsame i).2 hi))).1
      have htotal : s.total (first :: run) < 2 ^ 32 := by
        obtain ⟨-, -, ⟨-, -, hfits⟩, -⟩ := hmax
        have hlen := len.isLt
        omega
      refine ⟨⟨first :: run, hmax, ?_⟩, nextLen_eq h q⟩
      rw [hget]
      refine ⟨rfl, ?_, ?_, ?_, (free_run h hlist).2 hsame⟩
      · rw [BitVec.toNat_ofNat, Nat.mod_eq_of_lt htotal]
      · intro i hi
        obtain rfl : first = i := Option.some.inj hi
        have hfirst : first < cfg.blkMaxNum := (h.used first (hlist first List.mem_cons_self)).1
        rw [State.rtRbbBlkQueueBuf, State.blocks, Nat.add_zero, if_pos hfirst, Option.map_some, (taken_blk ..).2]
      · rw [queueLen_eq hlt]
        have hperm : (first :: run).Perm (queueBlocks ⟨first, (first :: run).length⟩) :=
          (List.perm_ext_iff_of_nodup hnd (nodup_queueBlocks _)).2 hsame
        have hsum : (s.taken (first :: run)).total (queueBlocks ⟨first, (first :: run).length⟩) =
            s.total (first :: run) := by
          rw [State.total, State.total, (hperm.map _).sum_nat]
          congr 1
          exact List.map_congr_left fun i _ => by rw [(taken_blk s (first :: run) i).1]
        rw [hsum]

theorem listed_step (h : Listed cfg s) (hs : s.step cfg a = some s') : Listed cfg s' := by
  by_cases ha : ∀ blkSize, a ≠ .alloc blkSize
  · exact h.shrink (step_shrinks hs ha)
  · obtain ⟨blkSize, ha⟩ := not_forall.1 ha
    obtain rfl : a = .alloc blkSize := not_not.1 ha
    obtain ⟨r, hr, rfl⟩ := Option.map_eq_some_iff.1 hs
    cases alloc_cases hr with
    | fail hr => exact hr ▸ h
    | empty new hnew _ hr => exact hr ▸ h.append (findEmpty_unused hnew)
    | top new _ _ hnew _ _ _ _ hr => exact hr ▸ h.append (findEmpty_unused hnew)
    | bottom new _ _ hnew _ _ _ _ _ hr => exact hr ▸ h.append (findEmpty_unused hnew)
    | gap new _ _ hnew _ _ _ _ hr => exact hr ▸ h.append (findEmpty_unused hnew)

theorem reach_listed (h : Runs cfg Run.Any s) : Listed cfg s := by
  refine Run.Reach.inv (I := Listed cfg) (fun s hinit => .init hinit) ?_ h
  exact fun s a s' hlisted _ hs => listed_step hlisted hs

/-- **A queue of blocks is exact** in every state that the calls reach, for every `queue_data_len` and every queue
before, if and only if `QueueFits`. -/
theorem queue_exact (cfg : Config) {s : State} (h : Runs cfg Run.Any s) (queueDataLen : BitVec 32)
    (blkQueue : BlkQueue) : s.QueueExact cfg queueDataLen blkQueue ↔ s.QueueFits queueDataLen blkQueue :=
  exact_iff (reach_listed h)

/-- Two blocks of two bytes follow each other. -/
theorem queue_exact_two : ∃ s : State, s.fromPut = [0, 1] ∧ s.QueueExact fourBytes 4 ⟨0, 0⟩ := by
  obtain ⟨s, hr, h⟩ := Run.Reach.exec_ok (State.step fourBytes) Run.Any (fresh_init fourBytes)
    [.alloc 2, .put 0, .alloc 2, .put 1]
    (fun s => decide (s.fromPut = [0, 1]) && decide (s.QueueFits 4 ⟨0, 0⟩)) (by decide)
  rw [Bool.and_eq_true, decide_eq_true_eq, decide_eq_true_eq] at h
  exact ⟨s, h.1, (queue_exact fourBytes hr 4 ⟨0, 0⟩).2 h.2⟩

/-- **A queue is too large**: a block of four bytes is taken where one byte is asked for. -/
theorem queue_too_large : ∃ s : State, Runs fourBytes Run.Any s ∧
    (s.rtRbbBlkQueueGet 1 ⟨0, 0⟩).1 = 4 ∧ ¬s.QueueExact fourBytes 1 ⟨0, 0⟩ := by
  obtain ⟨s, hr, h⟩ := Run.Reach.exec_ok (State.step fourBytes) Run.Any (fresh_init fourBytes) [.alloc 4, .put 0]
    (fun s => decide ((s.rtRbbBlkQueueGet 1 ⟨0, 0⟩).1 = 4) && decide (¬s.QueueFits 1 ⟨0, 0⟩)) (by decide)
  rw [Bool.and_eq_true, decide_eq_true_eq, decide_eq_true_eq] at h
  exact ⟨s, hr, h.1, fun hexact => h.2 ((exact_iff (reach_listed hr)).1 hexact)⟩

end RtThread.RingBlk
