import RtThread.Proof.MemRuns
import RtThread.Spec.MemBlocks

/-!
# Pool blocks are never shared

* `rtMpInit_ok`: on a buffer with room for a block, `rt_mp_init` cuts it into blocks and links them all.
* `alloc_step`, `free_step`, `write_step`: a call moves one block between the free list and the callers.
* `free_returns`: a held block can be given back.
* `blocks_unshared`: **the free and the held blocks are all the blocks of the pool**, each once, in every run,
  and the calls store inside the buffer; this is so if and only if the buffer has room for a block.
-/

namespace RtThread.MemPool

open Bytes Mem

variable {c : Config} {g : Args c} {k k' : Client} {m : Bytes.Mem} {a b v : ℕ} {l : Stores} {call : Call}

/-! ## Words in memory -/

theorem ptrSize_pos : 0 < ptrSize c := by
  unfold ptrSize
  split <;> omega

theorem ptrSize_le : ptrSize c ≤ 8 := by
  unfold ptrSize
  split <;> omega

theorem pow_ptrSize : 256 ^ ptrSize c = 2 ^ c.bits := by
  unfold ptrSize Config.bits
  cases c.arch64 <;> norm_num

theorem wrap_eq (h : a < 2 ^ c.bits) : wrap c a = a := Nat.mod_eq_of_lt h

theorem load_same (hv : v < 2 ^ c.bits) : load c (writeLE m a (ptrSize c) v) a = v :=
  readLE_writeLE_same (pow_ptrSize (c := c) ▸ hv)

theorem load_disj (h : a + ptrSize c ≤ b ∨ b + ptrSize c ≤ a) :
    load c (writeLE m b (ptrSize c) v) a = load c m a :=
  readLE_writeLE_disj h

theorem storeAll_append (x : ℕ × ℕ) : storeAll c m (l ++ [x]) = writeLE (storeAll c m l) x.1 (ptrSize c) x.2 := by
  unfold storeAll
  rw [List.foldl_append]
  rfl

theorem target_ne (h : a ≠ rtNull) : target a = some a := if_neg h

theorem target_eq_some (h : target a = some b) : a = b ∧ b ≠ rtNull := by
  unfold target at h
  split at h
  · cases h
  · rename_i hne
    cases h
    exact ⟨rfl, hne⟩

theorem target_eq_none (h : target a = none) : a = rtNull := by
  unfold target at h
  split at h
  · assumption
  · cases h

/-! ## `rt_mp_init` -/

/-- The loop of `rt_mp_init` links each block to the next one. -/
theorem linkBlocks_ok {start step n : ℕ} (hstep : ptrSize c ≤ step) (hb : start + n * step < 2 ^ c.bits) :
    (∀ i < n, load c (storeAll c m (linkBlocks c start step n)) (start + i * step) = start + (i + 1) * step) ∧
      ∀ x ∈ linkBlocks c start step n, ∃ i < n, x.1 = start + i * step := by
  induction n with
  | zero => exact ⟨nofun, nofun⟩
  | succ n ih =>
    have hle : n * step ≤ (n + 1) * step := Nat.mul_le_mul_right step (Nat.le_succ n)
    obtain ⟨ihload, ihmem⟩ := ih (by omega)
    have ha : wrap c (start + wrap c (n * step)) = start + n * step := by
      rw [wrap_eq (a := n * step) (by omega), wrap_eq (by omega)]
    have hv : wrap c (start + wrap c ((n + 1) * step)) = start + (n + 1) * step := by
      rw [wrap_eq (a := (n + 1) * step) (by omega), wrap_eq hb]
    refine ⟨fun i hi => ?_, fun x hx => ?_⟩
    · unfold linkBlocks
      rw [storeAll_append, ha, hv]
      rcases Nat.lt_succ_iff_lt_or_eq.1 hi with hi | rfl
      · have hmul : (i + 1) * step ≤ n * step := Nat.mul_le_mul_right step hi
        rw [load_disj (by rw [Nat.succ_mul] at hmul; omega)]
        exact ihload i hi
      · exact load_same hb
    · rcases List.mem_append.1 hx with hx | hx
      · obtain ⟨i, hi, e⟩ := ihmem x hx
        exact ⟨i, by omega, e⟩
      · rw [List.mem_singleton] at hx
        exact ⟨n, Nat.lt_succ_self n, by rw [hx, ha]⟩

/-- The address of the `i`-th block. -/
def Args.block (g : Args c) (i : ℕ) : ℕ := g.start + i * (c.rtAlign g.blockSize + ptrSize c)

/-- What a buffer with room for a block is cut into. -/
structure Args.Cut (g : Args c) (count : ℕ) : Prop where
  le : g.blockSize ≤ c.rtAlign g.blockSize
  step_lt : c.rtAlign g.blockSize + ptrSize c < 2 ^ c.bits
  eq : count = c.rtAlignDown g.size / (c.rtAlign g.blockSize + ptrSize c)
  pos : 0 < count
  inside : count * (c.rtAlign g.blockSize + ptrSize c) ≤ g.size

theorem Args.Roomy.cut (h : g.Roomy) : ∃ count, g.Cut count := by
  have hP := ptrSize_pos (c := c)
  have hsz : c.rtAlignDown g.size ≤ g.size := Word.alignDown_le Config.alignLog_lt
  have hsize : g.size < 2 ^ c.bits := by have := g.bound; omega
  have hA := Config.alignSize_pos (c := c)
  unfold Args.Roomy at h
  -- what is rounded up does not wrap, as it fits into the buffer
  have hup : g.blockSize + c.alignSize - 1 <
      ((g.blockSize + c.alignSize - 1) / c.alignSize + 1) * c.alignSize := by
    have := Nat.lt_mul_div_succ (g.blockSize + c.alignSize - 1) hA
    rwa [Nat.mul_comm] at this
  rw [Nat.add_one_mul] at hup
  have hAB : c.alignSize ∣ 2 ^ c.bits := Nat.pow_dvd_pow 2 (Nat.le_of_lt Config.alignLog_lt)
  have hlt : g.blockSize + c.alignSize - 1 < 2 ^ c.bits := by
    by_contra hge
    rw [Nat.not_lt] at hge
    have h₁ := Nat.div_le_div_right (c := c.alignSize) hge
    have h₂ := Nat.mul_le_mul_right c.alignSize h₁
    rw [Nat.div_mul_cancel hAB] at h₂
    omega
  have hr : c.rtAlign g.blockSize = (g.blockSize + c.alignSize - 1) / c.alignSize * c.alignSize := by
    rw [Config.rtAlign, Word.alignUp_eq Config.alignLog_lt]
    unfold Config.alignSize at hlt ⊢
    rw [Nat.mod_eq_of_lt hlt]
  rw [← hr] at h
  have hle := (Config.rtAlign_bounds hlt).1
  refine ⟨_, hle, by omega, rfl, Nat.div_pos h (by omega), ?_⟩
  exact le_trans (Nat.div_mul_le_self _ _) hsz

/-- The pool that `rt_mp_init` makes, and its stores. -/
theorem rtMpInit_eq {count : ℕ} (h : g.Cut count) : rtMpInit c g.start g.size g.blockSize =
    some (⟨g.start, c.rtAlignDown g.size, c.rtAlign g.blockSize, g.start, count, count⟩,
      linkBlocks c g.start (c.rtAlign g.blockSize + ptrSize c) count ++ [(g.block (count - 1), rtNull)]) := by
  have hP := ptrSize_pos (c := c)
  have hpos := h.pos
  have hbound := g.bound
  have hin := h.inside
  have hle := Nat.mul_le_mul_right (c.rtAlign g.blockSize + ptrSize c) (Nat.sub_le count 1)
  have hcount : count < 2 ^ c.bits := by
    have := Nat.le_mul_of_pos_right count (show 0 < c.rtAlign g.blockSize + ptrSize c by omega)
    omega
  have hlast : wrap c (g.start + wrap c (c.sub count 1 * (c.rtAlign g.blockSize + ptrSize c))) =
      g.block (count - 1) := by
    rw [Config.sub_eq hcount hpos, wrap_eq (a := (count - 1) * _) (by omega), wrap_eq (by omega)]
    rfl
  unfold rtMpInit
  simp only [wrap_eq h.step_lt, ← h.eq, hlast]
  rw [if_neg (by omega)]

/-- **`rt_mp_init` links all blocks**, and stores inside the buffer. -/
theorem init_ok {count : ℕ} (h : g.Cut count) (hk : Client.Init g k) : k.WellFormed g := by
  obtain ⟨m, hinit, hmem, hheld⟩ := hk
  rw [rtMpInit_eq h, Option.some.injEq, Prod.mk.injEq] at hinit
  obtain ⟨hpool, hstores⟩ := hinit
  have hP := ptrSize_pos (c := c)
  have hpos := h.pos
  have hbound := g.bound
  have hin := h.inside
  have hblocks : k.pool.blocks c = (List.range' 0 count).map g.block := by
    rw [← hpool, ← List.range_eq_range']
    rfl
  have hlt : ∀ i < count, g.block i + (c.rtAlign g.blockSize + ptrSize c) ≤ g.start + g.size := by
    intro i hi
    have := Nat.mul_le_mul_right (c.rtAlign g.blockSize + ptrSize c) (show i + 1 ≤ count from hi)
    rw [Nat.add_one_mul] at this
    unfold Args.block
    omega
  have hmono : ∀ i j, i < j → g.block i + (c.rtAlign g.blockSize + ptrSize c) ≤ g.block j := by
    intro i j hij
    have := Nat.mul_le_mul_right (c.rtAlign g.blockSize + ptrSize c) (show i + 1 ≤ j from hij)
    rw [Nat.add_one_mul] at this
    unfold Args.block
    omega
  have hend : g.start + count * (c.rtAlign g.blockSize + ptrSize c) < 2 ^ c.bits := by omega
  obtain ⟨hload, hsto⟩ := linkBlocks_ok (m := m) (Nat.le_add_left (ptrSize c) (c.rtAlign g.blockSize)) hend
  have hnodup : ((List.range' 0 count).map g.block).Nodup := by
    refine List.Pairwise.map _ (fun i j hij => ?_) (List.pairwise_lt_range' 1)
    have := hmono i j hij
    omega
  have hfree : FreeList c k ((List.range' 0 count).map g.block) := by
    obtain ⟨n, rfl⟩ : ∃ n, count = n + 1 := ⟨count - 1, by omega⟩
    have hk : k.mem = writeLE (storeAll c m (linkBlocks c g.start (c.rtAlign g.blockSize + ptrSize c) (n + 1)))
        (g.block n) (ptrSize c) rtNull := by
      rw [hmem, ← hstores, storeAll_append]
      rfl
    have hne : ∀ i, g.block i ≠ rtNull := fun i => by
      have := g.start_pos
      unfold rtNull Args.block at *
      omega
    unfold FreeList
    rw [← hpool, show target g.start = some (g.block 0) by
      unfold Args.block
      rw [Nat.zero_mul, Nat.add_zero]
      exact target_ne g.start_pos]
    refine Chain.range (fun j _ hj => ?_) ?_
    · rw [hk, load_disj (by have := hmono j n (by omega); omega)]
      have := hload j (by omega)
      rw [show g.block j = g.start + j * (c.rtAlign g.blockSize + ptrSize c) from rfl, this]
      exact target_ne (hne (j + 1))
    · rw [hk, Nat.zero_add, load_same (v := rtNull) (Nat.two_pow_pos _)]
      rfl
  refine ⟨⟨_, hfree, ?_, hnodup, ?_⟩, ?_, ?_, ?_, ?_, ?_, ?_⟩
  · rw [← hpool]
    simp
  · rw [hheld, List.map_nil, List.append_nil, hblocks]
  · rw [hblocks]
    exact hnodup
  · rw [← hpool]
    exact h.le
  · rw [hblocks]
    intro a ha
    obtain ⟨i, hi, rfl⟩ := List.mem_map.1 ha
    have := hlt i (by simpa using (List.mem_range'_1.1 hi).2)
    rw [← hpool]
    refine ⟨Nat.le_add_right _ _, ?_⟩
    show g.block i + ptrSize c + c.rtAlign g.blockSize ≤ _
    omega
  · rw [hblocks, ← hpool]
    refine List.Pairwise.map _ (fun i j hij => ?_) (List.pairwise_lt_range' 1)
    have := hmono i j hij
    show g.block i + ptrSize c + c.rtAlign g.blockSize ≤ _
    omega
  · rw [hheld]
    nofun
  · rw [← hstores]
    intro x hx
    obtain ⟨i, hi, e⟩ : ∃ i < count, x.1 = g.block i := by
      rcases List.mem_append.1 hx with hx | hx
      · exact hsto x hx
      · rw [List.mem_singleton] at hx
        exact ⟨count - 1, by omega, by rw [hx]⟩
    have := hlt i hi
    rw [e]
    refine ⟨Nat.le_add_right _ _, ?_⟩
    omega

/-! ## Calls -/

/-- Two blocks have their headers apart, and no header lies in the user area of another block. -/
theorem blocks_apart (ha : a ∈ k.pool.blocks c) (hb : b ∈ k.pool.blocks c)
    (hne : a ≠ b) : a + ptrSize c + k.pool.blockSize ≤ b ∨ b + ptrSize c + k.pool.blockSize ≤ a := by
  obtain ⟨i, -, rfl⟩ := List.mem_map.1 ha
  obtain ⟨j, -, rfl⟩ := List.mem_map.1 hb
  rcases Nat.lt_trichotomy i j with hij | rfl | hij
  · left
    have := Nat.mul_le_mul_right (k.pool.blockSize + ptrSize c) (show i + 1 ≤ j from hij)
    rw [Nat.add_one_mul] at this
    omega
  · exact absurd rfl hne
  · right
    have := Nat.mul_le_mul_right (k.pool.blockSize + ptrSize c) (show j + 1 ≤ i from hij)
    rw [Nat.add_one_mul] at this
    omega

/-- A held block is a block of the pool, and not `RT_NULL`. -/
theorem Client.WellFormed.held (h : k.WellFormed g) (hp : a ∈ k.held) :
    a - ptrSize c ∈ k.pool.blocks c ∧ a - ptrSize c + ptrSize c = a := by
  obtain ⟨l, -, -, -, hperm⟩ := h.free
  have hmem : a - ptrSize c ∈ k.pool.blocks c :=
    hperm.subset (List.mem_append_right _ (List.mem_map_of_mem hp))
  have hstart := g.start_pos
  have hin := (h.inside _ hmem).1
  unfold rtNull at hstart
  exact ⟨hmem, by omega⟩

/-- The blocks of a pool are fewer than the words of the machine. -/
theorem Client.WellFormed.count_lt (h : k.WellFormed g) : k.pool.blockTotalCount < 2 ^ c.bits := by
  have hP := ptrSize_pos (c := c)
  have hbound := g.bound
  rcases Nat.eq_zero_or_pos k.pool.blockTotalCount with h0 | hpos
  · rw [h0]
    exact Nat.two_pow_pos _
  · have hmem : k.pool.startAddress + (k.pool.blockTotalCount - 1) * (k.pool.blockSize + ptrSize c) ∈
        k.pool.blocks c :=
      List.mem_map.2 ⟨k.pool.blockTotalCount - 1, List.mem_range.2 (by omega), rfl⟩
    have hin := (h.inside _ hmem).2
    have := Nat.le_mul_of_pos_right (k.pool.blockTotalCount - 1) (show 0 < k.pool.blockSize + ptrSize c by omega)
    omega

/-- The stores of a call go into the header of a block. -/
theorem Client.WellFormed.stores_append (h : k.WellFormed g) (ha : a ∈ k.pool.blocks c) :
    ∀ x ∈ k.stores ++ [(a, v)], g.start ≤ x.1 ∧ x.1 + ptrSize c ≤ g.start + g.size := by
  intro x hx
  rcases List.mem_append.1 hx with hx | hx
  · exact h.stores x hx
  · rw [List.mem_singleton] at hx
    have := h.inside a ha
    rw [hx]
    exact ⟨this.1, by show a + ptrSize c ≤ _; omega⟩

/-- **`rt_mp_alloc`** takes the first free block, if there is one. -/
theorem alloc_step (h : k.WellFormed g) {pool : Mempool} {stores : Stores} {block : ℕ}
    (hr : rtMpAlloc c k.mem g.mp k.pool = some (block, pool, stores)) :
    Client.WellFormed g ⟨storeAll c k.mem stores, pool,
      if block = rtNull then k.held else block :: k.held, k.stores ++ stores⟩ := by
  obtain ⟨l, hl, hlen, hnd, hperm⟩ := h.free
  unfold rtMpAlloc at hr
  split at hr
  · cases hr
    rw [if_pos rfl, List.append_nil]
    exact h
  rename_i hcount
  simp only [Option.bind_eq_bind, Option.bind_eq_some_iff, Option.pure_def, Option.some.injEq] at hr
  obtain ⟨-, -, hr⟩ := hr
  cases hr
  cases l with
  | nil => exact absurd hlen.symm hcount
  | cons a l =>
    obtain ⟨hhead, hl⟩ := hl
    obtain ⟨rfl, hne⟩ := target_eq_some hhead
    have hblock : k.pool.blockList ∈ k.pool.blocks c := hperm.subset (by simp)
    have hin := h.inside _ hblock
    have hbound := g.bound
    have hP := ptrSize_pos (c := c)
    have hwrap : wrap c (k.pool.blockList + ptrSize c) = k.pool.blockList + ptrSize c := wrap_eq (by omega)
    have hnull : k.pool.blockList + ptrSize c ≠ rtNull := by
      unfold rtNull
      omega
    rw [hwrap, if_neg hnull]
    have hother : ∀ b ∈ k.pool.blocks c, b ≠ k.pool.blockList →
        load c (storeAll c k.mem [(k.pool.blockList, g.mp)]) b = load c k.mem b := by
      intro b hb hne
      refine load_disj ?_
      have := blocks_apart hb hblock hne
      omega
    have hnd' := hperm.nodup_iff.2 h.distinct
    rw [List.cons_append, List.nodup_cons, List.mem_append, not_or] at hnd'
    refine ⟨⟨l, ?_, ?_, (List.nodup_cons.1 hnd).2, ?_⟩, h.distinct, h.size, h.inside, h.disjoint, ?_,
      h.stores_append hblock⟩
    · refine Chain.congr (fun b hb => ?_) hl
      have hb' : b ∈ k.pool.blocks c := hperm.subset (by simp [hb])
      exact congrArg target (hother b hb' fun e => hnd'.1.1 (e ▸ hb))
    · show l.length = k.pool.blockFreeCount - 1
      rw [← hlen]
      rfl
    · rw [List.map_cons, Nat.add_sub_cancel]
      exact List.perm_middle.trans hperm
    · intro p hp
      rcases List.mem_cons.1 hp with rfl | hp
      · rw [Nat.add_sub_cancel]
        exact load_same g.mp_lt
      · have hmem := List.mem_map_of_mem (f := (· - ptrSize c)) hp
        exact (hother _ (h.held hp).1 fun e => hnd'.1.2 (e ▸ hmem)).trans (h.owner p hp)

/-- **`rt_mp_free`** puts the block before the free ones. -/
theorem free_step (h : k.WellFormed g) {pool : Mempool} {stores : Stores} {block : ℕ} (hp : block ∈ k.held)
    (hr : rtMpFree c k.mem g.mp k.pool block = some (pool, stores)) :
    Client.WellFormed g ⟨storeAll c k.mem stores, pool, k.held.erase block, k.stores ++ stores⟩ := by
  obtain ⟨l, hl, hlen, hnd, hperm⟩ := h.free
  obtain ⟨hblock, hptr⟩ := h.held hp
  have hin := h.inside _ hblock
  have hbound := g.bound
  have hP := ptrSize_pos (c := c)
  have hsub : c.sub block (ptrSize c) = block - ptrSize c := Config.sub_eq (by omega) (by omega)
  unfold rtMpFree at hr
  rw [hsub] at hr
  simp only [Option.bind_eq_bind, Option.bind_eq_some_iff, Option.pure_def, Option.some.injEq] at hr
  obtain ⟨-, -, hr⟩ := hr
  cases hr
  have hother : ∀ b ∈ k.pool.blocks c, b ≠ block - ptrSize c →
      load c (storeAll c k.mem [(block - ptrSize c, k.pool.blockList)]) b = load c k.mem b := by
    intro b hb hne
    refine load_disj ?_
    have := blocks_apart hb hblock hne
    omega
  have hback : (k.held.map (· - ptrSize c)).Perm
      ((block - ptrSize c) :: (k.held.erase block).map (· - ptrSize c)) :=
    (List.perm_cons_erase hp).map _
  have hperm' : ((block - ptrSize c) :: (l ++ (k.held.erase block).map (· - ptrSize c))).Perm (k.pool.blocks c) :=
    (List.perm_middle.symm.trans (hback.symm.append_left l)).trans hperm
  have hnd' := hperm'.nodup_iff.2 h.distinct
  rw [List.nodup_cons, List.mem_append, not_or] at hnd'
  have hlist : k.pool.blockList < 2 ^ c.bits := by
    cases l with
    | nil =>
      rw [target_eq_none hl]
      exact Nat.two_pow_pos _
    | cons a l =>
      obtain ⟨rfl, -⟩ := target_eq_some hl.1
      have := h.inside k.pool.blockList (hperm.subset (by simp))
      omega
  have hlink : load c (storeAll c k.mem [(block - ptrSize c, k.pool.blockList)]) (block - ptrSize c) =
      k.pool.blockList := load_same hlist
  refine ⟨⟨(block - ptrSize c) :: l, ?_, ?_, List.nodup_cons.2 ⟨hnd'.1.1, hnd⟩, hperm'⟩, h.distinct, h.size,
    h.inside, h.disjoint, ?_, h.stores_append hblock⟩
  · refine ⟨target_ne fun (e : block - ptrSize c = 0) => ?_, ?_⟩
    · have hstart := g.start_pos
      unfold rtNull at hstart
      omega
    · show Chain _ (target (load c (storeAll c k.mem [(block - ptrSize c, k.pool.blockList)]) (block - ptrSize c))) l
      rw [hlink]
      refine Chain.congr (fun b hb => ?_) hl
      exact congrArg target (hother b (hperm.subset (by simp [hb])) fun e => hnd'.1.1 (e ▸ hb))
  · have hlen' := hperm'.length_eq
    have hcount := h.count_lt
    rw [List.length_cons, List.length_append] at hlen'
    have htotal : (k.pool.blocks c).length = k.pool.blockTotalCount := by simp [Mempool.blocks]
    show l.length + 1 = wrap c (k.pool.blockFreeCount + 1)
    rw [wrap_eq (by omega), hlen]
  · intro p hp'
    have hheld := List.mem_of_mem_erase hp'
    have hmem := List.mem_map_of_mem (f := (· - ptrSize c)) hp'
    exact (hother _ (h.held hheld).1 fun e => hnd'.1.2 (e ▸ hmem)).trans (h.owner p hheld)

/-- **The callers' writes** reach no header. -/
theorem write_step (h : k.WellFormed g)
    (hm : ∀ i, m i ≠ k.mem i → ∃ p ∈ k.held, p ≤ i ∧ i < p + k.pool.blockSize) :
    Client.WellFormed g { k with mem := m } := by
  obtain ⟨l, hl, hlen, hnd, hperm⟩ := h.free
  have hload : ∀ b ∈ k.pool.blocks c, load c m b = load c k.mem b := by
    intro b hb
    refine readLE_congr fun i hlo hhi => ?_
    by_contra hne
    obtain ⟨p, hp, hpi, hip⟩ := hm i hne
    obtain ⟨hblock, hptr⟩ := h.held hp
    by_cases hpb : p - ptrSize c = b
    · omega
    · have := blocks_apart hblock hb hpb
      omega
  refine ⟨⟨l, ?_, hlen, hnd, hperm⟩, h.distinct, h.size, h.inside, h.disjoint, fun p hp => ?_, h.stores⟩
  · exact Chain.congr (fun b hb => congrArg target (hload b (hperm.subset (by simp [hb])))) hl
  · exact (hload _ (h.held hp).1).trans (h.owner p hp)

theorem client_step (h : k.WellFormed g) (hs : Client.Step g k call k') : k'.WellFormed g := by
  cases hs with
  | alloc hr => exact alloc_step h hr
  | free hp hr => exact free_step h hp hr
  | write hm => exact write_step h hm

/-- A held block can be given back. -/
theorem free_returns (h : k.WellFormed g) (hp : a ∈ k.held) : (rtMpFree c k.mem g.mp k.pool a).isSome := by
  obtain ⟨hblock, hptr⟩ := h.held hp
  have hin := h.inside _ hblock
  have hbound := g.bound
  have hsub : c.sub a (ptrSize c) = a - ptrSize c := Config.sub_eq (by omega) (by omega)
  unfold rtMpFree
  simp [hsub, h.owner a hp]

/-! ## Runs -/

/-- A pool that is well formed once has room for a block. -/
theorem Args.Roomy.of_init (hk : Client.Init g k) (h : k.WellFormed g) : g.Roomy := by
  obtain ⟨m, hinit, -, hheld⟩ := hk
  unfold rtMpInit at hinit
  simp only at hinit
  split at hinit
  · cases hinit
  rw [Option.some.injEq, Prod.mk.injEq] at hinit
  obtain ⟨hpool, -⟩ := hinit
  have hbound := g.bound
  have hA := Config.alignSize_pos (c := c)
  have hword : c.alignSize < 2 ^ c.bits := by
    have h₁ := Config.alignSize_le (c := c)
    have h₂ := Config.word_ge (c := c)
    omega
  -- the free list is not empty
  have hpos : 0 < k.pool.blockTotalCount := by
    by_contra h0
    obtain ⟨l, hl, -, -, hperm⟩ := h.free
    have hblocks : k.pool.blocks c = [] := by
      unfold Mempool.blocks
      rw [Nat.eq_zero_of_not_pos h0]
      rfl
    rw [hblocks] at hperm
    obtain ⟨rfl, -⟩ := List.append_eq_nil_iff.1 hperm.eq_nil
    unfold FreeList at hl
    rw [← hpool] at hl
    exact g.start_pos (target_eq_none hl)
  have hfirst := h.inside k.pool.startAddress (List.mem_map.2 ⟨0, List.mem_range.2 hpos, by simp⟩)
  have hsize := h.size
  rw [← hpool] at hpos hfirst hsize
  simp only at hpos hfirst hsize
  have hstep := wrap_eq (c := c) (a := c.rtAlign g.blockSize + ptrSize c) (by omega)
  rw [hstep] at hpos
  have hroom := Nat.le_of_not_lt fun hlt => absurd (Nat.div_eq_of_lt hlt) (Nat.ne_of_gt hpos)
  have hr := Word.alignUp_eq (n := g.blockSize) (Config.alignLog_lt (c := c))
  have hlt : g.blockSize + c.alignSize - 1 < 2 ^ c.bits := by
    -- else it is rounded to 0
    by_contra hge
    have h0 : c.rtAlign g.blockSize = 0 := by
      have hb := g.blockSize_lt
      unfold Config.rtAlign
      rw [hr, Nat.mod_eq_sub_mod (by unfold Config.alignSize at hge; omega),
        Nat.mod_eq_of_lt (by unfold Config.alignSize at *; omega),
        Nat.div_eq_of_lt (by unfold Config.alignSize at *; omega), Nat.zero_mul]
    omega
  unfold Args.Roomy
  unfold Config.alignSize at hlt ⊢
  rwa [Config.rtAlign, hr, Nat.mod_eq_of_lt hlt] at hroom

/-- **Pool blocks are never shared**, and no store of a call goes outside the buffer, in every run: if and only
if the buffer has room for a block. -/
theorem blocks_unshared (g : Args c) :
    ((rtMpInit c g.start g.size g.blockSize).isSome ∧ ∀ k, Runs g k → k.WellFormed g) ↔ g.Roomy := by
  constructor
  · rintro ⟨hsome, hall⟩
    obtain ⟨⟨pool, stores⟩, hinit⟩ := Option.isSome_iff_exists.1 hsome
    have hk : Client.Init g ⟨storeAll c (fun _ => 0) stores, pool, [], stores⟩ := ⟨_, hinit, rfl, rfl⟩
    exact .of_init hk (hall _ (.init hk))
  · intro h
    obtain ⟨count, hcut⟩ := h.cut
    refine ⟨by rw [rtMpInit_eq hcut]; rfl, fun k hk => ?_⟩
    exact hk.inv (I := Client.WellFormed g) (fun _ h0 => init_ok hcut h0) fun _ _ _ hI _ hs => client_step hI hs

/-- A buffer of 8 bytes for blocks of 16. -/
def tiny : Args board where
  mp := 64
  start := 4096
  size := 8
  blockSize := 16
  mp_lt := by decide
  start_pos := by decide
  bound := by decide
  blockSize_lt := by decide

/-- **A pool without blocks**: `rt_mp_init` ends its free list before the buffer. -/
theorem init_strays : ∃ k, Runs tiny k ∧ (4076, rtNull) ∈ k.stores ∧ ¬ k.WellFormed tiny := by
  have hinit : rtMpInit board tiny.start tiny.size tiny.blockSize =
      some (⟨4096, 8, 16, 4096, 0, 0⟩, [(4076, rtNull)]) := by decide
  refine ⟨⟨storeAll board (fun _ => 0) [(4076, rtNull)], _, [], _⟩, .init ⟨fun _ => 0, hinit, rfl, rfl⟩,
    List.mem_singleton_self _, fun h => ?_⟩
  have := (h.stores (4076, rtNull) (by simp)).1
  exact absurd this (by decide)

end RtThread.MemPool
