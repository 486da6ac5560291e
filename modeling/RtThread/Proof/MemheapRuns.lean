import RtThread.Proof.MemheapRealloc

/-!
# Runs on a memory heap

* `ClientInv.step`: one call keeps the heap well formed, and its greatest use on record.
* `ClientInv.wellFormed`: what a walk through the lists sees.
-/

namespace RtThread.Memheap

open Bytes Layout

variable {c : Config} {s s' : Heap} {k k' : Client} {bs bs' l r : List Blk} {fl fl' live g : List ℕ} {j n p q x size : ℕ}

/-- The heap of a program that has the pointers `live`. -/
structure HeapOwns (c : Config) (s : Heap) (live : List ℕ) (bs : List Blk) (fl : List ℕ) : Prop
    extends HeapInv c s bs fl where
  owns : Owned (· + c.memheapSize) s.startAddr bs live

/-- The user area of a used block ends at the next item. -/
theorem HeapInv.areaEnd (hi : HeapInv c s (l ++ ⟨true, j⟩ :: r) fl) :
    s.areaEnd c (s.startAddr + Layout.total l + c.memheapSize) = s.startAddr + Layout.total l + j := by
  unfold Heap.areaEnd
  rw [hi.header.1]
  exact hi.next

/-- Bytes of the user areas. -/
theorem HeapInv.data {m : Mem} (hi : HeapInv c s (l ++ ⟨true, j⟩ :: r) fl)
    (hm : ∀ i, m i ≠ s.mem i → s.startAddr + Layout.total l + c.memheapSize ≤ i ∧ i < s.startAddr + Layout.total l + j) :
    HeapInv c { s with mem := m } (l ++ ⟨true, j⟩ :: r) fl := by
  have hdata := hi.holds_mid.data hm
  have hholds : Holds c s { s with mem := m } ((l ++ ⟨true, j⟩ :: r) ++ [tailer c]) fl := by
    rw [List.append_assoc]
    exact hdata
  exact hholds.inv hi.total hi.perm hi.noAdj hi.avail hi.block

/-! ## The greatest use -/

/-- `max_used_size` is the maximum of the values `g`. -/
structure Peak (s : Heap) (g : List ℕ) : Prop where
  greatest : g.max? = some s.maxUsedSize
  le : s.usedSize ≤ s.maxUsedSize

theorem Peak.again (h : Peak s g) (hmax : s'.maxUsedSize = s.maxUsedSize) (hle : s'.usedSize ≤ s.usedSize) :
    Peak s' (s'.usedSize :: g) := by
  have hle' := hle.trans h.le
  refine ⟨?_, hmax ▸ hle'⟩
  rw [List.max?_cons, h.greatest, Option.elim_some, Nat.max_eq_right hle', hmax]

theorem Peak.grown (h : Peak s g) (hmax : s'.maxUsedSize = max s.maxUsedSize s'.usedSize) :
    Peak s' (s'.usedSize :: g) := by
  refine ⟨?_, hmax ▸ Nat.le_max_right _ _⟩
  rw [List.max?_cons, h.greatest, Option.elim_some, hmax, Nat.max_comm]

theorem Gave.peak (hg : Gave c s bs s' fl) (hpool : s.poolSize < 2 ^ 32) (h : Peak s g) : Peak s' (s'.usedSize :: g) := by
  refine h.again hg.maxUsed ?_
  have hle := hg.inv.avail_le
  have hmore := hg.more
  have hsame := hg.same.poolSize
  unfold Heap.usedSize
  rw [sub_eq (by omega) (by omega), sub_eq (by omega) (by omega)]
  omega

/-! ## The sizes of the blocks -/

/-- Every block has room for the smallest request, unless the pool is one item without that room. -/
def Roomy (c : Config) (bs : List Blk) : Prop :=
  (∀ b ∈ bs, c.memheapSize + minialloc ≤ b.size) ∨ ∃ j, bs = [⟨false, j⟩] ∧ j < c.memheapSize + minialloc

/-- The items lie at multiples of `RT_ALIGN_SIZE` behind the start of the pool. -/
def Aligned (c : Config) (bs : List Blk) : Prop := ∀ b ∈ bs, c.alignSize ∣ b.size

theorem Config.dvd_memheapSize (c : Config) : c.alignSize ∣ c.memheapSize :=
  Word.dvd_alignUp (by have := c.alignLog_le; omega) _

/-- A block is cut for `n` bytes. -/
theorem Roomy.cut (h : Roomy c (l ++ ⟨false, j⟩ :: r)) (hn : minialloc ≤ n) (hj : n + c.memheapSize ≤ j) :
    Roomy c (l ++ cut (c.memheapSize + minialloc) (n + c.memheapSize) j ++ r) := by
  left
  rcases h with h | ⟨i, hi, hlt⟩
  · intro b hb
    simp only [List.mem_append] at hb
    rcases hb with (hb | hb) | hb
    · exact h b (by simp [hb])
    · unfold Layout.cut at hb
      split at hb
      · simp only [List.mem_cons, List.not_mem_nil, or_false] at hb
        rcases hb with rfl | rfl
        · show c.memheapSize + minialloc ≤ n + c.memheapSize
          omega
        · show c.memheapSize + minialloc ≤ j - (n + c.memheapSize)
          omega
      · rw [List.mem_singleton.1 hb]
        exact h ⟨false, j⟩ (by simp)
    · exact h b (by simp [hb])
  · obtain ⟨-, hb, -⟩ : l = [] ∧ (⟨false, j⟩ : Blk) = ⟨false, i⟩ ∧ r = [] := by
      rcases l with _ | ⟨b, l⟩
      · simpa using hi
      · simp at hi
    have hji := congrArg Blk.size hb
    simp only at hji
    omega

theorem Roomy.of_used (h : Roomy c (l ++ ⟨true, j⟩ :: r)) : ∀ b ∈ l ++ ⟨true, j⟩ :: r, c.memheapSize + minialloc ≤ b.size := by
  rcases h with h | ⟨i, hi, -⟩
  · exact h
  · have hmem : (⟨true, j⟩ : Blk) ∈ [(⟨false, i⟩ : Blk)] := by
      rw [← hi]
      simp
    simp at hmem

/-- A block of `j` bytes between `l` and `r` is joined with its free neighbours. -/
theorem Roomy.plug (hl : ∀ b ∈ l, c.memheapSize + minialloc ≤ b.size) (hr : ∀ b ∈ r, c.memheapSize + minialloc ≤ b.size)
    (hj : c.memheapSize + minialloc ≤ j) : Roomy c (plug l j r) := by
  left
  intro b hb
  rcases mem_plug hb with hb | hb | rfl
  · exact hl b hb
  · exact hr b hb
  · show c.memheapSize + minialloc ≤ _ + j + _
    omega

theorem Aligned.cut (h : Aligned c (l ++ ⟨false, j⟩ :: r))
    (hn : n + c.memheapSize + (c.memheapSize + minialloc) ≤ j → c.alignSize ∣ n) :
    Aligned c (l ++ cut (c.memheapSize + minialloc) (n + c.memheapSize) j ++ r) := by
  intro b hb
  simp only [List.mem_append] at hb
  rcases hb with (hb | hb) | hb
  · exact h b (by simp [hb])
  · have hj : c.alignSize ∣ j := h ⟨false, j⟩ (by simp)
    unfold Layout.cut at hb
    split at hb
    · rename_i hle
      have hnH := (Nat.dvd_add (hn hle) c.dvd_memheapSize)
      simp only [List.mem_cons, List.not_mem_nil, or_false] at hb
      rcases hb with rfl | rfl
      · exact hnH
      · exact Nat.dvd_sub hj hnH
    · rw [List.mem_singleton.1 hb]
      exact hj
  · exact h b (by simp [hb])

theorem Aligned.plug (hl : Aligned c l) (hr : Aligned c r) (hj : c.alignSize ∣ j) : Aligned c (plug l j r) := by
  intro b hb
  rcases mem_plug hb with hb | hb | rfl
  · exact hl b hb
  · exact hr b hb
  · refine Nat.dvd_add (Nat.dvd_add ?_ hj) ?_
    · rcases lastFree_cases l with ⟨i, l', rfl, h⟩ | ⟨h, -⟩
      · rw [h]
        exact hl ⟨false, i⟩ (by simp)
      · rw [h]
        exact Nat.dvd_zero _
    · rcases headFree_cases r with ⟨i, r', rfl, h⟩ | ⟨h, -⟩
      · rw [h]
        exact hr ⟨false, i⟩ (by simp)
      · rw [h]
        exact Nat.dvd_zero _

theorem Aligned.left (h : Aligned c (l ++ r)) : Aligned c l := fun b hb => h b (List.mem_append_left _ hb)

theorem Aligned.right (h : Aligned c (l ++ r)) : Aligned c r := fun b hb => h b (List.mem_append_right _ hb)

/-! ## The first free item -/

/-- The room of the free items adds up to `available_size`. -/
theorem HeapInv.available (hi : HeapInv c s bs fl) : s.availableSize = (fl.map (Memheap.memitemSize c s)).sum := by
  rw [hi.avail, ← sum_blocksAt c.memheapSize s.startAddr, (hi.perm.map _).sum_nat, unused, List.map_map]
  refine congrArg List.sum (List.map_congr_left fun x hx => ?_)
  obtain ⟨l, r, rfl, hx'⟩ := mem_blocksAt.1 hx
  rw [Function.comp_apply, hx', hi.memitemSize]

/-- The free items, from their blocks. -/
theorem HeapInv.mem_unused (hi : HeapInv c s bs fl) : x ∈ fl ↔ ∃ l j r, bs = l ++ ⟨false, j⟩ :: r ∧
    x = s.startAddr + Layout.total l := by
  rw [hi.perm.mem_iff, unused, List.mem_map]
  constructor
  · rintro ⟨⟨y, j⟩, hy, rfl⟩
    obtain ⟨l, r, hbs, hy'⟩ := mem_blocksAt.1 hy
    exact ⟨l, j, r, hbs, hy'⟩
  · rintro ⟨l, j, r, hbs, rfl⟩
    exact ⟨(s.startAddr + Layout.total l, j), mem_blocksAt.2 ⟨l, r, hbs, rfl⟩, rfl⟩

theorem HeapInv.first_eq (hi : HeapInv c s bs fl) : s.first = fl.headD s.freeList := by
  cases fl with
  | nil => exact hi.holds.pool.frees.1
  | cons y fl => exact hi.holds.pool.frees.1.1

/-- The first free item is the header only if there is none. -/
theorem HeapInv.first_ne (hi : HeapInv c s bs fl) (h : s.first ≠ s.freeList) : s.first ∈ fl := by
  rw [hi.first_eq] at h ⊢
  cases fl with
  | nil => exact absurd rfl h
  | cons y fl => exact List.mem_cons_self

/-- A free item has room for the smallest request. -/
theorem HeapInv.minialloc_le (hi : HeapInv c s bs fl) (hroomy : ∀ b ∈ bs, c.memheapSize + minialloc ≤ b.size)
    (hx : x ∈ fl) : minialloc ≤ Memheap.memitemSize c s x := by
  obtain ⟨l, j, r, rfl, rfl⟩ := hi.mem_unused.1 hx
  have hj : c.memheapSize + minialloc ≤ j := hroomy ⟨false, j⟩ (by simp)
  rw [hi.memitemSize]
  show minialloc ≤ j - c.memheapSize
  omega

/-- A request for `RT_MEMHEAP_MINIALLOC` bytes takes the first item. -/
theorem alloc_first (hne : s.first ≠ s.freeList)
    (hfit : request c size ≤ Memheap.memitemSize c s s.first) {p : ℕ} (hp : p ≠ rtNull)
    (h : rtMemheapAlloc c s size = some (p, s')) : p = add s.first c.memheapSize := by
  have hmini := minialloc_le_request (c := c) size
  have hpos : minialloc = 12 := rfl
  obtain ⟨m, hm⟩ : ∃ m, s.fuel = m + 2 := ⟨s.poolSize, rfl⟩
  have hfind : findFree c s (request c size) s.fuel s.first 0 = some (s.first, Memheap.memitemSize c s s.first) := by
    rw [hm, findFree, if_pos ⟨hne, by omega⟩]
    dsimp only
    rw [if_neg (Nat.not_lt.2 hfit), findFree, if_neg fun h => Nat.not_lt.2 hfit h.2]
  unfold rtMemheapAlloc at h
  dsimp only at h
  split at h
  · have hfirst : s.get s.freeList .nextFree = s.first := rfl
    rw [hfirst, hfind, Option.map_some, if_pos hfit, Option.some.injEq, Prod.mk.injEq] at h
    exact h.1.symm
  · rw [Option.some.injEq, Prod.mk.injEq] at h
    exact absurd h.1.symm hp

/-- **Completeness**: `rt_memheap_alloc` refuses a request that a free item has room for exactly when this is all the
available memory. -/
theorem HeapInv.refuses_iff (hi : HeapInv c s bs fl) (hroomy : Roomy c bs) (size : ℕ) :
    ((∃ s', rtMemheapAlloc c s size = some (rtNull, s')) → ∀ x ∈ fl, Memheap.memitemSize c s x < request c size) ↔
      ¬ExactFit c s (request c size) := by
  have hmini := minialloc_le_request (c := c) size
  constructor
  · rintro hall ⟨hne, hfit, havail⟩
    have hnull : rtMemheapAlloc c s size = some (rtNull, s) := by
      unfold rtMemheapAlloc
      exact if_neg (by omega)
    have := hall ⟨s, hnull⟩ s.first (hi.first_ne hne)
    omega
  · rintro hnot ⟨s', hnull⟩ x hx
    rcases rtMemheapAlloc_ok hi size with ⟨-, havail | hsmall⟩ | ⟨l, j, r, s'', fl', -, hret, -⟩
    · by_contra hfit
      have hsum := hi.available
      have hfirst := hi.first_eq
      obtain ⟨y, fl', rfl⟩ : ∃ y fl', fl = y :: fl' := List.exists_cons_of_ne_nil (List.ne_nil_of_mem hx)
      rw [List.headD_cons] at hfirst
      rw [List.map_cons, List.sum_cons] at hsum
      have hny : y ≠ s.freeList := by
        rintro rfl
        exact hi.holds.pool.free_notMem (hi.holds.pool.sub _ List.mem_cons_self)
      rcases List.mem_cons.1 hx with rfl | hx'
      · exact hnot ⟨by rw [hfirst]; exact hny, by rw [hfirst]; omega, by omega⟩
      · -- the first item has room, too
        have hle : Memheap.memitemSize c s x ≤ (fl'.map (Memheap.memitemSize c s)).sum := by
          obtain ⟨u, v, rfl⟩ := List.append_of_mem hx'
          rw [List.map_append, List.map_cons, List.sum_append, List.sum_cons]
          omega
        rcases hroomy with hroomy | ⟨i, rfl, -⟩
        · have hy := hi.minialloc_le hroomy (x := y) List.mem_cons_self
          have hpos : minialloc = 12 := rfl
          omega
        · have hlen := hi.perm.length_eq
          simp only [unused_false, unused_nil, List.length_cons, List.length_nil] at hlen
          rw [List.eq_nil_of_length_eq_zero (Nat.succ.inj hlen)] at hx'
          cases hx'
    · obtain ⟨l, j, r, rfl, rfl⟩ := hi.mem_unused.1 hx
      rw [hi.memitemSize]
      exact hsmall l j r rfl
    · rw [hret, Option.some.injEq, Prod.mk.injEq] at hnull
      have hH := c.memheapSize_bounds.1
      have h0 : rtNull = 0 := rfl
      omega

/-! ## One call -/

theorem aligned_request (c : Config) (size : ℕ) : c.alignSize ∣ request c size ∨ request c size = minialloc := by
  unfold request
  split
  · exact .inr rfl
  · exact .inl (Word.dvd_alignUp (by have := c.alignLog_le; omega) _)

/-- A rounded request stays. -/
theorem request_request (h : c.alignSize ∣ request c size) : request c (request c size) = request c size := by
  have hlog := c.alignLog_le
  have hlt := request_lt (c := c) size
  have hmini := minialloc_le_request (c := c) size
  obtain ⟨m, hm⟩ := h
  have hpow : c.alignSize * 2 ^ (32 - c.alignLog) = 2 ^ 32 := by
    rw [Config.alignSize, ← pow_add]
    congr 1
    omega
  have hpos : 1 ≤ c.alignSize := Nat.one_le_two_pow
  -- the last multiple of the alignment below 2 ^ 32
  have hle : request c size + c.alignSize ≤ 2 ^ 32 := by
    have hm' : m < 2 ^ (32 - c.alignLog) := by
      rw [hm, ← hpow] at hlt
      exact Nat.lt_of_mul_lt_mul_left hlt
    calc request c size + c.alignSize = c.alignSize * (m + 1) := by rw [hm, Nat.mul_succ]
      _ ≤ c.alignSize * 2 ^ (32 - c.alignLog) := Nat.mul_le_mul_left _ hm'
      _ = 2 ^ 32 := hpow
  have hbounds : request c size ≤ c.rtAlign (request c size) ∧ c.rtAlign (request c size) < request c size + c.alignSize :=
    Word.alignUp_bounds (by omega) (by unfold Config.alignSize at hle hpos; omega)
  have hdvd : c.alignSize ∣ c.rtAlign (request c size) := Word.dvd_alignUp (by omega) _
  have hsame : c.rtAlign (request c size) = request c size := by
    refine Nat.le_antisymm ?_ hbounds.1
    have hsub : c.alignSize ∣ c.rtAlign (request c size) - request c size := Nat.dvd_sub hdvd ⟨m, hm⟩
    have := Nat.eq_zero_of_dvd_of_lt hsub (by omega)
    omega
  generalize hn : request c size = n at *
  unfold request
  rw [hsame, if_neg (by omega)]

/-- What one call does to the layout. -/
structure Steps (c : Config) (k : Client) (bs : List Blk) (a : Call) (k' : Client) (bs' : List Blk) : Prop where
  start : k'.heap.startAddr = k.heap.startAddr
  peak : ∀ g, Peak k.heap g → Peak k'.heap (log c k a k' g)
  roomy : Roomy c bs → Roomy c bs'
  aligned : Roomy c bs → KeepsAligned c k a → Aligned c bs → Aligned c bs'

/-- A free item was split or taken whole for a rounded request. -/
theorem Took.aligned (hi : HeapInv c s (l ++ ⟨false, j⟩ :: r) fl)
    (hret : rtMemheapAlloc c s size = some (s.startAddr + total l + c.memheapSize, s'))
    (ht : Took c s l j r (request c size) s' fl') (hroomy : Roomy c (l ++ ⟨false, j⟩ :: r))
    (hal : Aligned c (l ++ ⟨false, j⟩ :: r))
    (hok : ¬c.alignSize ∣ request c size → s.first ≠ s.freeList →
      memitemSize c s s.first < request c size + c.memheapSize + minialloc) :
    Aligned c (l ++ cut (c.memheapSize + minialloc) (request c size + c.memheapSize) j ++ r) := by
  refine hal.cut fun hsplit => ?_
  by_contra hnot
  have hn := (aligned_request c size).resolve_left hnot
  have hle := ht.le
  have hH := c.memheapSize_bounds.1
  have hmem : s.startAddr + total l ∈ fl := hi.mem_free
  have hfirst : s.first ∈ fl := by
    rw [hi.first_eq]
    cases fl with
    | nil => cases hmem
    | cons y fl => exact List.mem_cons_self
  have hne : s.first ≠ s.freeList := by
    intro heq
    rw [heq] at hfirst
    exact hi.holds.pool.free_notMem (hi.holds.pool.sub _ hfirst)
  have hroom : ∀ b ∈ l ++ ⟨false, j⟩ :: r, c.memheapSize + minialloc ≤ b.size := by
    rcases hroomy with h | ⟨i, hb, hlt⟩
    · exact h
    · have hj : (⟨false, j⟩ : Blk) ∈ [(⟨false, i⟩ : Blk)] := by
        rw [← hb]
        simp
      have hij := congrArg Blk.size (List.mem_singleton.1 hj)
      simp only at hij
      omega
  have hfit := hi.minialloc_le hroom hfirst
  rw [← hn] at hfit
  have heq := alloc_first hne hfit hi.header.2 hret
  -- so the first item is the one that is split
  obtain ⟨l₁, j₁, r₁, hbs, hx⟩ := hi.mem_unused.1 hfirst
  have hpool := hi.pool_le
  have htot := hi.total
  have hj₁ : c.memheapSize ≤ j₁ := hi.holds.pool.size ⟨false, j₁⟩ (by rw [hbs]; simp)
  rw [hbs] at htot
  simp only [total_append, total_cons] at htot
  rw [hx, add_eq (by omega)] at heq
  have hsize := hi.memitemSize
  have hsmall := hok hnot hne
  rw [hx, ← Nat.add_right_cancel heq, hsize] at hsmall
  simp only at hsmall
  omega

namespace HeapOwns

/-- A block was taken. -/
theorem took (ho : HeapOwns c s live (l ++ ⟨false, j⟩ :: r) fl) (ht : Took c s l j r n s' fl') :
    HeapOwns c s' ((s.startAddr + Layout.total l + c.memheapSize) :: live)
      (l ++ cut (c.memheapSize + minialloc) (n + c.memheapSize) j ++ r) fl' := by
  refine ⟨ht.inv, ?_⟩
  rw [ht.same.startAddr]
  exact ho.owns.taken

/-- A block was given back. -/
theorem gave (ho : HeapOwns c s live (l ++ ⟨true, j⟩ :: r) fl) (hg : Gave c s (plug l j r) s' fl') :
    HeapOwns c s' (live.erase (s.startAddr + Layout.total l + c.memheapSize)) (plug l j r) fl' := by
  refine ⟨hg.inv, ?_⟩
  rw [hg.same.startAddr]
  exact ho.owns.plugged

/-- The program keeps the block. -/
theorem back (ho : HeapOwns c s live bs fl) (hp : p ∈ live) : HeapOwns c s (p :: live.erase p) bs fl :=
  ⟨ho.toHeapInv, (List.perm_cons_erase hp).symm.trans ho.owns⟩

theorem data {m : Mem} (ho : HeapOwns c s live (l ++ ⟨true, j⟩ :: r) fl)
    (hm : ∀ i, m i ≠ s.mem i → s.startAddr + Layout.total l + c.memheapSize ≤ i ∧ i < s.startAddr + Layout.total l + j) :
    HeapOwns c { s with mem := m } live (l ++ ⟨true, j⟩ :: r) fl := ⟨ho.toHeapInv.data hm, ho.owns⟩

end HeapOwns

/-- `rt_memheap_realloc` moves a block only to the end that it has no room for. -/
theorem between_none (h : size = 0 ∨ request c size ≤ memitemSize c s (sub p c.memheapSize) ∨
    expands c s (sub p c.memheapSize) (memitemSize c s (sub p c.memheapSize)) (request c size)) :
    s.between c p size = none := if_pos h

/-- A call that leaves the sizes and the counters. -/
theorem Steps.stays {a : Call} (hsame : Same k.heap k'.heap) (hmax : k'.heap.maxUsedSize = k.heap.maxUsedSize)
    (havail : k'.heap.availableSize = k.heap.availableSize) (hlog : ∀ g, log c k a k' g = k'.heap.usedSize :: g) :
    Steps c k bs a k' bs := by
  refine ⟨hsame.startAddr, fun g hg => ?_, id, fun _ _ h => h⟩
  rw [hlog]
  refine hg.again hmax (Nat.le_of_eq ?_)
  rw [Heap.usedSize, Heap.usedSize, havail, hsame.poolSize]

/-- A block is given back. -/
theorem Gave.steps {a : Call} (ho : HeapInv c k.heap (l ++ ⟨true, j⟩ :: r) fl)
    (hg : Gave c k.heap (plug l j r) k'.heap fl') (hlog : ∀ g, log c k a k' g = k'.heap.usedSize :: g) :
    Steps c k (l ++ ⟨true, j⟩ :: r) a k' (plug l j r) := by
  refine ⟨hg.same.startAddr, fun g h => ?_, fun h => ?_, fun _ _ h => ?_⟩
  · rw [hlog]
    exact hg.peak ho.pool_lt h
  · have hall := h.of_used
    exact .plug (fun b hb => hall b (by simp [hb])) (fun b hb => hall b (by simp [hb])) (hall ⟨true, j⟩ (by simp))
  · exact .plug h.left (fun b hb => h b (by simp [hb])) (h ⟨true, j⟩ (by simp))

/-- `rt_memheap_alloc` by the program. -/
theorem HeapOwns.alloc (ho : HeapOwns c k.heap k.live bs fl) {size : BitVec 32} (hst : k.step c (.alloc size) = some k') :
    ∃ bs' fl', HeapOwns c k'.heap k'.live bs' fl' ∧ Steps c k bs (.alloc size) k' bs' := by
  obtain ⟨⟨p, s'⟩, hret, rfl⟩ := Option.map_eq_some_iff.1 hst
  dsimp only
  rcases rtMemheapAlloc_ok ho.toHeapInv size.toNat with ⟨hnull, -⟩ | ⟨l, j, r, s'', fl', rfl, hnew, ht⟩
  · obtain ⟨rfl, rfl⟩ := Prod.mk.inj (Option.some.inj (hnull.symm.trans hret))
    exact ⟨bs, fl, by rw [if_pos rfl]; exact ho, .stays (.refl _) rfl rfl fun _ => rfl⟩
  · obtain ⟨rfl, rfl⟩ := Prod.mk.inj (Option.some.inj (hnew.symm.trans hret))
    have hmini := minialloc_le_request (c := c) size.toNat
    rw [if_neg ho.header.2]
    exact ⟨_, fl', ho.took ht, ht.same.startAddr, fun g h => h.grown ht.maxUsed, fun h => h.cut hmini ht.le,
      fun hroomy hok h => ht.aligned ho.toHeapInv hnew hroomy h hok⟩

/-- What the program has after `rt_memheap_realloc` of `p`. -/
def afterRealloc (live : List ℕ) (p size q : ℕ) : List ℕ :=
  if size = 0 then live.erase p else if q = rtNull then live else q :: live.erase p

/-- The block moves: a block is taken, the bytes are copied, and the old block is given back. -/
theorem HeapOwns.move (ho : HeapOwns c s live (l ++ ⟨true, j⟩ :: r) fl) (hlt : j < n + c.memheapSize)
    (hn : n ≤ request c n) {res : ℕ × Heap}
    (hres : Memheap.move c s (s.startAddr + Layout.total l + c.memheapSize) (j - c.memheapSize) n = some res) :
    rtMemheapAlloc c s n = some (rtNull, s) ∧ res = (rtNull, s) ∨
      ∃ l₁ i r₁ s₁ fl₁ m l' j' r' s₃ fl₃, l ++ ⟨true, j⟩ :: r = l₁ ++ ⟨false, i⟩ :: r₁ ∧
        rtMemheapAlloc c s n = some (s.startAddr + Layout.total l₁ + c.memheapSize, s₁) ∧
        Took c s l₁ i r₁ (request c n) s₁ fl₁ ∧
        l₁ ++ cut (c.memheapSize + minialloc) (request c n + c.memheapSize) i ++ r₁ = l' ++ ⟨true, j'⟩ :: r' ∧
        HeapOwns c { s₁ with mem := m } ((s.startAddr + Layout.total l₁ + c.memheapSize) :: live)
          (l' ++ ⟨true, j'⟩ :: r') fl₁ ∧
        s.startAddr + Layout.total l' = s.startAddr + Layout.total l ∧
        Gave c { s₁ with mem := m } (plug l' j' r') s₃ fl₃ ∧
        res = (s.startAddr + Layout.total l₁ + c.memheapSize, s₃) := by
  have hH := c.memheapSize_bounds.1
  unfold Memheap.move at hres
  rcases rtMemheapAlloc_ok ho.toHeapInv n with ⟨hnull, -⟩ | ⟨l₁, i, r₁, s₁, fl₁, hbs, hnew, ht⟩
  · left
    simp only [hnull, Option.bind_eq_bind, Option.bind_some, ne_eq, not_true_eq_false, if_false] at hres
    exact ⟨hnull, (Option.some.inj hres).symm⟩
  · right
    have hi₁ : HeapInv c s (l₁ ++ ⟨false, i⟩ :: r₁) fl := hbs ▸ ho.toHeapInv
    have ho₁ : HeapOwns c s live (l₁ ++ ⟨false, i⟩ :: r₁) fl := hbs ▸ ho
    have hnew0 := hi₁.header.2
    have hto := ho₁.took ht
    have hstart := ht.same.startAddr
    have hle := ht.le
    simp only [hnew, Option.bind_eq_bind, Option.bind_some, ne_eq, hnew0, not_false_eq_true, if_true] at hres
    generalize hm : copy s₁.mem (s.startAddr + Layout.total l₁ + c.memheapSize)
      (s.startAddr + Layout.total l + c.memheapSize) _ = m at hres
    -- the copy writes into the new block
    have hdata : HeapOwns c { s₁ with mem := m } ((s.startAddr + Layout.total l₁ + c.memheapSize) :: live)
        (l₁ ++ cut (c.memheapSize + minialloc) (request c n + c.memheapSize) i ++ r₁) fl₁ := by
      obtain ⟨t, ht', -⟩ := cut_cases (c.memheapSize + minialloc) (request c n + c.memheapSize) i
      rw [ht', List.append_assoc, List.cons_append] at hto ⊢
      refine hto.data fun x hx => ?_
      by_contra hout
      refine hx ?_
      rw [← hm]
      refine copy_out ?_
      have htaken : request c n + c.memheapSize ≤ taken (c.memheapSize + minialloc) (request c n + c.memheapSize) i := by
        unfold taken
        split <;> omega
      rw [hstart] at hout
      split <;> omega
    have hold : s.startAddr + Layout.total l + c.memheapSize ∈
        (s.startAddr + Layout.total l₁ + c.memheapSize) :: live := List.mem_cons_of_mem _ ho.owns.mem
    obtain ⟨l', j', r', hbs', hp'⟩ := hdata.owns.split hold
    rw [hbs'] at hdata
    have hl' : s.startAddr + Layout.total l' = s.startAddr + Layout.total l := by
      have := hp'
      simp only [hstart] at this
      omega
    obtain ⟨s₃, fl₃, hfree, hgave⟩ := rtMemheapFree_ok hdata.toHeapInv
    have haddr : s₁.startAddr + Layout.total l' + c.memheapSize = s.startAddr + Layout.total l + c.memheapSize := by
      rw [hstart, hl']
    rw [haddr] at hfree
    rw [hfree, Option.bind_some] at hres
    exact ⟨l₁, i, r₁, s₁, fl₁, m, l', j', r', s₃, fl₃, hbs, hnew, ht, hbs', hdata, hl', hgave, (Option.some.inj hres).symm⟩

theorem le_request_request (c : Config) (size : ℕ) : request c size ≤ request c (request c size) := by
  rcases aligned_request c size with h | h
  · exact Nat.le_of_eq (request_request h).symm
  · rw [h]
    exact minialloc_le_request _

/-- The block has moved. -/
theorem HeapOwns.moved (ho : HeapOwns c s live (l ++ ⟨true, j⟩ :: r) fl) {size : BitVec 32} (hsize : size ≠ 0)
    (hlt : j < request c size.toNat + c.memheapSize)
    (hnot : ¬expands c s (s.startAddr + Layout.total l) (j - c.memheapSize) (request c size.toNat))
    (hres : Memheap.move c s (s.startAddr + Layout.total l + c.memheapSize) (j - c.memheapSize) (request c size.toNat) =
      some (q, s')) : ∃ bs' fl',
    HeapOwns c s' (afterRealloc live (s.startAddr + Layout.total l + c.memheapSize) size.toNat q) bs' fl' ∧
      Steps c ⟨s, live⟩ (l ++ ⟨true, j⟩ :: r) (.realloc (s.startAddr + Layout.total l + c.memheapSize) size)
        ⟨s', afterRealloc live (s.startAddr + Layout.total l + c.memheapSize) size.toNat q⟩ bs' := by
  have h0 : size.toNat ≠ 0 := fun h => hsize (BitVec.eq_of_toNat_eq h)
  have hheader := ho.header.1
  have hmini := minialloc_le_request (c := c) (request c size.toNat)
  have hmini₀ := minialloc_le_request (c := c) size.toNat
  have hpos : minialloc = 12 := rfl
  have hold : memitemSize c s (s.startAddr + Layout.total l) = j - c.memheapSize := ho.memitemSize
  have hbetween : s.between c (s.startAddr + Layout.total l + c.memheapSize) size.toNat =
      (rtMemheapAlloc c s (request c size.toNat)).bind fun p => if p.1 = rtNull then none else some p.2 := by
    unfold Heap.between
    dsimp only
    rw [hheader, hold]
    refine if_neg ?_
    rintro (h | h | h)
    · exact h0 h
    · omega
    · exact hnot h
  unfold afterRealloc
  rw [if_neg h0]
  rcases ho.move hlt (le_request_request c size.toNat) hres with
    ⟨hnull, hq⟩ | ⟨l₁, i, r₁, s₁, fl₁, m, l', j', r', s₃, fl₃, hbs, hnew, ht, hbs', ho₂, hl', hgave, hq⟩
  · obtain ⟨rfl, rfl⟩ := Prod.mk.inj hq
    rw [if_pos rfl]
    refine ⟨_, fl, ho, .stays (.refl _) rfl rfl fun g => ?_⟩
    simp only [log, hbetween, hnull, Option.bind_some, if_true]
    rfl
  · obtain ⟨rfl, rfl⟩ := Prod.mk.inj hq
    have hi₁ : HeapInv c s (l₁ ++ ⟨false, i⟩ :: r₁) fl := hbs ▸ ho.toHeapInv
    have hne := hi₁.header.2
    rw [if_neg hne]
    have ho₃ := ho₂.gave hgave
    have hstart := ht.same.startAddr
    have haddr : s₁.startAddr + Layout.total l' + c.memheapSize = s.startAddr + Layout.total l + c.memheapSize := by
      rw [hstart, hl']
    rw [haddr] at ho₃
    have hroomy₂ : Roomy c (l ++ ⟨true, j⟩ :: r) → Roomy c (l' ++ ⟨true, j'⟩ :: r') := by
      intro h
      rw [← hbs']
      exact (hbs ▸ h).cut hmini ht.le
    refine ⟨plug l' j' r', fl₃, ⟨ho₃.toHeapInv, ?_⟩, ?_, ?_, ?_, ?_⟩
    · -- the new pointer joins, then the old one leaves
      refine List.Perm.trans ?_ ho₃.owns
      by_cases hq : s.startAddr + Layout.total l₁ + c.memheapSize = s.startAddr + Layout.total l + c.memheapSize
      · rw [hq, List.erase_cons_head]
        exact (List.perm_cons_erase ho.owns.mem).symm
      · rw [List.erase_cons_tail (by simpa using hq)]
    · exact hgave.same.startAddr.trans hstart
    · intro g hg
      have hlog : log c ⟨s, live⟩ (.realloc (s.startAddr + Layout.total l + c.memheapSize) size)
          ⟨s', (s.startAddr + Layout.total l₁ + c.memheapSize) ::
            live.erase (s.startAddr + Layout.total l + c.memheapSize)⟩ g = s'.usedSize :: s₁.usedSize :: g := by
        simp only [log, hbetween, hnew, Option.bind_some, hne, if_false]
        rfl
      have hpeak : Peak s₁ (s₁.usedSize :: g) := hg.grown ht.maxUsed
      rw [hlog]
      exact hgave.peak ho₂.pool_lt ⟨hpeak.greatest, hpeak.le⟩
    · intro h
      have hall := (hroomy₂ h).of_used
      exact .plug (fun b hb => hall b (by simp [hb])) (fun b hb => hall b (by simp [hb])) (hall ⟨true, j'⟩ (by simp))
    · intro hroomy hok h
      -- the request is above the size of a block, so it is rounded
      have hroom : c.memheapSize + minialloc ≤ j := hroomy.of_used ⟨true, j⟩ (by simp)
      have hdvd : c.alignSize ∣ request c size.toNat := (aligned_request c size.toNat).resolve_right (by omega)
      have hreq := request_request hdvd
      have hcut : Aligned c (l' ++ ⟨true, j'⟩ :: r') := by
        rw [← hbs']
        refine (hbs ▸ h : Aligned c (l₁ ++ ⟨false, i⟩ :: r₁)).cut fun _ => ?_
        rw [hreq]
        exact hdvd
      exact .plug hcut.left (fun b hb => hcut b (by simp [hb])) (hcut ⟨true, j'⟩ (by simp))

/-- An end of `rt_memheap_realloc`, on the layout. -/
theorem Realloced.steps (ho : HeapOwns c s live (l ++ ⟨true, j⟩ :: r) fl) {size : BitVec 32} {res : Option (ℕ × Heap)}
    (h : Realloced c s l j r size.toNat res) (hres : res = some (q, s')) : ∃ bs' fl',
    HeapOwns c s' (afterRealloc live (s.startAddr + total l + c.memheapSize) size.toNat q) bs' fl' ∧
      Steps c ⟨s, live⟩ (l ++ ⟨true, j⟩ :: r) (.realloc (s.startAddr + total l + c.memheapSize) size)
        ⟨s', afterRealloc live (s.startAddr + total l + c.memheapSize) size.toNat q⟩ bs' := by
  have hheader := ho.header.1
  have hnull := ho.header.2
  have hmini := minialloc_le_request (c := c) size.toNat
  have hH := c.memheapSize_bounds.1
  have hold : memitemSize c s (s.startAddr + total l) = j - c.memheapSize := ho.memitemSize
  -- where the block does not move, only the last value is new
  have hlog : ∀ (k' : Client), s.between c (s.startAddr + total l + c.memheapSize) size.toNat = none → ∀ g,
      log c ⟨s, live⟩ (.realloc (s.startAddr + total l + c.memheapSize) size) k' g = k'.heap.usedSize :: g := by
    intro k' hb g
    simp only [log, hb, Option.map_none, Option.toList_none, List.nil_append]
  have hlive : ∀ h0 : size.toNat ≠ 0, afterRealloc live (s.startAddr + total l + c.memheapSize) size.toNat
      (s.startAddr + total l + c.memheapSize) = (s.startAddr + total l + c.memheapSize) ::
        live.erase (s.startAddr + total l + c.memheapSize) := by
    intro h0
    rw [afterRealloc, if_neg h0, if_neg hnull]
  cases h with
  | free h0 =>
    obtain ⟨s'', fl', hfree, hgave⟩ := rtMemheapFree_ok ho.toHeapInv
    rw [hfree, Option.map_some, Option.some.injEq, Prod.mk.injEq] at hres
    obtain ⟨rfl, rfl⟩ := hres
    rw [afterRealloc, if_pos h0]
    refine ⟨_, fl', ho.gave hgave, hgave.steps ho.toHeapInv (hlog _ (between_none (.inl h0)))⟩
  | same h0 hle =>
    rw [Option.some.injEq, Prod.mk.injEq] at hres
    obtain ⟨rfl, rfl⟩ := hres
    rw [hlive h0]
    refine ⟨_, fl, ho.back ho.owns.mem, .stays (.refl _) rfl rfl (hlog _ (between_none (.inr (.inl ?_))))⟩
    rw [hheader, hold]
    omega
  | shrink h0 hlt =>
    obtain ⟨fl', hgave⟩ := shrink_ok ho.toHeapInv hlt
    rw [Option.some.injEq, Prod.mk.injEq] at hres
    obtain ⟨rfl, rfl⟩ := hres
    rw [hlive h0]
    have hshrunk := ho.owns.shrunk (n := request c size.toNat + c.memheapSize) (by omega)
    refine ⟨_, fl', ⟨hgave.inv, ?_⟩, hgave.same.startAddr, fun g hg => ?_, fun h => ?_, fun _ hok h => ?_⟩
    · rw [hgave.same.startAddr]
      exact (List.perm_cons_erase ho.owns.mem).symm.trans hshrunk
    · rw [hlog _ (between_none (.inr (.inl (by rw [hheader, hold]; omega))))]
      exact hgave.peak ho.pool_lt hg
    · have hall := h.of_used
      refine .plug (fun b hb => ?_) (fun b hb => hall b (by simp [hb])) (by omega)
      rcases List.mem_append.1 hb with hb | hb
      · exact hall b (by simp [hb])
      · rw [List.mem_singleton.1 hb]
        show c.memheapSize + minialloc ≤ request c size.toNat + c.memheapSize
        omega
    · -- the block is split, so the request is a multiple
      have hdvd : c.alignSize ∣ request c size.toNat := by
        by_contra hnot
        have hsmall := hok (fun h => h0 (by rw [h]; rfl)) hnot
        simp only [hheader, hold] at hsmall
        omega
      have hnH := Nat.dvd_add hdvd c.dvd_memheapSize
      refine .plug (fun b hb => ?_) (fun b hb => h b (by simp [hb])) (Nat.dvd_sub (h ⟨true, j⟩ (by simp)) hnH)
      rcases List.mem_append.1 hb with hb | hb
      · exact h b (by simp [hb])
      · rw [List.mem_singleton.1 hb]
        exact hnH
  | expand h0 i r' hr hlt hfit hexp =>
    subst hr
    obtain ⟨fl', hgrew⟩ := expand_ok ho.toHeapInv (by omega) hfit
    rw [Option.some.injEq, Prod.mk.injEq] at hres
    obtain ⟨rfl, rfl⟩ := hres
    rw [hlive h0]
    have hi : c.memheapSize ≤ i := ho.holds.pool.size ⟨false, i⟩ (by simp)
    have hj : c.memheapSize ≤ j := ho.holds.pool.size ⟨true, j⟩ (by simp)
    have hgrown := ho.owns.grown (n := request c size.toNat + c.memheapSize) (by omega)
    refine ⟨_, fl', ⟨hgrew.inv, ?_⟩, hgrew.same.startAddr, fun g hg => ?_, fun h => ?_, fun hroomy _ h => ?_⟩
    · rw [hgrew.same.startAddr]
      exact (List.perm_cons_erase ho.owns.mem).symm.trans hgrown
    · rw [hlog _ (between_none (.inr (.inr (by rw [hheader, hold]; exact hexp))))]
      exact hg.grown hgrew.maxUsed
    · have hall := h.of_used
      left
      intro b hb
      rcases List.mem_append.1 hb with hb | hb
      · exact hall b (by simp [hb])
      · rcases List.mem_cons.1 hb with rfl | hb
        · show c.memheapSize + minialloc ≤ request c size.toNat + c.memheapSize
          omega
        · rcases List.mem_cons.1 hb with rfl | hb
          · show c.memheapSize + minialloc ≤ j + i - (request c size.toNat + c.memheapSize)
            omega
          · exact hall b (by simp [hb])
    · have hroom : c.memheapSize + minialloc ≤ j := hroomy.of_used ⟨true, j⟩ (by simp)
      have hdvd : c.alignSize ∣ request c size.toNat := (aligned_request c size.toNat).resolve_right (by omega)
      have hnH := Nat.dvd_add hdvd c.dvd_memheapSize
      intro b hb
      rcases List.mem_append.1 hb with hb | hb
      · exact h b (by simp [hb])
      · rcases List.mem_cons.1 hb with rfl | hb
        · exact hnH
        · rcases List.mem_cons.1 hb with rfl | hb
          · exact Nat.dvd_sub (Nat.dvd_add (h ⟨true, j⟩ (by simp)) (h ⟨false, i⟩ (by simp))) hnH
          · exact h b (by simp [hb])
  | move h0 hlt hnot => exact ho.moved (fun h => h0 (by rw [h]; rfl)) hlt hnot hres

/-- **One call** keeps the heap well formed. -/
theorem HeapOwns.step (ho : HeapOwns c k.heap k.live bs fl) {a : Call} (hok : KeepsItems c k a)
    (hst : k.step c a = some k') :
    ∃ bs' fl', HeapOwns c k'.heap k'.live bs' fl' ∧ Steps c k bs a k' bs' := by
  cases a with
  | alloc size => exact ho.alloc hst
  | free p =>
    unfold Client.step at hst
    dsimp only at hst
    split at hst
    · rename_i hp
      obtain ⟨l, j, r, rfl, rfl⟩ := ho.owns.split hp
      obtain ⟨s', fl', hfree, hgave⟩ := rtMemheapFree_ok ho.toHeapInv
      rw [hfree, Option.map_some] at hst
      obtain rfl := (Option.some.inj hst).symm
      have hgave' : Gave c k.heap (plug l j r)
          (⟨s', k.live.erase (k.heap.startAddr + Layout.total l + c.memheapSize)⟩ : Client).heap fl' := hgave
      exact ⟨_, fl', ho.gave hgave, hgave'.steps ho.toHeapInv fun _ => rfl⟩
    · cases hst
  | realloc p size =>
    unfold Client.step at hst
    dsimp only at hst
    split at hst
    · rename_i hp
      obtain ⟨l, j, r, rfl, rfl⟩ := ho.owns.split hp
      obtain ⟨⟨q, s'⟩, hret, hk'⟩ := Option.map_eq_some_iff.1 hst
      have hkeeps : 2 ^ 32 ≤ request c size.toNat + minialloc →
          isUsed k.heap (k.heap.get (k.heap.startAddr + total l) .next) := by
        intro hwrap
        have hused := hok hwrap
        rwa [ho.header.1] at hused
      have hends := rtMemheapRealloc_ok ho.toHeapInv size.toNat hkeeps
      obtain ⟨bs', fl', h₁, h₂⟩ := hends.steps ho hret
      have hafter : (if size = 0 then k.live.erase (k.heap.startAddr + total l + c.memheapSize) else
          if q = rtNull then k.live else q :: k.live.erase (k.heap.startAddr + total l + c.memheapSize)) =
          afterRealloc k.live (k.heap.startAddr + total l + c.memheapSize) size.toNat q := by
        have hiff : size = 0 ↔ size.toNat = 0 := ⟨fun h => by rw [h]; rfl, fun h => BitVec.eq_of_toNat_eq h⟩
        unfold afterRealloc
        simp only [hiff]
      dsimp only at hk'
      rw [hafter] at hk'
      subst hk'
      exact ⟨bs', fl', h₁, h₂⟩
    · cases hst
  | write i v =>
    unfold Client.step at hst
    dsimp only at hst
    split at hst
    · rename_i hp
      obtain ⟨p, hp, h1, h2⟩ := hp
      obtain ⟨l, j, r, rfl, rfl⟩ := ho.owns.split hp
      rw [ho.areaEnd] at h2
      obtain rfl := (Option.some.inj hst).symm
      refine ⟨_, fl, ho.data fun x hx => ?_, .stays ⟨rfl, rfl, rfl, rfl, rfl⟩ rfl rfl fun _ => rfl⟩
      by_cases hxi : x = i
      · rw [hxi]
        exact ⟨h1, h2⟩
      · exact absurd (Function.update_of_ne hxi v k.heap.mem) hx
    · cases hst

/-! ## What a walk sees -/

theorem HeapOwns.wellFormed (ho : HeapOwns c k.heap k.live bs fl) :
    k.WellFormed c (starts k.heap.startAddr (bs ++ [tailer c])) fl := by
  have hpool := ho.holds.pool
  have hH := c.memheapSize_bounds.1
  have hlast : starts k.heap.startAddr (bs ++ [tailer c]) =
      starts k.heap.startAddr bs ++ [k.heap.startAddr + total bs] := starts_append _ _ _
  have hused : ∀ {l b r}, bs ++ [tailer c] = l ++ b :: r →
      (isUsed k.heap (k.heap.startAddr + total l) ↔ b.used = true) := by
    intro l b r hbs
    have hh := ho.holds
    rw [hbs] at hh
    exact hh.isUsed_iff
  have hblocks : ∀ p ∈ k.live, ∃ l j r, bs = l ++ ⟨true, j⟩ :: r ∧
      p = k.heap.startAddr + total l + c.memheapSize := fun p hp => ho.owns.split hp
  have hno : NoAdj (bs ++ [tailer c]) := noAdj_append.2 ⟨ho.noAdj, List.isChain_singleton _, fun x _ y hy => by
    obtain rfl := Option.mem_some_iff.1 hy
    exact .inr rfl⟩
  constructor
  case blockList =>
    rw [ho.block, hlast]
    cases bs <;> rfl
  case blocks => exact hpool.blocks
  case startAddr => exact ho.block
  case increasing => exact (starts_sorted hpool.size _).1.isChain
  case tailer =>
    intro x hx
    rw [hlast, List.getLast?_concat, Option.mem_some_iff] at hx
    have := ho.total
    omega
  case magic => exact fun x hx => ho.holds.magic_mask hx
  case poolPtr => exact fun x hx => hpool.poolPtr x hx
  case freeList => exact hpool.frees
  case nodup => exact hpool.nodup_free
  case free =>
    intro x
    rw [ho.mem_unused]
    constructor
    · rintro ⟨l, j, r, rfl, rfl⟩
      have hbs : (l ++ ⟨false, j⟩ :: r) ++ [tailer c] = l ++ ⟨false, j⟩ :: (r ++ [tailer c]) := by simp
      refine ⟨?_, fun hu => ?_⟩
      · rw [hbs]
        exact mid_mem_starts _ _ _ _
      · simpa using (hused hbs).1 hu
    · rintro ⟨hx, hu⟩
      obtain ⟨u, j, hx⟩ := mem_starts.1 hx
      obtain ⟨l, r, hbs, rfl⟩ := mem_blocksAt.1 hx
      rw [hused hbs] at hu
      have hu' : u = false := by simpa using hu
      subst hu'
      rcases List.eq_nil_or_concat r with rfl | ⟨r', b, rfl⟩
      · have hend := (List.append_inj' hbs rfl).2
        simp [tailer] at hend
      · have hend : bs ++ [tailer c] = (l ++ ⟨false, j⟩ :: r') ++ [b] := by
          rw [hbs]
          simp
        exact ⟨l, j, r', (List.append_inj' hend rfl).1, rfl⟩
  case noAdj =>
    refine isChain_starts fun l b b' r hbs => ?_
    have h₂ := hused (l := l ++ [b]) (b := b') (r := r) (by rw [hbs]; simp)
    rw [total_append, total_cons, total_nil, Nat.add_zero, ← Nat.add_assoc] at h₂
    rw [hused hbs, h₂]
    rw [hbs] at hno
    exact (noAdj_cons.1 hno.right).1 b' rfl
  case item =>
    intro p hp
    obtain ⟨l, j, r, rfl, rfl⟩ := hblocks p hp
    have hbs : (l ++ ⟨true, j⟩ :: r) ++ [tailer c] = l ++ ⟨true, j⟩ :: (r ++ [tailer c]) := by simp
    refine ⟨k.heap.startAddr + total l, ?_, rfl, (hused hbs).2 rfl⟩
    rw [hbs]
    exact mid_mem_starts _ _ _ _
  case inside =>
    intro p hp
    obtain ⟨l, j, r, rfl, rfl⟩ := hblocks p hp
    have hj : c.memheapSize ≤ j := hpool.size ⟨true, j⟩ (by simp)
    have htot := ho.total
    simp only [total_append, total_cons] at htot
    rw [ho.areaEnd]
    omega
  case disjoint =>
    refine (ho.owns.symm.pairwise_iff fun h => h.symm).1 (List.pairwise_map.2 ?_)
    refine (blocksAt_sorted true _ bs).1.imp_of_mem fun {x y} hx hy hxy => ?_
    obtain ⟨l, r, rfl, hl⟩ := mem_blocksAt.1 hx
    have harea := ho.areaEnd
    left
    show k.heap.areaEnd c (x.1 + c.memheapSize) ≤ y.1 + c.memheapSize
    rw [hl, harea]
    omega
  case available => exact ho.available

end RtThread.Memheap
