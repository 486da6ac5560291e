import RtThread.Proof.MemCalls

/-!
# Runs of the allocator

* `heap_wellFormed`: after any sequence of calls the heap is well formed and the
  live blocks are disjoint.
* `heap_lowestFree`: `lfree` points to the lowest unused block, as long as blocks
  are cut in place only above it (`CutsAbove`).
* `shrunk_lowest_iff`: a cut in place keeps `lfree` lowest under that condition only.
-/

namespace RtThread.Mem

open Bytes Layout

variable {c : Config}

/-! ## Live blocks -/

/-- The live pointers are the user areas of the used blocks. -/
def Owns (c : Config) (h : ℕ) (bs : List Blk) (live : List ℕ) : Prop :=
  live.Perm ((blocksAt true 0 bs).map fun x => h + x.1 + c.sizeofStructMem)

section Owns

variable {h k n m : ℕ} {bs l r : List Blk} {live : List ℕ}

theorem Owns.owned : Owns c h bs live ↔ Owned (fun o => h + o + c.sizeofStructMem) 0 bs live := Iff.rfl

theorem Owns.split {p : ℕ} (ho : Owns c h bs live) (hp : p ∈ live) :
    ∃ l k r, bs = l ++ ⟨true, k⟩ :: r ∧ p = h + total l + c.sizeofStructMem := by
  obtain ⟨l, k, r, hbs, hp'⟩ := (Owns.owned.1 ho).split hp
  rw [Nat.zero_add] at hp'
  exact ⟨l, k, r, hbs, hp'⟩

theorem Owns.taken (ho : Owns c h (l ++ ⟨false, k⟩ :: r) live) :
    Owns c h (l ++ cut m n k ++ r) ((h + total l + c.sizeofStructMem) :: live) := by
  have htaken := (Owns.owned.1 ho).taken (m := m) (n := n)
  rw [Nat.zero_add] at htaken
  exact htaken

theorem Owns.plugged (ho : Owns c h (l ++ ⟨true, k⟩ :: r) live) :
    Owns c h (plug l k r) (live.erase (h + total l + c.sizeofStructMem)) := by
  have hplugged := (Owns.owned.1 ho).plugged
  rw [Nat.zero_add] at hplugged
  exact hplugged

theorem Owns.shrunk (ho : Owns c h (l ++ ⟨true, k⟩ :: r) live) (hn : n ≤ k) :
    Owns c h (plug (l ++ [⟨true, n⟩]) (k - n) r) live := (Owns.owned.1 ho).shrunk hn

end Owns

/-- The invariant of a program and its heap. -/
structure ClientInv (c : Config) (k : Client) (bs : List Blk) : Prop
    extends HeapInv c k.heap bs where
  owns : Owns c k.heap.heapPtr bs k.live

variable {k k' : Client} {s s' : Heap} {bs l r : List Blk} {live : List ℕ} {n p q j size : ℕ}

/-- The user area of a used block ends at the next header. -/
theorem areaEnd_eq (hs : Holds c s (l ++ ⟨true, j⟩ :: r)) :
    s.areaEnd c (s.heapPtr + total l + c.sizeofStructMem) = s.heapPtr + (total l + j) := by
  unfold Heap.areaEnd Heap.ref
  rw [Nat.add_sub_cancel]
  congr 1
  exact hs.shape.hdr.next

theorem cutsInPlace_iff (hs : Holds c s (l ++ ⟨true, j⟩ :: r)) :
    s.CutsInPlace c (s.heapPtr + total l + c.sizeofStructMem) size ↔ CutsInPlace c j size := by
  unfold Heap.CutsInPlace CutsInPlace
  rw [areaEnd_eq hs, show s.heapPtr + (total l + j) - (s.heapPtr + total l + c.sizeofStructMem) =
    j - c.sizeofStructMem by omega]

/-- Cutting in place: the new length fits the block. -/
theorem CutsInPlace.le (h : CutsInPlace c j size) :
    c.sizeofStructMem + c.rtAlign size + c.sizeofStructMem ≤ j ∧ 0 < c.rtAlign size := by
  have := h.2
  exact ⟨by omega, Nat.pos_of_ne_zero h.1⟩

/-- What the program writes into its blocks. -/
theorem ClientInv.write {m : Mem} (hi : ClientInv c ⟨s, live⟩ bs)
    (hm : ∀ i, m i ≠ s.mem i → ∃ p ∈ live, p ≤ i ∧ i < s.areaEnd c p) :
    ClientInv c ⟨{ s with mem := m }, live⟩ bs := by
  refine ⟨hi.data fun i hu => ?_, hi.owns⟩
  by_contra hne
  obtain ⟨p, hp, h1, h2⟩ := hm i hne
  obtain ⟨l, j, r, rfl, rfl⟩ := hi.owns.split hp
  rw [areaEnd_eq hi.toHolds] at h2
  exact hu ⟨total l, j, mem_blocksAt.2 ⟨l, r, rfl, by simp⟩, h1, by rwa [Nat.add_assoc]⟩

/-! ## The lowest unused block -/

/-- `lfree` points to the lowest unused block of the layout. -/
def Lowest (s : Heap) (bs : List Blk) : Prop := AtLowest bs (s.lfree - s.heapPtr)

theorem Took.lowest (ht : Took c s l j r n p s') (hi : HeapInv c s (l ++ ⟨false, j⟩ :: r))
    (hlow : Lowest s (l ++ ⟨false, j⟩ :: r)) :
    Lowest s' (l ++ cut (2 * c.sizeofStructMem) (c.sizeofStructMem + n) j ++ r) := by
  have hpos := c.sizeof_pos
  have hlf := hi.lfree.1
  have h := atLowest_cut (d := 2 * c.sizeofStructMem) (n := c.sizeofStructMem + n) hlow
    fun b hb => lt_of_lt_of_le (by omega) (hi.shape.size b (by simp [hb])).1
  unfold Lowest
  rw [ht.lfree, ht.heapPtr]
  by_cases hl : s.lfree = s.heapPtr + total l
  · rw [if_pos (by omega)] at h
    rw [if_pos hl, Nat.add_sub_cancel_left]
    exact h
  · rw [if_neg (by omega)] at h
    rw [if_neg hl]
    exact h

theorem freed_lowest (hi : HeapInv c s (l ++ ⟨true, j⟩ :: r))
    (hlow : Lowest s (l ++ ⟨true, j⟩ :: r))
    (hp : Plugged c s l j r (min (s.lfree - s.heapPtr) (total l)) s') :
    Lowest s' (plug l j r) := by
  unfold Lowest
  rw [hp.lfree, hp.heapPtr, Nat.add_sub_cancel_left]
  have hold : ∀ x, x ∈ blocksAt false 0 l ∨ x ∈ blocksAt false (total l + j) r →
      s.lfree - s.heapPtr ≤ x.1 := by
    intro x hx
    refine hlow.2 x ?_
    rw [blocksAt_append, List.mem_append, blocksAt, if_neg (by simp), Nat.zero_add]
    exact hx
  refine atLowest_plug ?_ (fun x hx => ?_) (fun x hx => ?_) (.inl (min_le_right _ _))
  · rcases le_total (s.lfree - s.heapPtr) (total l) with h | h
    · rw [min_eq_left h]
      exact .inr (atFree_around rfl hi.lfree.2)
    · rw [min_eq_right h]
      exact .inl rfl
  · exact le_trans (min_le_left _ _) (hold x (.inl hx))
  · exact le_trans (min_le_left _ _) (hold x (.inr hx))

/-- Where `lfree` may be when a block is cut in place: below it, or at the unused block
behind it. -/
def LfreeOutside (s : Heap) (l : List Blk) (j : ℕ) (r : List Blk) : Prop :=
  s.lfree - s.heapPtr < total l ∨
    (r.head?.map Blk.used = some false ∧ s.lfree - s.heapPtr = total l + j)

/-- **A cut in place** keeps `lfree` at the lowest unused block exactly if it was below the
block or right behind it: otherwise the new unused block lies below `lfree`. -/
theorem shrunk_lowest_iff (hi : HeapInv c s (l ++ ⟨true, j⟩ :: r))
    (hlow : Lowest s (l ++ ⟨true, j⟩ :: r)) (hcut : CutsInPlace c j size)
    (hp : Plugged c s (l ++ [⟨true, c.sizeofStructMem + c.rtAlign size⟩])
      (j - (c.sizeofStructMem + c.rtAlign size)) r (s.lfree - s.heapPtr) s') :
    Lowest s' (plug (l ++ [⟨true, c.sizeofStructMem + c.rtAlign size⟩])
      (j - (c.sizeofStructMem + c.rtAlign size)) r) ↔ LfreeOutside s l j r := by
  have hle := hcut.le
  have hpos := c.sizeof_pos
  set m := c.sizeofStructMem + c.rtAlign size with hm
  have htot : total (l ++ [⟨true, m⟩]) = total l + m := by simp
  have hend : total (l ++ [⟨true, m⟩]) + (j - m) = total l + j := by omega
  have haround := atFree_around rfl hi.lfree.2
  simp only at haround
  unfold Lowest
  rw [hp.lfree, hp.heapPtr, Nat.add_sub_cancel_left]
  constructor
  · intro h
    by_contra hout
    unfold LfreeOutside at hout
    push Not at hout
    -- `lfree` is behind the block, and not moved
    have hlast : lastFree (l ++ [⟨true, m⟩]) = (0, l ++ [⟨true, m⟩]) := by
      simp [lastFree, headFree]
    have hge : total l + j ≤ s.lfree - s.heapPtr := by
      rcases haround with h | ⟨i, h⟩ | ⟨i, h⟩
      · omega
      · have h1 := (blocksAt_sorted false 0 l).2 _ h
        obtain ⟨l₁, r₁, hl, -⟩ := mem_blocksAt.1 h
        have h2 := (hi.shape.size ⟨false, i⟩ (by simp [hl])).1
        simp only at h1 h2
        omega
      · have h1 := (blocksAt_sorted _ _ _).2 _ h
        exact h1.1
    have hj : joined (l ++ [⟨true, m⟩]) (j - m) r (s.lfree - s.heapPtr) =
        s.lfree - s.heapPtr := by
      unfold joined
      rw [hend, htot, if_neg]
      rintro (h | ⟨h1, h2⟩)
      · omega
      · exact hout.2 h1 h2
    -- the joined block is unused
    have := h.2 (total l + m, j - m + (headFree r).1) (mem_free_plug.2 (.inr (.inl (by
      rw [hlast]; simp))))
    rw [hj] at this
    simp only at this
    omega
  · intro hout
    have hold : ∀ x, x ∈ blocksAt false 0 l ∨ x ∈ blocksAt false (total l + j) r →
        s.lfree - s.heapPtr ≤ x.1 := by
      intro x hx
      refine hlow.2 x ?_
      rw [blocksAt_append, List.mem_append, blocksAt, if_neg (by simp), Nat.zero_add]
      exact hx
    have hleft : ∀ x, x ∈ blocksAt false 0 (l ++ [⟨true, m⟩]) ↔ x ∈ blocksAt false 0 l := by
      intro x
      rw [blocksAt_append]
      simp [blocksAt]
    refine atLowest_plug ?_ (fun x hx => hold x (.inl ((hleft x).1 hx))) (fun x hx => ?_) ?_
    · rw [hend]
      simp only [hleft]
      exact .inr haround
    · rw [hend] at hx
      exact hold x (.inr hx)
    · rw [hend, htot]
      rcases hout with h | h
      · exact .inl (by omega)
      · exact .inr h

/-! ## Counting the used bytes -/

/-- `used_mem` is the length of the used blocks. -/
def Counted (s : Heap) (bs : List Blk) : Prop := s.usedMem = usedTotal bs

theorem Took.counted (ht : Took c s l j r n p s') (h : Counted s (l ++ ⟨false, j⟩ :: r)) :
    Counted s' (l ++ cut (2 * c.sizeofStructMem) (c.sizeofStructMem + n) j ++ r) := by
  unfold Counted at h ⊢
  rw [usedTotal_mid, if_neg (by simp)] at h
  rw [ht.usedMem, h, usedTotal_append, usedTotal_append, usedTotal_cut]
  omega

theorem Plugged.counted {o : ℕ} (hp : Plugged c s l j r o s') (hi : HeapInv c s bs)
    (hbs : usedTotal bs = usedTotal l + j + usedTotal r) (h : Counted s bs) : Counted s' (plug l j r) := by
  have hle := usedTotal_le bs
  have htot := hi.shape.total
  have hbd := hi.shape.bound
  unfold Counted at h ⊢
  rw [hp.usedMem, usedTotal_plug, Config.sub_eq (by omega) (by omega)]
  omega

/-! ## Calls -/

/-- What the program has after `rt_realloc` of `p`. -/
def afterRealloc (c : Config) (live : List ℕ) (p size q : ℕ) : List ℕ :=
  if c.rtAlign size = 0 then live.erase p else if q = rtNull then live else q :: live.erase p

/-- **`rt_realloc`** keeps the heap well formed, and `lfree` lowest unless it cuts a block
below `lfree`. -/
theorem Realloced.inv (hi : HeapInv c s (l ++ ⟨true, j⟩ :: r))
    (ho : Owns c s.heapPtr (l ++ ⟨true, j⟩ :: r) live) (h : Realloced c s l j r size q s') :
    ∃ bs', HeapInv c s' bs' ∧ Owns c s'.heapPtr bs'
        (afterRealloc c live (s.heapPtr + total l + c.sizeofStructMem) size q) ∧
      (Lowest s (l ++ ⟨true, j⟩ :: r) → (CutsInPlace c j size → LfreeOutside s l j r) →
        Lowest s' bs') ∧ (Counted s (l ++ ⟨true, j⟩ :: r) → Counted s' bs') := by
  have hpos := c.sizeof_pos
  have hp : s.heapPtr + total l + c.sizeofStructMem ∈ live := by
    refine ho.mem_iff.2 (List.mem_map.2 ⟨(total l, j), mem_blocksAt.2 ⟨l, r, rfl, by simp⟩, rfl⟩)
  have hback := List.perm_cons_erase hp
  unfold afterRealloc
  cases h with
  | refused h0 => exact ⟨_, hi, by rw [if_neg h0, if_pos rfl]; exact ho, fun h _ => h, id⟩
  | same h0 _ =>
    rw [if_neg h0, if_neg (by unfold rtNull; omega)]
    exact ⟨_, hi, hback.symm.trans ho, fun h _ => h, id⟩
  | freed h0 hpl =>
    rw [if_pos h0, hpl.heapPtr]
    exact ⟨_, freed_inv hi hpl, ho.plugged, fun h _ => freed_lowest hi h hpl,
      hpl.counted hi (usedTotal_mid _ _ _)⟩
  | shrunk hcut hpl =>
    rw [if_neg hcut.1, if_neg (by unfold rtNull; omega), hpl.heapPtr]
    refine ⟨_, shrunk_inv hi hcut.le.1 hcut.le.2 hpl,
      hback.symm.trans (ho.shrunk (by have := hcut.le.1; omega)),
      fun h hout => (shrunk_lowest_iff hi h hcut hpl).2 (hout hcut), hpl.counted hi ?_⟩
    have hle := hcut.le.1
    rw [usedTotal_mid, usedTotal_mid]
    simp only [usedTotal, if_true]
    omega
  | @moved q s₁ s₂ s' l₁ r₁ l₂ r₂ k₁ h0 hbs ht hcopy hi₂ hbs₂ hl₂ hpl =>
    subst hcopy
    rw [if_neg h0, if_neg (by rw [ht.ret]; unfold rtNull; omega), hpl.heapPtr]
    refine ⟨_, freed_inv hi₂ hpl, ?_, fun h _ => ?_, fun h => ?_⟩
    · simp only
      rw [ht.heapPtr]
      -- the new pointer joins, then the old one leaves
      have h1 : Owns c s.heapPtr (l₂ ++ ⟨true, j⟩ :: r₂) (q :: live) := by
        rw [hbs] at ho
        rw [← hbs₂, ht.ret]
        exact ho.taken
      have h2 := h1.plugged
      rw [hl₂] at h2
      refine List.Perm.trans ?_ h2
      by_cases hq : q = s.heapPtr + total l + c.sizeofStructMem
      · rw [hq, List.erase_cons_head]; exact hback.symm
      · rw [List.erase_cons_tail (by simpa using hq)]
    · have h1 := ht.lowest (hbs ▸ hi) (hbs ▸ h)
      rw [hbs₂] at h1
      exact freed_lowest hi₂ h1 hpl
    · have h1 := ht.counted (hbs ▸ h)
      rw [hbs₂] at h1
      exact hpl.counted hi₂ (usedTotal_mid _ _ _) h1

theorem CutsAbove.outside (hs : HeapInv c s (l ++ ⟨true, j⟩ :: r))
    (h : CutsAbove c ⟨s, live⟩ (.realloc (s.heapPtr + total l + c.sizeofStructMem) size)) :
    CutsInPlace c j size → LfreeOutside s l j r := by
  intro hcut
  have hend := areaEnd_eq hs.toHolds
  rcases h ((cutsInPlace_iff hs.toHolds).2 hcut) with h | ⟨h, hu⟩
  · left
    simp only [Nat.add_sub_cancel] at h
    have := hs.lfree.1
    omega
  · right
    simp only [hend] at h hu
    have h1 := (Shape.behind (l := l ++ [⟨true, j⟩]) (r := r) (by simpa using hs.shape)).2.1
    simp only [total_append, total_cons, total_nil, Nat.add_zero] at h1
    rw [Heap.get, h1] at hu
    refine ⟨?_, by omega⟩
    rcases r with _ | ⟨⟨u, i⟩, r⟩
    · simp at hu
    · simpa using hu

/-- **One call** keeps the heap well formed, and `lfree` lowest unless it cuts a block
below `lfree`. -/
theorem ClientInv.step {a : Call} (hi : ClientInv c k bs) (hst : Client.Step c k a k') :
    ∃ bs', ClientInv c k' bs' ∧ (Lowest k.heap bs → CutsAbove c k a → Lowest k'.heap bs') ∧
      (Counted k.heap bs → Counted k'.heap bs') := by
  cases hst with
  | malloc _ h =>
    rcases rtMalloc_ok hi.toHeapInv h with ⟨rfl, rfl⟩ | ⟨l, j, r, rfl, ht⟩
    · exact ⟨_, by rw [if_pos rfl]; exact hi, fun h _ => h, id⟩
    · have hpos := c.sizeof_pos
      rw [if_neg (by rw [ht.ret]; unfold rtNull; omega)]
      refine ⟨_, ⟨ht.inv (sizeof_le_request _) hi.toHeapInv, ?_⟩,
        fun h _ => ht.lowest hi.toHeapInv h, ht.counted⟩
      simp only
      rw [ht.heapPtr, ht.ret]
      exact hi.owns.taken
  | free hp h =>
    obtain ⟨l, j, r, rfl, rfl⟩ := hi.owns.split hp
    obtain ⟨s₁, h1, h2⟩ := rtFree_ok hi.toHeapInv
    simp only at h h1
    rw [h1, Option.some.injEq] at h
    subst h
    refine ⟨_, ⟨freed_inv hi.toHeapInv h2, ?_⟩, fun h _ => freed_lowest hi.toHeapInv h h2,
      h2.counted hi.toHeapInv (usedTotal_mid _ _ _)⟩
    simp only
    rw [h2.heapPtr]
    exact hi.owns.plugged
  | realloc hp _ h =>
    obtain ⟨l, j, r, rfl, rfl⟩ := hi.owns.split hp
    obtain ⟨bs', h1, h2, h3, h4⟩ := Realloced.inv hi.toHeapInv hi.owns (rtRealloc_ok hi.toHeapInv h)
    exact ⟨bs', ⟨h1, h2⟩, fun hlow hcut => h3 hlow (hcut.outside hi.toHeapInv), h4⟩
  | write hm => exact ⟨_, hi.write hm, fun h _ => h, id⟩

theorem ClientInv.init (h : Client.Init c k) :
    ∃ bs, ClientInv c k bs ∧ Lowest k.heap bs ∧ Counted k.heap bs ∧ k.heap.maxMem = 0 := by
  obtain ⟨m, b, e, h1, h2⟩ := h
  obtain ⟨hi, hlf⟩ := init_ok h1
  have hcounters : k.heap.usedMem = 0 ∧ k.heap.maxMem = 0 := by
    unfold rtSystemHeapInit at h1
    simp only at h1
    split at h1
    · rw [← Option.some.inj h1]
      exact ⟨rfl, rfl⟩
    · cases h1
  refine ⟨_, ⟨hi, by rw [h2]; simp [Owns, blocksAt]⟩, ⟨hi.lfree.2, fun x _ => ?_⟩, hcounters⟩
  rw [hlf, Nat.sub_self]
  exact Nat.zero_le _

theorem Client.Reach.inv (h : Client.Reach c Run.Any k) : ∃ bs, ClientInv c k bs :=
  Run.Reach.inv (I := fun k => ∃ bs, ClientInv c k bs)
    (fun _ h0 => let ⟨bs, hi, _⟩ := ClientInv.init h0; ⟨bs, hi⟩)
    (fun _ _ _ ⟨_, hi⟩ _ hst => let ⟨bs', hi', _⟩ := hi.step hst; ⟨bs', hi'⟩) h

theorem Client.Reach.lowest (h : Client.Reach c (CutsAbove c) k) :
    ∃ bs, ClientInv c k bs ∧ Lowest k.heap bs :=
  Run.Reach.inv (I := fun k => ∃ bs, ClientInv c k bs ∧ Lowest k.heap bs)
    (fun _ h0 => let ⟨bs, hi, hlow, _⟩ := ClientInv.init h0; ⟨bs, hi, hlow⟩)
    (fun _ _ _ ⟨_, hi, hlow⟩ hok hst => let ⟨bs', hi', hl, _⟩ := hi.step hst; ⟨bs', hi', hl hlow hok⟩)
    h

/-- `rt_malloc` returns in every state of a run on a heap that can hold one smallest block. -/
theorem Client.Reach.malloc_returns (h : Client.Reach c Run.Any k)
    (hmin : c.minSizeAligned ≤ k.heap.memSizeAligned) (size : ℕ) :
    ∃ p s', rtMalloc c k.heap size = some (p, s') := by
  obtain ⟨bs, hi⟩ := h.inv
  exact rtMalloc_returns hi.toHeapInv hmin size

/-- `rt_free` of a live pointer returns. -/
theorem Client.Reach.free_returns (h : Client.Reach c Run.Any k) (hp : p ∈ k.live) :
    ∃ s', rtFree c k.heap p = some s' := by
  obtain ⟨bs, hi⟩ := h.inv
  obtain ⟨l, j, r, rfl, rfl⟩ := hi.owns.split hp
  obtain ⟨s', h1, -⟩ := rtFree_ok hi.toHeapInv
  exact ⟨s', h1⟩

/-! ## What a walk sees -/

theorem Holds.walk (hs : Holds c s bs) : s.Walk c (offsets 0 bs) := by
  refine ⟨head_offsets _ _, isChain_offsets ?_, ?_, hs.heapEnd.symm⟩
  · rintro l b r rfl
    rw [Nat.zero_add]
    exact hs.shape.hdr.next
  · rw [getLast_offsets, Nat.zero_add, hs.shape.total]

/-- The state of the block at an offset, or of `heap_end`. -/
theorem Holds.used_offset (hs : Holds c s (l ++ r)) :
    s.get c (s.ref (total l)) .used = ((r.head?.map Blk.used).getD true).toNat := hs.shape.behind.2.1

theorem ClientInv.wellFormed (hi : ClientInv c k bs) : k.WellFormed c (offsets 0 bs) := by
  have hpos := c.sizeof_pos
  have hblocks : ∀ p ∈ k.live, ∃ l j r, bs = l ++ ⟨true, j⟩ :: r ∧
      p = k.heap.heapPtr + total l + c.sizeofStructMem := fun p hp => hi.owns.split hp
  refine { hi.toHolds.walk with
    increasing := ?_, aligned := ?_, magic := ?_, prev := ?_, noAdj := ?_, block := ?_,
    inside := ?_, disjoint := ?_ }
  · rw [← List.isChain_iff_pairwise]
    refine isChain_offsets fun l b r hl => ?_
    have := (hi.shape.size b (by simp [hl])).1
    omega
  · intro o ho
    obtain ⟨l, r, rfl, rfl⟩ := mem_offsets.1 ho
    rw [Nat.zero_add]
    exact ⟨hi.toHeapInv.dvd_total, Nat.dvd_add hi.shape.align hi.toHeapInv.dvd_total⟩
  · intro o ho
    obtain ⟨l, r, rfl, rfl⟩ := mem_offsets.1 ho
    rw [Nat.zero_add]
    exact hi.shape.behind.1
  · refine isChain_offsets fun l b r hl hend => ?_
    subst hl
    rw [Nat.zero_add] at hend ⊢
    rcases r with _ | ⟨x, r⟩
    · have ht := hi.shape.total_eq
      rw [total_nil] at ht
      exact absurd (by rw [hi.heapEnd, ← ht]; rfl) hend
    · have := Shape.hdr (l := l ++ [b]) (b := x) (r := r) (by simpa using hi.shape)
      have h1 := this.prev
      rw [lastOff_concat, total_append, total_cons, total_nil, Nat.zero_add] at h1
      exact h1
  · refine isChain_offsets fun l b r hl => ?_
    subst hl
    have h1 := hi.toHolds.used_offset
    have h2 := Holds.used_offset (l := l ++ [b]) (r := r) (s := k.heap) (c := c)
      (by simpa using hi.toHolds)
    simp only [total_append, total_cons, total_nil, Nat.add_zero] at h2
    rw [Nat.zero_add, h1, h2]
    have hadj := (noAdj_cons.1 hi.noAdj.right).1
    rcases hu : b.used with _ | _
    · right
      rcases r with _ | ⟨x, r⟩
      · simp
      · simpa [hu] using hadj x (by simp)
    · left; simp [hu]
  · intro p hp
    obtain ⟨l, j, r, rfl, rfl⟩ := hblocks p hp
    refine ⟨total l, mem_offsets.2 ⟨l, _, rfl, by simp⟩, rfl, ?_⟩
    rw [hi.toHolds.used_offset]
    simp
  · intro p hp
    obtain ⟨l, j, r, rfl, rfl⟩ := hblocks p hp
    have hroom := hi.room ⟨true, j⟩ (by simp) rfl
    have ht := hi.shape.total_eq
    have hend := hi.heapEnd
    simp only at hroom ht
    rw [areaEnd_eq hi.toHolds]
    omega
  · refine (hi.owns.symm.pairwise_iff fun h => h.symm).1 (List.pairwise_map.2 ?_)
    have hsorted := (blocksAt_sorted true 0 bs).1
    refine hsorted.imp_of_mem fun {x y} hx hy hxy => ?_
    obtain ⟨l, r, rfl, hl⟩ := mem_blocksAt.1 hx
    rw [Nat.zero_add] at hl
    have := areaEnd_eq hi.toHolds
    rw [hl, this]
    left; omega

theorem HeapInv.lowestFree_iff (hi : HeapInv c s bs) :
    s.LowestFree c (offsets 0 bs) ↔ Lowest s bs := by
  have hlf := hi.lfree.1
  constructor
  · intro h
    refine ⟨hi.lfree.2, fun x hx => ?_⟩
    obtain ⟨l, r, rfl, hl⟩ := mem_blocksAt.1 hx
    have := h.below (total l) (mem_offsets.2 ⟨l, _, rfl, by simp⟩)
      (by rw [hi.toHolds.used_offset]; rfl)
    unfold Heap.ref at this
    omega
  · rintro ⟨hfree, hbelow⟩
    refine ⟨?_, fun o ho hu => ?_⟩
    · rcases hfree with h | ⟨j, h⟩
      · left
        rw [hi.shape.total] at h
        have := hi.heapEnd
        omega
      · right
        obtain ⟨l, r, rfl, hl⟩ := mem_blocksAt.1 h
        rw [Nat.zero_add] at hl
        have hlf' : s.lfree = s.ref (total l) := by unfold Heap.ref; omega
        exact ⟨total l, mem_offsets.2 ⟨l, _, rfl, by simp⟩, hlf', by
          rw [hlf', hi.toHolds.used_offset]; rfl⟩
    · obtain ⟨l, r, rfl, rfl⟩ := mem_offsets.1 ho
      rw [Nat.zero_add] at hu ⊢
      rw [hi.toHolds.used_offset] at hu
      rcases r with _ | ⟨⟨u, j⟩, r⟩
      · simp at hu
      · have hu' : u = false := by simpa using hu
        subst hu'
        have := hbelow (total l, j) (mem_blocksAt.2 ⟨l, r, rfl, by simp⟩)
        unfold Heap.ref
        omega

/-- **The heap is well formed** in every state of every run. -/
theorem heap_wellFormed (h : Client.Reach c Run.Any k) : ∃ os, k.WellFormed c os := by
  obtain ⟨bs, hi⟩ := h.inv
  exact ⟨_, hi.wellFormed⟩

/-- **`lfree` points to the lowest unused block** in every state of every run that cuts
blocks in place only above it. -/
theorem heap_lowestFree (h : Client.Reach c (CutsAbove c) k) :
    ∃ os, k.WellFormed c os ∧ k.heap.LowestFree c os := by
  obtain ⟨bs, hi, hlow⟩ := h.lowest
  exact ⟨_, hi.wellFormed, hi.toHeapInv.lowestFree_iff.2 hlow⟩

/-! ## Runs on the board's heap -/

/-- The board: 32 bits, `RT_ALIGN_SIZE` 8. -/
def board : Config := ⟨false, 3, by decide⟩

/-- A heap of `n` bytes, `rt_malloc(a)`, and `rt_realloc` of the result to `b`: the three heaps
and the two pointers. -/
def mallocRealloc (n a b : ℕ) : Option (Heap × ℕ × Heap × ℕ × Heap) := do
  let s₀ ← rtSystemHeapInit board (fun _ => 0) 4096 (4096 + n)
  let (p, s₁) ← rtMalloc board s₀ a
  let (q, s₂) ← rtRealloc board s₁ p b
  return (s₀, p, s₁, q, s₂)

theorem mallocRealloc_reach {n a b : ℕ} {ok : Client → Call → Prop} {s₀ s₁ s₂ : Heap}
    (h : mallocRealloc n a b = some (s₀, p, s₁, q, s₂)) (ha : a < 2 ^ 32) (hb : b < 2 ^ 32)
    (hp : p ≠ rtNull) (hq : q = p) (h0 : board.rtAlign b ≠ 0)
    (hok₁ : ok ⟨s₀, []⟩ (.malloc a)) (hok₂ : ok ⟨s₁, [p]⟩ (.realloc p b)) :
    Client.Reach board ok ⟨s₂, [p]⟩ := by
  simp only [mallocRealloc, Option.bind_eq_bind, Option.bind_eq_some_iff, Option.pure_def,
    Option.some.injEq, Prod.mk.injEq] at h
  obtain ⟨s₀', h₀, ⟨p', s₁'⟩, h₁, ⟨q', s₂'⟩, h₂, rfl, rfl, rfl, rfl, rfl⟩ := h
  have r₀ : Client.Reach board ok ⟨s₀', []⟩ := .init ⟨_, _, _, h₀, rfl⟩
  have r₁ : Client.Reach board ok ⟨s₁', [p']⟩ := by
    have := Run.Reach.step r₀ hok₁ (Client.Step.malloc ha h₁)
    rwa [if_neg hp] at this
  have r₂ := r₁.step hok₂ (Client.Step.realloc List.mem_cons_self hb h₂)
  subst hq
  rwa [if_neg h0, if_neg hp, List.erase_cons_head] at r₂

/-- A block is cut in place. -/
example : (mallocRealloc 96 40 8).map (fun x => (x.2.1, x.2.2.2.1)) = some (4112, 4112) := by decide

/-- A run that allocates a block and cuts it in place leaves a well-formed heap. -/
theorem heap_wellFormed_board : ∃ k : Client, k.live = [4112] ∧ ∃ os, k.WellFormed board os := by
  have hrun : (mallocRealloc 96 40 8).map (fun x => (x.2.1, x.2.2.2.1)) = some (4112, 4112) := by
    decide
  obtain ⟨⟨s₀, p, s₁, q, s₂⟩, h, hx⟩ := Option.map_eq_some_iff.1 hrun
  obtain ⟨rfl, rfl⟩ := Prod.mk.inj hx
  exact ⟨⟨s₂, [4112]⟩, rfl, heap_wellFormed (mallocRealloc_reach h (by decide) (by decide)
    (by decide) rfl (by decide) trivial trivial)⟩

/-- With an unused block behind the one that is cut, `lfree` follows. -/
theorem heap_lowestFree_board :
    ∃ k : Client, k.live = [4112] ∧ ∃ os, k.WellFormed board os ∧ k.heap.LowestFree board os := by
  have hrun : (mallocRealloc 160 64 8).map (fun x => (x.2.1, x.2.2.2.1, x.2.2.1.lfree,
      x.2.2.1.areaEnd board 4112, x.2.2.1.get board 4176 .used)) =
      some (4112, 4112, 4176, 4176, 0) := by decide
  obtain ⟨⟨s₀, p, s₁, q, s₂⟩, h, hx⟩ := Option.map_eq_some_iff.1 hrun
  simp only [Prod.mk.injEq] at hx
  obtain ⟨rfl, rfl, hlf, hend, hu⟩ := hx
  refine ⟨⟨s₂, [4112]⟩, rfl, heap_lowestFree (mallocRealloc_reach h (by decide) (by decide)
    (by decide) rfl (by decide) trivial fun _ => .inr ⟨?_, ?_⟩)⟩
  · exact hlf.trans hend.symm
  · simp only [hend]; exact hu

/-- **The lowest unused block is lost** when the last block of the heap is cut in place: the
rest is unused, but `lfree` stays at `heap_end`. -/
theorem heap_lowestFree_lost : ¬ ∀ k, Client.Reach board Run.Any k →
    ∃ os, k.WellFormed board os ∧ k.heap.LowestFree board os := by
  intro hall
  have hrun : (mallocRealloc 96 40 8).map (fun x => [x.2.1, x.2.2.2.1, x.2.2.2.2.heapPtr,
      x.2.2.2.2.memSizeAligned, x.2.2.2.2.lfree, x.2.2.2.2.get board 4096 .next,
      x.2.2.2.2.get board 4120 .used]) = some [4112, 4112, 4096, 64, 4176, 24, 0] := by
    decide
  obtain ⟨⟨s₀, p, s₁, q, s₂⟩, h, hx⟩ := Option.map_eq_some_iff.1 hrun
  simp only [List.cons.injEq, and_true] at hx
  obtain ⟨rfl, rfl, hptr, hmsa, hlf, hnext, hu⟩ := hx
  obtain ⟨os, hwf, hlow⟩ := hall ⟨s₂, [4112]⟩ (mallocRealloc_reach h (by decide) (by decide)
    (by decide) rfl (by decide) trivial trivial)
  -- the walk starts at 0 and goes on to 24
  obtain ⟨os, rfl⟩ : ∃ os', os = 0 :: os' := List.head?_eq_some_iff.1 hwf.head
  have hlast := hwf.last
  have hsz : board.sizeofStructMem = 16 := by decide
  rcases os with _ | ⟨o, os⟩
  · simp [hmsa, hsz] at hlast
  have ho : o = 24 := by
    have := (List.isChain_cons.1 hwf.next).1 o rfl
    unfold Heap.Next Heap.ref at this
    simp only [hptr, Nat.add_zero, hnext] at this
    exact this.symm
  have := hlow.below o (by simp) (by simp only [Heap.ref, hptr, ho]; exact hu)
  simp only [Heap.ref, hlf, hptr, ho] at this
  omega

end RtThread.Mem
