import RtThread.Proof.MemheapShape

/-!
# Changes of a memory heap

`Holds c s₀ s bs fl`: the heap `s` is the one of `s₀`, its pool has the layout `bs` and its free list the items `fl`.
Each function of `memheap.c` that changes the lists has a lemma that says what becomes of both (`Holds.newItem`,
`Holds.insertFree`, ...).

`HeapInv c s bs fl` is what every call keeps: the blocks in front of the tailer are `bs`, no two neighbours are
unused, `fl` has the unused ones, and `available_size` is their room.
-/

namespace RtThread.Memheap

open Bytes Layout

variable {c : Config} {s₀ s s' : Heap} {bs l r : List Blk} {b b' : Blk} {fl : List ℕ} {u v : Bool} {k n j x : ℕ}

/-! ## Words -/

theorem add_eq {a b : ℕ} (h : a + b < 2 ^ 32) : add a b = a + b := Nat.mod_eq_of_lt h

theorem sub_eq {a b : ℕ} (ha : a < 2 ^ 32) (hb : b ≤ a) : sub a b = a - b := Word.wsub_eq ha hb

/-! ## Changes -/

/-- The heap is the same one, with the same pool. -/
structure Same (s s' : Heap) : Prop where
  self : s'.self = s.self
  startAddr : s'.startAddr = s.startAddr
  freeList : s'.freeList = s.freeList
  poolSize : s'.poolSize = s.poolSize
  blockList : s'.blockList = s.blockList

theorem Same.refl (s : Heap) : Same s s := ⟨rfl, rfl, rfl, rfl, rfl⟩

theorem Same.trans {s₁ s₂ s₃ : Heap} (h : Same s₁ s₂) (h' : Same s₂ s₃) : Same s₁ s₃ :=
  ⟨h'.self.trans h.self, h'.startAddr.trans h.startAddr, h'.freeList.trans h.freeList, h'.poolSize.trans h.poolSize,
    h'.blockList.trans h.blockList⟩

/-- The sizes in the struct are the same. -/
structure Counts (s s' : Heap) : Prop where
  available : s'.availableSize = s.availableSize
  maxUsed : s'.maxUsedSize = s.maxUsedSize
  poolSize : s'.poolSize = s.poolSize

theorem Counts.refl (s : Heap) : Counts s s := ⟨rfl, rfl, rfl⟩

theorem Counts.trans {s₁ s₂ s₃ : Heap} (h : Counts s₁ s₂) (h' : Counts s₂ s₃) : Counts s₁ s₃ :=
  ⟨h'.available.trans h.available, h'.maxUsed.trans h.maxUsed, h'.poolSize.trans h.poolSize⟩

theorem set_counts (s : Heap) (p : ℕ) (f : Field) (w : ℕ) : Counts s (s.set p f w) := ⟨rfl, rfl, rfl⟩

theorem newItem_counts (s : Heap) (p q : ℕ) : Counts s (newItem s p q) := ⟨rfl, rfl, rfl⟩

theorem insertFree_counts (s : Heap) (p : ℕ) : Counts s (insertFree s p) := ⟨rfl, rfl, rfl⟩

theorem removeFree_counts (s : Heap) (p : ℕ) : Counts s (removeFree s p) := ⟨rfl, rfl, rfl⟩

theorem mergeLeft_counts (s : Heap) (p : ℕ) : Counts s (mergeLeft s p) := ⟨rfl, rfl, rfl⟩

theorem mergeRight_counts (s : Heap) (p : ℕ) : Counts s (mergeRight s p) := ⟨rfl, rfl, rfl⟩

/-- The heap is the one of `s₀`; its pool has the layout `bs`, and its free list the items `fl`. -/
structure Holds (c : Config) (s₀ s : Heap) (bs : List Blk) (fl : List ℕ) : Prop extends Same s₀ s where
  pool : Pool c s₀.self s₀.startAddr s₀.freeList s.get bs fl

namespace Holds

/-- A pool is what the bytes make it. -/
theorem of_mem (h : Holds c s₀ s bs fl) (hs : Same s s') (hm : s'.mem = s.mem) : Holds c s₀ s' bs fl := by
  have hget : s'.get = s.get := by
    funext p f
    rw [Heap.get, Heap.get, hm]
  exact ⟨h.toSame.trans hs, hget ▸ h.pool⟩

theorem memitemSize (h : Holds c s₀ s (l ++ b :: b' :: r) fl) :
    memitemSize c s (s₀.startAddr + total l) = b.size - c.memheapSize := by
  have hb := h.pool.size b (by simp)
  have hbound := h.pool.bound
  have hb' := h.pool.size b' (by simp)
  have hH := c.memheapSize_bounds.1
  simp only [total_append, total_cons] at hbound
  have hd : sub (s₀.startAddr + total l + b.size) (s₀.startAddr + total l) = b.size := by
    rw [sub_eq (by omega) (by omega), Nat.add_sub_cancel_left]
  unfold Memheap.memitemSize
  rw [h.pool.link.1, hd, sub_eq (by omega) hb]

theorem magic_eq (h : Holds c s₀ s (l ++ b :: r) fl) : s.get (s₀.startAddr + total l) .magic = magicOf b.used :=
  h.pool.magic _ _ b.size (mem_blocksAt.2 ⟨l, r, rfl, rfl⟩)

theorem isUsed_iff (h : Holds c s₀ s (l ++ b :: r) fl) : isUsed s (s₀.startAddr + total l) ↔ b.used = true := by
  unfold isUsed
  rw [h.magic_eq]
  cases b.used <;> decide

/-- **A new item** inside a block. -/
theorem newItem (h : Holds c s₀ s (l ++ ⟨u, k⟩ :: r) fl) (hn : c.memheapSize ≤ n) (hk : n + c.memheapSize ≤ k) :
    Holds c s₀ (newItem s (s₀.startAddr + total l) (s₀.startAddr + total l + n))
      (l ++ ⟨u, n⟩ :: ⟨false, k - n⟩ :: r) fl := by
  have hp := h.pool.split hn hk
  have hH := c.memheapSize_bounds.1
  have hnew : starts s₀.startAddr (l ++ ⟨u, n⟩ :: ⟨false, k - n⟩ :: r) = starts s₀.startAddr l ++
      (s₀.startAddr + total l) :: (s₀.startAddr + total l + n) :: starts (s₀.startAddr + total l + k) r := by
    rw [starts_mid]
    show _ ++ _ :: _ :: starts (s₀.startAddr + total l + n + (k - n)) r = _
    rw [show s₀.startAddr + total l + n + (k - n) = s₀.startAddr + total l + k by omega]
  have hbehind : s.get (s₀.startAddr + total l) .next ∈ s₀.freeList ::
      starts s₀.startAddr (l ++ ⟨u, n⟩ :: ⟨false, k - n⟩ :: r) := by
    have hmem := h.pool.next_mem (mid_mem_starts _ _ _ _)
    rw [starts_mid] at hmem
    rw [hnew]
    simp only [List.mem_append, List.mem_cons] at hmem ⊢
    tauto
  refine ⟨⟨h.self, h.startAddr, h.freeList, h.poolSize, h.blockList⟩, hp.congr fun y hy f => ?_⟩
  rw [newItem_get hp.slots ?_ ?_ hbehind (by omega) (h.self ▸ h.pool.heap_lt) hy f, h.self]
  · rw [hnew]
    simp
  · rw [hnew]
    simp

/-- **An item goes to the free list.** -/
theorem insertFree (h : Holds c s₀ s bs fl) (hx : x ∈ starts s₀.startAddr bs) (hxf : x ∉ fl) :
    Holds c s₀ (insertFree s x) bs (x :: fl) := by
  have hp := h.pool.insertFree hx hxf
  refine ⟨⟨h.self, h.startAddr, h.freeList, h.poolSize, h.blockList⟩, hp.congr fun y hy f => ?_⟩
  rw [insertFree_get h.pool.slots (List.mem_cons_of_mem _ hx) ?_ ?_ ?_ hy f, h.freeList]
  · rw [h.freeList]
    exact List.mem_cons_self
  · rw [h.freeList]
    exact h.pool.free_slots _ (h.pool.frees.next_mem List.mem_cons_self)
  · rw [h.freeList]
    rintro rfl
    exact h.pool.free_notMem hx

/-- **An item leaves the free list.** -/
theorem removeFree (h : Holds c s₀ s bs fl) (hx : x ∈ fl) : Holds c s₀ (removeFree s x) bs (fl.erase x) := by
  have hp := h.pool.removeFree hx
  have hxl : x ∈ s₀.freeList :: fl := List.mem_cons_of_mem _ hx
  refine ⟨⟨h.self, h.startAddr, h.freeList, h.poolSize, h.blockList⟩, hp.congr fun y hy f => ?_⟩
  refine removeFree_get h.pool.slots (h.pool.free_slots x hxl) ?_ ?_ hy f
  · exact h.pool.free_slots _ (h.pool.frees.prev_mem hxl)
  · exact h.pool.free_slots _ (h.pool.frees.next_mem hxl)

/-- An assignment, as a change of the view. -/
theorem assign {f : Field} {w : ℕ} {bs' : List Blk} {fl' : List ℕ} (h : Holds c s₀ s bs fl)
    (hp : Pool c s₀.self s₀.startAddr s₀.freeList (assigned x f w s.get) bs' fl') (hx : x ∈ starts s₀.startAddr bs')
    (hw : w < 2 ^ 32) : Holds c s₀ (s.set x f w) bs' fl' :=
  ⟨⟨h.self, h.startAddr, h.freeList, h.poolSize, h.blockList⟩,
    hp.congr fun _ hy _ => hp.slots.get_set hy (List.mem_cons_of_mem _ hx) hw⟩

theorem setMagic (h : Holds c s₀ s (l ++ ⟨u, k⟩ :: r) fl) (v : Bool) :
    Holds c s₀ (s.set (s₀.startAddr + total l) .magic (magicOf v)) (l ++ ⟨v, k⟩ :: r) fl :=
  h.assign (h.pool.setMagic v) (mid_mem_starts _ _ _ _) (magicOf_lt v)

/-- A block is marked as used. -/
theorem take (h : Holds c s₀ s (l ++ ⟨false, k⟩ :: r) fl) :
    Holds c s₀ (s.set (s₀.startAddr + total l) .magic (s.get (s₀.startAddr + total l) .magic ||| memheapUsed))
      (l ++ ⟨true, k⟩ :: r) fl := by
  rw [h.magic_eq]
  exact h.setMagic true

/-- The free-list links of an item that is in use. -/
theorem clear (h : Holds c s₀ s bs fl) (hx : x ∈ starts s₀.startAddr bs) (hxf : x ∉ fl) {f : Field}
    (hf : f = .nextFree ∨ f = .prevFree) : Holds c s₀ (s.set x f rtNull) bs fl :=
  h.assign (h.pool.clear hx hxf hf rtNull) hx (by decide)

/-- What merging with the previous block changes. -/
theorem mergeLeft_get {A : List ℕ} (hA : Slots A) {y : ℕ} (hx : x ∈ A) (hp : s.get x .prev ∈ A)
    (hn : s.get x .next ∈ A) (hy : y ∈ A) (f : Field) :
    (mergeLeft s x).get y f = merged (s.get x .prev) x s.get y f := by
  have hnext : (s.set (s.get x .prev) .next (s.get x .next)).get x .next = s.get x .next := by
    rw [hA.get_set hx hp (hA.lt _ hn), ite_eq_right_iff]
    exact fun _ => rfl
  have hprev : (s.set (s.get x .prev) .next (s.get x .next)).get x .prev = s.get x .prev := by
    rw [hA.get_set hx hp (hA.lt _ hn), if_neg (by simp)]
  unfold mergeLeft merged
  simp only [hnext, hprev]
  rw [hA.get_set hy hn (hA.lt _ hp), hA.get_set hy hp (hA.lt _ hn)]
  cases f <;> simp

/-- **Merging with the previous block**, of an item that is not in the free list. -/
theorem mergeLeft (h : Holds c s₀ s (l ++ ⟨u, k⟩ :: ⟨v, j⟩ :: r) fl) (hx : s₀.startAddr + total l + k ∉ fl) :
    Holds c s₀ (mergeLeft s (s₀.startAddr + total l + k)) (l ++ ⟨u, k + j⟩ :: r) fl := by
  have hmem : s₀.startAddr + total l + k ∈ starts s₀.startAddr (l ++ ⟨u, k⟩ :: ⟨v, j⟩ :: r) := by
    rw [starts_mid]
    simp [starts]
  refine ⟨⟨h.self, h.startAddr, h.freeList, h.poolSize, h.blockList⟩, (h.pool.join hx).congr fun y hy f => ?_⟩
  rw [mergeLeft_get h.pool.slots (List.mem_cons_of_mem _ hmem) (List.mem_cons_of_mem _ (h.pool.blocks.prev_mem hmem))
    (List.mem_cons_of_mem _ (h.pool.next_mem hmem)) (Pool.join_slots y hy), h.pool.link.2]

/-- The same change, with its two assignments the other way round. -/
theorem bypass (h : Holds c s₀ s (l ++ ⟨u, k⟩ :: ⟨v, j⟩ :: r) fl) (hx : s₀.startAddr + total l + k ∉ fl) {s₁ : Heap}
    (hs₁ : s₁ = s.set (s.get (s₀.startAddr + total l + k) .next) .prev (s.get (s₀.startAddr + total l + k) .prev)) :
    Holds c s₀ (s₁.set (s₁.get (s₀.startAddr + total l + k) .prev) .next (s₁.get (s₀.startAddr + total l + k) .next))
      (l ++ ⟨u, k + j⟩ :: r) fl := by
  have hA := h.pool.slots
  have hmem : s₀.startAddr + total l + k ∈ starts s₀.startAddr (l ++ ⟨u, k⟩ :: ⟨v, j⟩ :: r) := by
    rw [starts_mid]
    simp [starts]
  have hxA := List.mem_cons_of_mem s₀.freeList hmem
  have hnA := List.mem_cons_of_mem s₀.freeList (h.pool.next_mem hmem)
  have hpA := List.mem_cons_of_mem s₀.freeList (h.pool.blocks.prev_mem hmem)
  have hprev : s₁.get (s₀.startAddr + total l + k) .prev = s.get (s₀.startAddr + total l + k) .prev := by
    rw [hs₁, hA.get_set hxA hnA (hA.lt _ hpA), ite_eq_right_iff]
    exact fun _ => rfl
  have hnext : s₁.get (s₀.startAddr + total l + k) .next = s.get (s₀.startAddr + total l + k) .next := by
    rw [hs₁, hA.get_set hxA hnA (hA.lt _ hpA), if_neg (by simp)]
  rw [hprev, hnext, hs₁]
  refine ⟨⟨h.self, h.startAddr, h.freeList, h.poolSize, h.blockList⟩, (h.pool.join hx).congr fun y hy f => ?_⟩
  have hyA := Pool.join_slots (v := v) y hy
  rw [hA.get_set hyA hpA (hA.lt _ hnA), hA.get_set hyA hnA (hA.lt _ hpA), h.pool.link.2]
  rfl

/-- **Merging with the next block**, which leaves the free list behind that. -/
theorem mergeRight (h : Holds c s₀ s (l ++ ⟨u, k⟩ :: ⟨v, j⟩ :: r) fl) (hx : s₀.startAddr + total l + k ∈ fl) :
    Holds c s₀ (mergeRight s (s₀.startAddr + total l)) (l ++ ⟨u, k + j⟩ :: r)
      (fl.erase (s₀.startAddr + total l + k)) := by
  have hA := h.pool.slots
  have hmem : s₀.startAddr + total l + k ∈ starts s₀.startAddr (l ++ ⟨u, k⟩ :: ⟨v, j⟩ :: r) := h.pool.sub _ hx
  have hhA : s₀.startAddr + total l ∈ s₀.freeList :: starts s₀.startAddr (l ++ ⟨u, k⟩ :: ⟨v, j⟩ :: r) :=
    List.mem_cons_of_mem _ (mid_mem_starts _ _ _ _)
  have hxA := List.mem_cons_of_mem s₀.freeList hmem
  have hnA := List.mem_cons_of_mem s₀.freeList (h.pool.next_mem hmem)
  have hxl : s₀.startAddr + total l + k ∈ s₀.freeList :: fl := List.mem_cons_of_mem _ hx
  have hafree := h.pool.free_slots _ (h.pool.frees.prev_mem hxl)
  have hbfree := h.pool.free_slots _ (h.pool.frees.next_mem hxl)
  have hnext : (s.set (s.get (s₀.startAddr + total l + k) .next) .prev (s₀.startAddr + total l)).get
      (s₀.startAddr + total l + k) .next = s.get (s₀.startAddr + total l + k) .next := by
    rw [hA.get_set hxA hnA (hA.lt _ hhA), if_neg (by simp)]
  -- the block list first
  have hview : ∀ y ∈ s₀.freeList :: starts s₀.startAddr (l ++ ⟨u, k⟩ :: ⟨v, j⟩ :: r), ∀ f,
      ((s.set (s.get (s₀.startAddr + total l + k) .next) .prev (s₀.startAddr + total l)).set (s₀.startAddr + total l)
        .next (s.get (s₀.startAddr + total l + k) .next)).get y f =
        merged (s₀.startAddr + total l) (s₀.startAddr + total l + k) s.get y f := by
    intro y hy f
    rw [hA.get_set hy hhA (hA.lt _ hnA), hA.get_set hy hnA (hA.lt _ hhA)]
    rfl
  have hjoin := Pool.join (h.pool.removeFree hx) (fun hmem => h.pool.nodup.not_mem_erase hmem)
  refine ⟨⟨h.self, h.startAddr, h.freeList, h.poolSize, h.blockList⟩, hjoin.congr fun y hy f => ?_⟩
  have hyA := Pool.join_slots (v := v) y hy
  unfold Memheap.mergeRight
  simp only [h.pool.link.1, hnext]
  rw [removeFree_get hA hxA (by rw [hview _ hxA]; simpa [merged] using hafree)
    (by rw [hview _ hxA]; simpa [merged] using hbfree) hyA, ← removed_merged]
  unfold removed
  rw [hview _ hxA, hview _ hxA, hview y hyA]

/-- What lies in the user area of a block does not matter. -/
theorem data (h : Holds c s₀ s (l ++ ⟨u, k⟩ :: r) fl) {m : Mem}
    (hm : ∀ i, m i ≠ s.mem i → s₀.startAddr + total l + c.memheapSize ≤ i ∧ i < s₀.startAddr + total l + k) :
    Holds c s₀ { s with mem := m } (l ++ ⟨u, k⟩ :: r) fl := by
  have hH := c.memheapSize_bounds.1
  refine ⟨⟨h.self, h.startAddr, h.freeList, h.poolSize, h.blockList⟩, h.pool.congr fun y hy f => ?_⟩
  refine get_congr fun i h1 h2 => ?_
  by_contra hne
  obtain ⟨h3, h4⟩ := hm i hne
  have hk := h.pool.size ⟨u, k⟩ (by simp)
  have hsorted := starts_sorted h.pool.size s₀.startAddr
  simp only [total_append, total_cons] at hk hsorted
  rcases List.mem_cons.1 hy with rfl | hy
  · have hapart := h.pool.apart
    simp only [total_append, total_cons] at hapart
    omega
  · rw [starts_mid] at hy hsorted
    have hp := List.pairwise_append.1 hsorted.1
    rcases List.mem_append.1 hy with hy | hy
    · have := hp.2.2 y hy _ List.mem_cons_self
      omega
    · rcases List.mem_cons.1 hy with rfl | hy
      · omega
      · have := (starts_sorted (fun b hb => h.pool.size b (by simp [hb])) (s₀.startAddr + total l + k)).2 y hy
        omega

end Holds

theorem account_same (s : Heap) (n : ℕ) : Same s (account s n) ∧ (account s n).mem = s.mem := by
  unfold account
  simp only
  split <;> exact ⟨⟨rfl, rfl, rfl, rfl, rfl⟩, rfl⟩

theorem Holds.account (h : Holds c s₀ s bs fl) (n : ℕ) : Holds c s₀ (account s n) bs fl :=
  h.of_mem (account_same s n).1 (account_same s n).2

/-- The available byte count goes down by `n`, and the greatest use may go up. -/
theorem account_counts {s₁ : Heap} (h : Counts s s₁) (n : ℕ) :
    (account s₁ n).availableSize = sub s.availableSize n ∧
      (account s₁ n).maxUsedSize = max s.maxUsedSize (sub s.poolSize (sub s.availableSize n)) := by
  rw [← h.available, ← h.maxUsed, ← h.poolSize]
  unfold account
  simp only
  split
  · rename_i h
    exact ⟨rfl, (Nat.max_eq_right (Nat.le_of_lt h)).symm⟩
  · rename_i h
    exact ⟨rfl, (Nat.max_eq_left (Nat.le_of_not_lt h)).symm⟩

/-! ## The invariant of the calls -/

/-- The block at the end of the pool, which is used. -/
def tailer (c : Config) : Blk := ⟨true, c.memheapSize⟩

/-- The addresses of the unused blocks of a layout at `a`. -/
def unused (a : ℕ) (bs : List Blk) : List ℕ := (blocksAt false a bs).map Prod.fst

@[simp] theorem unused_nil (a : ℕ) : unused a [] = [] := rfl

@[simp] theorem unused_true (a k : ℕ) (bs : List Blk) : unused a (⟨true, k⟩ :: bs) = unused (a + k) bs := rfl

@[simp] theorem unused_false (a k : ℕ) (bs : List Blk) : unused a (⟨false, k⟩ :: bs) = a :: unused (a + k) bs := rfl

@[simp] theorem unused_append (a : ℕ) (l r : List Blk) : unused a (l ++ r) = unused a l ++ unused (a + total l) r := by
  rw [unused, blocksAt_append, List.map_append]
  rfl

theorem freeRoom_le (d : ℕ) (bs : List Blk) : freeRoom d bs ≤ total bs := by
  induction bs with
  | nil => exact Nat.le_refl 0
  | cons b bs ih =>
    rw [freeRoom, total_cons]
    split <;> omega

/-- The heap has the blocks `bs` and the tailer, and the free list `fl` has the unused ones. -/
structure HeapInv (c : Config) (s : Heap) (bs : List Blk) (fl : List ℕ) : Prop where
  holds : Holds c s s (bs ++ [tailer c]) fl
  total : total bs + c.memheapSize = s.poolSize
  perm : fl.Perm (unused s.startAddr bs)
  noAdj : NoAdj bs
  avail : s.availableSize = freeRoom c.memheapSize bs
  block : s.blockList = s.startAddr

/-- A heap made from one with the same pool. -/
theorem Holds.inv (h : Holds c s₀ s (bs ++ [tailer c]) fl) (htotal : Layout.total bs + c.memheapSize = s₀.poolSize)
    (hperm : fl.Perm (unused s₀.startAddr bs)) (hno : NoAdj bs) (havail : s.availableSize = freeRoom c.memheapSize bs)
    (hblock : s₀.blockList = s₀.startAddr) : HeapInv c s bs fl := by
  refine ⟨⟨.refl s, ?_⟩, ?_, ?_, hno, havail, ?_⟩
  · rw [h.self, h.startAddr, h.freeList]
    exact h.pool
  · rw [h.poolSize]
    exact htotal
  · rw [h.startAddr]
    exact hperm
  · rw [h.blockList, h.startAddr]
    exact hblock

/-- An entry in the middle goes. -/
theorem erase_mid {p q : List ℕ} (h : fl.Perm (p ++ x :: q)) : (fl.erase x).Perm (p ++ q) := by
  have := (h.trans List.perm_middle).erase x
  rwa [List.erase_cons_head] at this

/-- An entry in the middle comes. -/
theorem cons_mid {p q : List ℕ} (h : fl.Perm (p ++ q)) : (x :: fl).Perm (p ++ x :: q) :=
  (h.cons x).trans List.perm_middle.symm

namespace HeapInv

theorem holds_mid (hi : HeapInv c s (l ++ b :: r) fl) : Holds c s s (l ++ b :: (r ++ [tailer c])) fl := by
  have h := hi.holds
  rwa [List.append_assoc, List.cons_append] at h

theorem pool_le (hi : HeapInv c s bs fl) : s.startAddr + s.poolSize ≤ 2 ^ 32 := by
  have hb := hi.holds.pool.bound
  have ht := hi.total
  simp only [total_append, total_cons, total_nil, tailer] at hb
  omega

theorem avail_le (hi : HeapInv c s bs fl) : s.availableSize + c.memheapSize ≤ s.poolSize := by
  have ht := hi.total
  have hf := freeRoom_le c.memheapSize bs
  rw [hi.avail]
  omega

/-- The unused blocks are in the free list. -/
theorem mem_free (hi : HeapInv c s (l ++ ⟨false, k⟩ :: r) fl) : s.startAddr + Layout.total l ∈ fl := by
  rw [hi.perm.mem_iff]
  simp

end HeapInv

theorem starts_of_unused {a y : ℕ} (h : y ∈ unused a bs) : y ∈ starts a bs := by
  obtain ⟨⟨y', i⟩, hy, rfl⟩ := List.mem_map.1 h
  exact mem_starts_of_blocksAt hy

/-- The blocks before and behind another one are other items. -/
theorem Pool.mid_notMem {heap a free : ℕ} {g : View} (h : Pool c heap a free g (l ++ b :: r) fl) :
    a + total l ∉ starts a l ∧ a + total l ∉ starts (a + total l + b.size) r := by
  have hnd := h.starts_nodup
  rw [starts_mid] at hnd
  simp only [List.nodup_append', List.nodup_cons, List.disjoint_cons_right] at hnd
  exact ⟨hnd.2.2.1, hnd.2.1.1⟩

/-- No item begins inside a block. -/
theorem Pool.inside_notMem {heap a free i : ℕ} {g : View} (h : Pool c heap a free g (l ++ ⟨u, k⟩ :: r) fl) (h0 : 0 < i)
    (hk : i < k) : a + total l + i ∉ starts a (l ++ ⟨u, k⟩ :: r) := by
  have hH := c.memheapSize_bounds.1
  rw [starts_mid]
  intro hmem
  rcases List.mem_append.1 hmem with hmem | hmem
  · have := (starts_sorted (fun b hb => h.size b (by simp [hb])) a).2 _ hmem
    omega
  · rcases List.mem_cons.1 hmem with hmem | hmem
    · omega
    · have := (starts_sorted (fun b hb => h.size b (by simp [hb])) (a + total l + k)).2 _ hmem
      omega

/-- **A hole** of `k` bytes between the blocks `l` and `r`: a block that no one uses, which is in the free list or is
not yet. -/
structure Hole (c : Config) (s₀ s : Heap) (l : List Blk) (k : ℕ) (r : List Blk) (fl : List ℕ) (listed : Bool) :
    Prop where
  holds : Holds c s₀ s (l ++ ⟨false, k⟩ :: (r ++ [tailer c])) fl
  perm : fl.Perm (unused s₀.startAddr l ++
    ((if listed then [s₀.startAddr + total l] else []) ++ unused (s₀.startAddr + total l + k) r))
  left : NoAdj l
  right : NoAdj r

namespace Hole

variable {listed : Bool}

theorem notMem (h : Hole c s₀ s l k r fl false) : s₀.startAddr + total l ∉ fl := by
  obtain ⟨hl, hr⟩ := h.holds.pool.mid_notMem
  rw [starts_append] at hr
  intro hmem
  rw [h.perm.mem_iff] at hmem
  rcases List.mem_append.1 hmem with hmem | hmem
  · exact hl (starts_of_unused hmem)
  · exact hr (List.mem_append_left _ (starts_of_unused hmem))

/-- The block before the hole is in the free list. -/
theorem mergeLeft (h : Hole c s₀ s (l ++ [⟨false, j⟩]) k r fl false) :
    Hole c s₀ (Memheap.mergeLeft s (s₀.startAddr + total l + j)) l (j + k) r fl true := by
  have htot : s₀.startAddr + total (l ++ [⟨false, j⟩]) = s₀.startAddr + total l + j := by
    simp [Nat.add_assoc]
  have hnot := h.notMem
  have hperm := h.perm
  have hh := h.holds
  rw [List.append_assoc] at hh
  rw [htot] at hnot hperm
  refine ⟨hh.mergeLeft hnot, ?_, h.left.left, h.right⟩
  rw [← Nat.add_assoc]
  simpa using hperm

/-- The block behind the hole is in the free list. -/
theorem mergeRight (h : Hole c s₀ s l k (⟨false, j⟩ :: r) fl listed) :
    Hole c s₀ (Memheap.mergeRight s (s₀.startAddr + total l)) l (k + j) r (fl.erase (s₀.startAddr + total l + k))
      listed := by
  have hperm := h.perm
  rw [unused_false, ← List.append_assoc] at hperm
  have hmem : s₀.startAddr + total l + k ∈ fl := by
    rw [hperm.mem_iff]
    simp
  refine ⟨h.holds.mergeRight hmem, ?_, h.left, (noAdj_cons.1 h.right).2⟩
  rw [← Nat.add_assoc, ← List.append_assoc]
  exact erase_mid hperm

theorem insertFree (h : Hole c s₀ s l k r fl false) :
    Hole c s₀ (Memheap.insertFree s (s₀.startAddr + total l)) l k r ((s₀.startAddr + total l) :: fl) true :=
  ⟨h.holds.insertFree (mid_mem_starts _ _ _ _) h.notMem, cons_mid h.perm, h.left, h.right⟩

/-- **A hole is a free block** once it is in the free list, if its neighbours are used. -/
theorem inv (h : Hole c s₀ s l k r fl true) (htotal : total l + k + total r + c.memheapSize = s₀.poolSize)
    (hl : ∀ b ∈ l.getLast?, b.used = true) (hr : ∀ b ∈ r.head?, b.used = true)
    (havail : s.availableSize = freeRoom c.memheapSize (l ++ ⟨false, k⟩ :: r)) (hblock : s₀.blockList = s₀.startAddr) :
    HeapInv c s (l ++ ⟨false, k⟩ :: r) fl := by
  have hh := h.holds
  rw [← List.cons_append, ← List.append_assoc] at hh
  refine hh.inv ?_ ?_ ?_ havail hblock
  · simp only [total_append, total_cons]
    omega
  · simpa using h.perm
  · rw [noAdj_append, noAdj_cons]
    refine ⟨h.left, ⟨fun y hy => .inr (hr y hy), h.right⟩, fun x hx y _ => .inl (hl x hx)⟩

end Hole

end RtThread.Memheap
