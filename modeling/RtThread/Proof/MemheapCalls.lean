import RtThread.Proof.MemheapOps

/-!
# Allocation and release on a memory heap

* `findFree_ok`: the search finds a block that is large enough, if there is one.
* `rtMemheapAlloc_ok`, `rtMemheapFree_ok`: a call cuts a block, or gives one back.
-/

namespace RtThread.Memheap

open Bytes Layout

variable {c : Config} {s s' : Heap} {bs l r : List Blk} {fl : List ℕ} {k n j x size : ℕ}

/-! ## `rt_memheap_alloc` -/

/-- **The search** ends at a free block that is large enough, or at the header of the free list. -/
theorem findFree_ok {f₁ f₂ : List ℕ} {freeSize fuel : ℕ} (h : Holds c s s bs (f₁ ++ f₂)) (hsize : freeSize < size)
    (hfuel : f₂.length + 2 ≤ fuel) : ∃ header freeSize',
      findFree c s size fuel (f₂.headD s.freeList) freeSize = some (header, freeSize') ∧
        (header ∈ f₂ ∧ freeSize' = memitemSize c s header ∧ size ≤ freeSize' ∨
          freeSize' < size ∧ ∀ y ∈ f₂, memitemSize c s y < size) := by
  induction f₂ generalizing f₁ freeSize fuel with
  | nil =>
    obtain ⟨m, rfl⟩ : ∃ m, fuel = m + 1 := ⟨fuel - 1, by omega⟩
    refine ⟨s.freeList, freeSize, ?_, .inr ⟨hsize, fun y hy => by cases hy⟩⟩
    rw [findFree, List.headD_nil, if_neg (fun h => h.1 rfl)]
  | cons y f₂ ih =>
    obtain ⟨m, rfl⟩ : ∃ m, fuel = m + 2 := ⟨fuel - 2, by omega⟩
    have hne : y ≠ s.freeList := by
      rintro rfl
      exact h.pool.free_notMem (h.pool.sub _ (by simp))
    have hnext := h.pool.frees.next_headD
    rw [List.headD_cons, findFree, if_pos ⟨hne, hsize⟩]
    dsimp only
    by_cases hfit : memitemSize c s y < size
    · -- on to the next one
      rw [if_pos hfit, hnext]
      have h' : Holds c s s bs ((f₁ ++ [y]) ++ f₂) := by
        rw [List.append_assoc]
        exact h
      obtain ⟨header, fs, hfind, hor⟩ := ih h' hfit (Nat.le_of_succ_le_succ hfuel)
      refine ⟨header, fs, hfind, ?_⟩
      rcases hor with ⟨hmem, hrest⟩ | ⟨hlt, hall⟩
      · exact .inl ⟨List.mem_cons_of_mem _ hmem, hrest⟩
      · refine .inr ⟨hlt, fun z hz => ?_⟩
        rcases List.mem_cons.1 hz with rfl | hz
        · exact hfit
        · exact hall z hz
    · rw [if_neg hfit]
      refine ⟨y, memitemSize c s y, ?_, .inl ⟨List.mem_cons_self, rfl, Nat.not_lt.1 hfit⟩⟩
      rw [findFree, if_neg (fun h => hfit h.2)]

/-- **The split block**: the first `n` bytes behind the item are taken, the rest goes to the free list. -/
theorem splitItem_ok (hi : HeapInv c s (l ++ ⟨false, k⟩ :: r) fl) (hn : n + 2 * c.memheapSize + minialloc ≤ k) :
    Holds c s (splitItem c s (s.startAddr + total l) n)
        (l ++ ⟨false, n + c.memheapSize⟩ :: ⟨false, k - (n + c.memheapSize)⟩ :: (r ++ [tailer c]))
        ((s.startAddr + total l + (n + c.memheapSize)) :: fl.erase (s.startAddr + total l)) := by
  have hH := c.memheapSize_bounds.1
  have hpool := hi.pool_le
  have htot := hi.total
  simp only [total_append, total_cons] at htot
  have hnew : add (add (s.startAddr + total l) n) c.memheapSize = s.startAddr + total l + (n + c.memheapSize) := by
    rw [add_eq (a := s.startAddr + total l) (by omega), add_eq (by omega)]
    omega
  have h₁ := hi.holds_mid.newItem (n := n + c.memheapSize) (by omega) (by omega)
  have hmem := mid_mem_starts s.startAddr l ⟨false, n + c.memheapSize⟩
    (⟨false, k - (n + c.memheapSize)⟩ :: (r ++ [tailer c]))
  have hmem' : s.startAddr + total l + (n + c.memheapSize) ∈ starts s.startAddr (l ++ ⟨false, n + c.memheapSize⟩ ::
      ⟨false, k - (n + c.memheapSize)⟩ :: (r ++ [tailer c])) := by
    rw [starts_mid]
    simp [starts]
  have hgone : s.startAddr + total l ∉ fl.erase (s.startAddr + total l) := hi.holds.pool.nodup.not_mem_erase
  have h₂ := ((h₁.removeFree hi.mem_free).clear hmem hgone (.inl rfl)).clear hmem hgone (.inr rfl)
  -- the new item is no old one
  have hnot : s.startAddr + total l + (n + c.memheapSize) ∉ fl.erase (s.startAddr + total l) := fun hold =>
    hi.holds_mid.pool.inside_notMem (by omega) (by omega) (hi.holds_mid.pool.sub _ (List.mem_of_mem_erase hold))
  unfold splitItem
  rw [hnew, add_eq (a := n) (by omega)]
  exact (h₂.insertFree hmem' hnot).account _

/-- **The whole block** is taken. -/
theorem wholeItem_ok (hi : HeapInv c s (l ++ ⟨false, k⟩ :: r) fl) (n : ℕ) :
    Holds c s (wholeItem s (s.startAddr + total l) n) (l ++ ⟨false, k⟩ :: (r ++ [tailer c]))
      (fl.erase (s.startAddr + total l)) := by
  have hmem := mid_mem_starts s.startAddr l ⟨false, k⟩ (r ++ [tailer c])
  have hgone : s.startAddr + total l ∉ fl.erase (s.startAddr + total l) := hi.holds.pool.nodup.not_mem_erase
  have h₁ := (hi.holds_mid.account n).removeFree hi.mem_free
  exact (h₁.clear hmem hgone (.inl rfl)).clear hmem hgone (.inr rfl)

/-- What the branches count. -/
theorem takeItem_counts (s : Heap) (header freeSize size : ℕ) :
    ∃ n, n = (if freeSize ≥ add (add size c.memheapSize) minialloc then add size c.memheapSize else freeSize) ∧
      (takeItem c s header freeSize size).availableSize = sub s.availableSize n ∧
      (takeItem c s header freeSize size).maxUsedSize =
        max s.maxUsedSize (sub s.poolSize (sub s.availableSize n)) := by
  refine ⟨_, rfl, ?_⟩
  unfold takeItem
  split
  · have h := ((newItem_counts s header (add (add header size) c.memheapSize)).trans (removeFree_counts _ header)).trans
      (((set_counts _ header .nextFree rtNull).trans (set_counts _ header .prevFree rtNull)).trans
        (insertFree_counts _ (add (add header size) c.memheapSize)))
    have hmark := set_counts (splitItem c s header size) header .magic
      ((splitItem c s header size).get header .magic ||| memheapUsed)
    rw [hmark.available, hmark.maxUsed]
    exact account_counts h _
  · have h := (removeFree_counts (account s freeSize) header).trans
      (((set_counts _ header .nextFree rtNull).trans (set_counts _ header .prevFree rtNull)).trans
        (set_counts _ header .magic ((wholeItem s header freeSize).get header .magic ||| memheapUsed)))
    obtain ⟨havail, hmax⟩ := account_counts (.refl s) freeSize
    exact ⟨h.available.trans havail, h.maxUsed.trans hmax⟩

/-- The block that `rt_memheap_alloc` has taken for `n` bytes. -/
structure Took (c : Config) (s : Heap) (l : List Blk) (k : ℕ) (r : List Blk) (n : ℕ) (s' : Heap) (fl' : List ℕ) :
    Prop where
  inv : HeapInv c s' (l ++ cut (c.memheapSize + minialloc) (n + c.memheapSize) k ++ r) fl'
  same : Same s s'
  maxUsed : s'.maxUsedSize = max s.maxUsedSize s'.usedSize
  le : n + c.memheapSize ≤ k

/-- **Taking a block** for `n` bytes. -/
theorem takeItem_ok (hi : HeapInv c s (l ++ ⟨false, k⟩ :: r) fl) (hn : n + c.memheapSize ≤ k) :
    ∃ fl', Took c s l k r n (takeItem c s (s.startAddr + total l) (k - c.memheapSize) n) fl' := by
  have hH := c.memheapSize_bounds.1
  have hpool := hi.pool_le
  have htot := hi.total
  have havl := hi.avail_le
  have havail := hi.avail
  have hperm := hi.perm
  have hmini : minialloc = 12 := rfl
  simp only [total_append, total_cons] at htot
  simp only [freeRoom_append, freeRoom, Bool.false_eq_true, if_false] at havail
  simp only [unused_append, unused_false] at hperm
  obtain ⟨m, hm, hcount, hmax⟩ := takeItem_counts (c := c) s (s.startAddr + total l) (k - c.memheapSize) n
  rw [add_eq (a := n) (by omega), add_eq (a := n + c.memheapSize) (by omega)] at hm
  have hle : m ≤ s.availableSize := by
    split_ifs at hm <;> omega
  rw [sub_eq (by omega) hle] at hcount hmax
  have htotal : total (l ++ cut (c.memheapSize + minialloc) (n + c.memheapSize) k ++ r) + c.memheapSize =
      s.poolSize := by
    rw [total_append, total_append, total_cut, ← htot]
    omega
  -- the lists, by the two branches
  obtain ⟨fl', hholds, hlist, hroom⟩ : ∃ fl', Holds c s (takeItem c s (s.startAddr + total l) (k - c.memheapSize) n)
      (l ++ cut (c.memheapSize + minialloc) (n + c.memheapSize) k ++ r ++ [tailer c]) fl' ∧
      fl'.Perm (unused s.startAddr (l ++ cut (c.memheapSize + minialloc) (n + c.memheapSize) k ++ r)) ∧
      s.availableSize - m = freeRoom c.memheapSize
        (l ++ cut (c.memheapSize + minialloc) (n + c.memheapSize) k ++ r) := by
    unfold takeItem cut
    rw [add_eq (a := n) (by omega), add_eq (a := n + c.memheapSize) (by omega)]
    by_cases hsplit : n + c.memheapSize + minialloc ≤ k - c.memheapSize
    · have hs := (splitItem_ok hi (n := n) (by omega)).take
      rw [if_pos hsplit] at hm ⊢
      rw [if_pos (by omega)]
      refine ⟨_, (by rw [List.append_assoc, List.append_assoc]; exact hs), ?_, ?_⟩
      · simp only [unused_append, unused_true, unused_false, unused_nil, total_append, total_cons, total_nil]
        rw [show s.startAddr + (total l + (n + c.memheapSize + (k - (n + c.memheapSize) + 0))) =
          s.startAddr + total l + k by omega, List.append_assoc, List.singleton_append]
        exact cons_mid (erase_mid hperm)
      · simp only [freeRoom_append, freeRoom, if_true, Bool.false_eq_true, if_false]
        omega
    · have hs := (wholeItem_ok hi (k - c.memheapSize)).take
      rw [if_neg hsplit] at hm ⊢
      rw [if_neg (by omega)]
      refine ⟨_, (by rw [List.append_assoc, List.append_assoc]; exact hs), ?_, ?_⟩
      · simp only [unused_append, unused_true, unused_nil, total_append, total_cons, total_nil]
        rw [show s.startAddr + (total l + (k + 0)) = s.startAddr + total l + k by omega, List.append_nil]
        exact erase_mid hperm
      · simp only [freeRoom_append, freeRoom, if_true]
        omega
  refine ⟨fl', hholds.inv htotal hlist (noAdj_cut hi.noAdj) (hcount.trans hroom) hi.block, hholds.toSame, ?_, hn⟩
  rw [hmax, Heap.usedSize, hholds.poolSize, hcount]

/-- The size of an item, from its block. -/
theorem HeapInv.memitemSize {b : Blk} (hi : HeapInv c s (l ++ b :: r) fl) :
    Memheap.memitemSize c s (s.startAddr + Layout.total l) = b.size - c.memheapSize := by
  have hh := hi.holds_mid
  cases hr : r ++ [tailer c] with
  | nil => simp at hr
  | cons b' r' =>
    rw [hr] at hh
    exact hh.memitemSize

/-- The item behind a block. -/
theorem HeapInv.next {b : Blk} (hi : HeapInv c s (l ++ b :: r) fl) :
    s.get (s.startAddr + Layout.total l) .next = s.startAddr + Layout.total l + b.size := by
  have hh := hi.holds_mid
  cases hr : r ++ [tailer c] with
  | nil => simp at hr
  | cons b' r' =>
    rw [hr] at hh
    exact hh.pool.link.1

/-- There are no more free items than the pool has bytes. -/
theorem HeapInv.fuel (hi : HeapInv c s bs fl) : fl.length + 2 ≤ s.fuel := by
  have hlen : ∀ (a : ℕ) (l : List Blk), (∀ b ∈ l, c.memheapSize ≤ b.size) →
      (unused a l).length ≤ Layout.total l := by
    intro a l
    induction l generalizing a with
    | nil => exact fun _ => Nat.le_refl 0
    | cons b l ih =>
      intro hsize
      have hH := c.memheapSize_bounds.1
      have hb := hsize b List.mem_cons_self
      obtain ⟨u, k⟩ := b
      have hrest := ih (a + k) fun x hx => hsize x (List.mem_cons_of_mem _ hx)
      simp only [total_cons] at hb ⊢
      cases u
      · rw [unused_false, List.length_cons]
        omega
      · rw [unused_true]
        omega
  have hle := hlen s.startAddr bs fun b hb => hi.holds.pool.size b (List.mem_append_left _ hb)
  have htot := hi.total
  rw [hi.perm.length_eq, Heap.fuel]
  omega

theorem minialloc_le_request (size : ℕ) : minialloc ≤ request c size := by
  unfold request
  split <;> omega

theorem request_lt (size : ℕ) : request c size < 2 ^ 32 := by
  have hlog := c.alignLog_le
  have hlt : c.rtAlign size < 2 ^ 32 := Word.alignUp_lt (by omega)
  have hmini : minialloc = 12 := rfl
  unfold request
  split <;> omega

/-- **`rt_memheap_alloc`** takes a free block that is large enough, or returns `RT_NULL`: because the request is not
below `available_size`, or because no free block is large enough. -/
theorem rtMemheapAlloc_ok (hi : HeapInv c s bs fl) (size : ℕ) :
    (rtMemheapAlloc c s size = some (rtNull, s) ∧ (s.availableSize ≤ request c size ∨
        ∀ l k r, bs = l ++ ⟨false, k⟩ :: r → k - c.memheapSize < request c size)) ∨
      ∃ l k r s' fl', bs = l ++ ⟨false, k⟩ :: r ∧
        rtMemheapAlloc c s size = some (s.startAddr + total l + c.memheapSize, s') ∧
        Took c s l k r (request c size) s' fl' := by
  have hH := c.memheapSize_bounds.1
  have hmini := minialloc_le_request (c := c) size
  have hpool := hi.pool_le
  unfold rtMemheapAlloc
  by_cases hlt : request c size < s.availableSize
  · have hfirst := hi.holds.pool.frees.first.1
    have hmini' : minialloc = 12 := rfl
    have hholds : Holds c s s _ ([] ++ fl) := hi.holds
    obtain ⟨header, freeSize, hfind, hor⟩ :=
      findFree_ok hholds (by omega : 0 < request c size) hi.fuel
    rw [← hfirst] at hfind
    simp only [if_pos hlt, hfind, Option.map_some]
    rcases hor with ⟨hmem, hfree, hle⟩ | ⟨hsmall, hall⟩
    · right
      rw [hi.perm.mem_iff] at hmem
      obtain ⟨⟨x, k⟩, hx, rfl⟩ := List.mem_map.1 hmem
      obtain ⟨l, r, rfl, rfl⟩ := mem_blocksAt.1 hx
      have hsize : c.memheapSize ≤ k := hi.holds.pool.size ⟨false, k⟩ (by simp)
      have htot := hi.total
      simp only [total_append, total_cons] at htot
      simp only [hi.memitemSize] at hfree
      obtain ⟨fl', htook⟩ := takeItem_ok (n := request c size) hi (by omega)
      refine ⟨l, k, r, _, fl', rfl, ?_, htook⟩
      simp only [hfree, ge_iff_le]
      rw [if_pos (by omega), add_eq (by omega)]
    · left
      rw [if_neg (by omega)]
      refine ⟨rfl, .inr fun l k r hbs => ?_⟩
      subst hbs
      have hk := hall _ hi.mem_free
      rwa [hi.memitemSize] at hk
  · left
    rw [if_neg hlt]
    exact ⟨rfl, .inl (Nat.not_lt.1 hlt)⟩

/-! ## `rt_memheap_free` -/

/-- The part of `rt_memheap_free` behind its assertions. -/
def release (c : Config) (s : Heap) (header : ℕ) : Heap :=
  let s := s.set header .magic (s.get header .magic &&& memheapMask)
  let s := { s with availableSize := add s.availableSize (memitemSize c s header) }
  let left := s.get header .prev
  let insertHeader := decide (isUsed s left)
  let s :=
    if insertHeader then s
    else mergeLeft { s with availableSize := add s.availableSize c.memheapSize } header
  let header := if insertHeader then header else left
  let s :=
    if ¬isUsed s (s.get header .next) then
      mergeRight { s with availableSize := add s.availableSize c.memheapSize } header
    else s
  if insertHeader then insertFree s header else s

theorem rtMemheapFree_eq {ptr : ℕ} (h0 : ptr ≠ rtNull)
    (hmagic : s.get (sub ptr c.memheapSize) .magic &&& memheapMask = memheapMagic)
    (hused : isUsed s (sub ptr c.memheapSize))
    (hnext : s.get (s.get (sub ptr c.memheapSize) .next) .magic &&& memheapMask = memheapMagic)
    (hpool : s.get (sub ptr c.memheapSize) .poolPtr = s.self) :
    rtMemheapFree c s ptr = some (release c s (sub ptr c.memheapSize)) := by
  unfold rtMemheapFree
  rw [if_neg h0]
  simp only [guard, if_pos hmagic, if_pos hused, if_pos hnext, if_pos hpool]
  rfl

/-- A block before another one. -/
theorem Holds.prev {s₀ : Heap} {b b' : Blk} (h : Holds c s₀ s (l ++ b :: b' :: r) fl) :
    s.get (s₀.startAddr + total l + b.size) .prev = s₀.startAddr + total l := h.pool.link.2

/-- The block before the first one is the tailer. -/
theorem Holds.prev_first {s₀ : Heap} {b : Blk} (h : Holds c s₀ s (b :: (r ++ [tailer c])) fl) :
    s.get s₀.startAddr .prev = s₀.startAddr + total (b :: r) := by
  have hblocks := h.pool.blocks
  rw [← List.cons_append, starts_append] at hblocks
  exact hblocks.prev_first

/-- Whether the block before a hole is used: in front of the first block there is the tailer. -/
theorem Hole.left_used {s₀ : Heap} {listed : Bool} (h : Hole c s₀ s l k r fl listed) :
    isUsed s (s.get (s₀.startAddr + total l) .prev) ↔ ∀ b ∈ l.getLast?, b.used = true := by
  rcases List.eq_nil_or_concat l with rfl | ⟨l, b, rfl⟩
  · refine iff_of_true ?_ (by simp)
    have hh := h.holds
    rw [total_nil, Nat.add_zero, hh.prev_first]
    rw [List.nil_append, ← List.cons_append] at hh
    exact hh.isUsed_iff.2 rfl
  · have hh := h.holds
    simp only [List.concat_eq_append, List.append_assoc, List.singleton_append] at hh ⊢
    rw [total_append, total_cons, total_nil, Nat.add_zero, ← Nat.add_assoc, hh.prev, hh.isUsed_iff]
    simp

/-- Whether the block behind another one is used: behind the last block there is the tailer. -/
theorem Holds.next_used {s₀ : Heap} {b : Blk} (h : Holds c s₀ s (l ++ b :: (r ++ [tailer c])) fl) :
    isUsed s (s.get (s₀.startAddr + total l) .next) ↔ ∀ b ∈ r.head?, b.used = true := by
  have hassoc : ∀ q : List Blk, l ++ b :: q = (l ++ [b]) ++ q := by
    intro q
    rw [List.append_assoc]
    rfl
  cases r with
  | nil =>
    rw [List.nil_append] at h
    have hnext := h.pool.link.1
    rw [hassoc] at h
    have hused := h.isUsed_iff
    rw [total_append, total_cons, total_nil, Nat.add_zero, ← Nat.add_assoc] at hused
    rw [hnext, hused]
    exact iff_of_true rfl (by simp)
  | cons b' r =>
    have hnext := h.pool.link.1
    rw [hassoc] at h
    have hused := h.isUsed_iff
    rw [total_append, total_cons, total_nil, Nat.add_zero, ← Nat.add_assoc] at hused
    rw [hnext, hused]
    simp

theorem Hole.right_used {s₀ : Heap} {listed : Bool} (h : Hole c s₀ s l k r fl listed) :
    isUsed s (s.get (s₀.startAddr + total l) .next) ↔ ∀ b ∈ r.head?, b.used = true := h.holds.next_used

/-- The right half of giving back: a hole behind used blocks, or one that is listed already. -/
theorem Hole.settleRight {s₀ : Heap} {listed : Bool} (h : Hole c s₀ s l k r fl listed) {s₁ : Heap}
    (hs₁ : s₁ = if ¬isUsed s (s.get (s₀.startAddr + total l) .next) then
      Memheap.mergeRight { s with availableSize := add s.availableSize c.memheapSize } (s₀.startAddr + total l)
      else s) :
    ∃ fl', Hole c s₀ s₁ l (k + (headFree r).1) (headFree r).2 fl' listed ∧
      s₁.availableSize = (if ∀ b ∈ r.head?, b.used = true then s.availableSize
        else add s.availableSize c.memheapSize) ∧ s₁.maxUsedSize = s.maxUsedSize := by
  rcases headFree_cases r with ⟨j, r', rfl, hr⟩ | ⟨hr, hused⟩
  · have hnot : ¬∀ b ∈ (⟨false, j⟩ :: r').head?, b.used = true := fun hall => by
      cases hall ⟨false, j⟩ rfl
    rw [if_pos (h.right_used.not.2 hnot)] at hs₁
    rw [hr, if_neg hnot]
    have h' : Hole c s₀ { s with availableSize := add s.availableSize c.memheapSize } l k (⟨false, j⟩ :: r') fl listed :=
      ⟨h.holds.of_mem ⟨rfl, rfl, rfl, rfl, rfl⟩ rfl, h.perm, h.left, h.right⟩
    subst hs₁
    exact ⟨_, h'.mergeRight, rfl, rfl⟩
  · rw [if_neg (not_not.2 (h.right_used.2 hused))] at hs₁
    rw [hr, if_pos hused, hs₁]
    exact ⟨fl, h, rfl, rfl⟩

/-- The room after joining: that of the block, and that of the headers that are no longer needed. -/
theorem freeRoom_plug {d : ℕ} (hl : ∀ b ∈ l, d ≤ b.size) (hr : ∀ b ∈ r, d ≤ b.size) (hk : d ≤ k) :
    freeRoom d (plug l k r) = freeRoom d l + (k - d) + (if ∀ b ∈ l.getLast?, b.used = true then 0 else d) +
      (if ∀ b ∈ r.head?, b.used = true then 0 else d) + freeRoom d r := by
  unfold plug
  rcases lastFree_cases l with ⟨kl, l', rfl, hl'⟩ | ⟨hl', hlu⟩
  · have hkl : d ≤ kl := hl ⟨false, kl⟩ (by simp)
    have hnot : ¬∀ b ∈ (l' ++ [(⟨false, kl⟩ : Blk)]).getLast?, b.used = true := by simp
    rw [hl', if_neg hnot]
    rcases headFree_cases r with ⟨kr, r', rfl, hr'⟩ | ⟨hr', hru⟩
    · have hkr : d ≤ kr := hr ⟨false, kr⟩ (by simp)
      have hnot' : ¬∀ b ∈ ((⟨false, kr⟩ : Blk) :: r').head?, b.used = true := by simp
      rw [hr', if_neg hnot']
      simp only [freeRoom_append, freeRoom, Bool.false_eq_true, if_false]
      omega
    · rw [hr', if_pos hru]
      simp only [freeRoom_append, freeRoom, Bool.false_eq_true, if_false]
      omega
  · rw [hl', if_pos hlu]
    rcases headFree_cases r with ⟨kr, r', rfl, hr'⟩ | ⟨hr', hru⟩
    · have hkr : d ≤ kr := hr ⟨false, kr⟩ (by simp)
      have hnot' : ¬∀ b ∈ ((⟨false, kr⟩ : Blk) :: r').head?, b.used = true := by simp
      rw [hr', if_neg hnot']
      simp only [freeRoom_append, freeRoom, Bool.false_eq_true, if_false]
      omega
    · rw [hr', if_pos hru]
      simp only [freeRoom_append, freeRoom, Bool.false_eq_true, if_false]
      omega

theorem plug_concat {l' : List Blk} (h : ∀ b ∈ l'.getLast?, b.used = true) :
    plug (l' ++ [⟨false, j⟩]) k r = plug l' (j + k) r := by
  have hlast : lastFree (l' ++ [⟨false, j⟩]) = (j, l') := by
    simp [lastFree, headFree]
  have hused : lastFree l' = (0, l') := by
    rcases lastFree_cases l' with ⟨kl, l'', rfl, -⟩ | ⟨hl', -⟩
    · exact absurd (h ⟨false, kl⟩ (by simp)) (by simp)
    · exact hl'
  unfold plug
  rw [hlast, hused, Nat.zero_add]

/-- A heap that a block came back to. -/
structure Gave (c : Config) (s : Heap) (bs' : List Blk) (s' : Heap) (fl' : List ℕ) : Prop where
  inv : HeapInv c s' bs' fl'
  same : Same s s'
  maxUsed : s'.maxUsedSize = s.maxUsedSize
  more : s.availableSize ≤ s'.availableSize

/-- **A hole is settled**: joined with the block behind it, it goes to the free list unless it is there. -/
theorem Hole.settle {s₀ : Heap} {listed : Bool} (h : Hole c s₀ s l k r fl listed) {s₂ : Heap}
    (hs₂ : s₂ = if ¬isUsed s (s.get (s₀.startAddr + total l) .next) then
      Memheap.mergeRight { s with availableSize := add s.availableSize c.memheapSize } (s₀.startAddr + total l)
      else s) (hl : ∀ b ∈ l.getLast?, b.used = true)
    (htotal : total l + k + total r + c.memheapSize = s₀.poolSize) (hpool : s₀.poolSize < 2 ^ 32)
    (havail : s.availableSize = freeRoom c.memheapSize l + (k - c.memheapSize) + freeRoom c.memheapSize r)
    (hblock : s₀.blockList = s₀.startAddr) :
    ∃ fl', HeapInv c (if listed then s₂ else Memheap.insertFree s₂ (s₀.startAddr + total l)) (plug l k r) fl' ∧
      Same s₀ (if listed then s₂ else Memheap.insertFree s₂ (s₀.startAddr + total l)) ∧
      (if listed then s₂ else Memheap.insertFree s₂ (s₀.startAddr + total l)).maxUsedSize = s.maxUsedSize ∧
      s.availableSize ≤ (if listed then s₂ else Memheap.insertFree s₂ (s₀.startAddr + total l)).availableSize := by
  have hH := c.memheapSize_bounds.1
  have hsize := h.holds.pool.size
  have hk : c.memheapSize ≤ k := hsize ⟨false, k⟩ (by simp)
  have hroom := freeRoom_plug (d := c.memheapSize) (l := l) (r := r) (k := k) (fun b hb => hsize b (by simp [hb]))
    (fun b hb => hsize b (by simp [hb])) hk
  have hle := freeRoom_le c.memheapSize (plug l k r)
  rw [total_plug] at hle
  rw [if_pos hl] at hroom
  obtain ⟨fl₂, hhole, hav, hmax⟩ := h.settleRight hs₂
  have havail₂ : s₂.availableSize = freeRoom c.memheapSize (plug l k r) := by
    rw [hav, hroom]
    split
    · omega
    · rename_i hnot
      rw [if_neg hnot] at hroom
      rw [add_eq (by omega)]
      omega
  have hmore : s.availableSize ≤ s₂.availableSize := by omega
  have hlast : (lastFree l).2 = l ∧ (lastFree l).1 = 0 := by
    rcases lastFree_cases l with ⟨kl, l', rfl, -⟩ | ⟨hl', -⟩
    · exact absurd (hl ⟨false, kl⟩ (by simp)) (by simp)
    · rw [hl']
      exact ⟨rfl, rfl⟩
  have hplug : plug l k r = l ++ ⟨false, k + (headFree r).1⟩ :: (headFree r).2 := by
    unfold plug
    rw [hlast.1, hlast.2, Nat.zero_add]
  have hright : ∀ b ∈ (headFree r).2.head?, b.used = true := by
    rcases headFree_cases r with ⟨kr, r', rfl, hr'⟩ | ⟨hr', hru⟩
    · rw [hr']
      exact (noAdj_unused (l := []) h.right).2
    · rw [hr']
      exact hru
  have htot : total l + (k + (headFree r).1) + total (headFree r).2 + c.memheapSize = s₀.poolSize := by
    have ht := total_plug l k r
    rw [hplug, total_append, total_cons] at ht
    simp only at ht
    omega
  rw [hplug] at havail₂ ⊢
  cases listed
  · have hins := hhole.insertFree
    exact ⟨_, hins.inv htot hl hright havail₂ hblock, hins.holds.toSame, hmax, hmore⟩
  · exact ⟨fl₂, hhole.inv htot hl hright havail₂ hblock, hhole.holds.toSame, hmax, hmore⟩

theorem HeapInv.pool_lt (hi : HeapInv c s bs fl) : s.poolSize < 2 ^ 32 := by
  have hapart := hi.holds.pool.apart
  have hlt := hi.holds.pool.free_lt
  have hle := hi.pool_le
  have htot := hi.total
  simp only [total_append, total_cons, total_nil, tailer] at hapart
  omega

/-- **A block is given back.** -/
theorem release_ok (hi : HeapInv c s (l ++ ⟨true, k⟩ :: r) fl) :
    ∃ fl', Gave c s (plug l k r) (release c s (s.startAddr + total l)) fl' := by
  have hH := c.memheapSize_bounds.1
  have hpool := hi.pool_lt
  have htot := hi.total
  have havail := hi.avail
  have hroomL := freeRoom_le c.memheapSize l
  have hroomR := freeRoom_le c.memheapSize r
  have hno := noAdj_used.1 hi.noAdj
  have hperm := hi.perm
  have hk : c.memheapSize ≤ k := hi.holds.pool.size ⟨true, k⟩ (by simp)
  simp only [total_append, total_cons] at htot
  simp only [freeRoom_append, freeRoom, if_true, Nat.zero_add] at havail
  simp only [unused_append, unused_true] at hperm
  have hmagic : s.get (s.startAddr + total l) .magic &&& memheapMask = magicOf false := by
    rw [hi.holds_mid.magic_eq]
    exact (by decide : magicOf true &&& memheapMask = magicOf false)
  -- the block is a hole now
  have h₁ := hi.holds_mid.setMagic false
  have hitem : memitemSize c (s.set (s.startAddr + total l) .magic (magicOf false)) (s.startAddr + total l) =
      k - c.memheapSize := by
    cases hr : r ++ [tailer c] with
    | nil => simp at hr
    | cons b r' =>
      rw [hr] at h₁
      exact h₁.memitemSize
  have hadd : add s.availableSize (k - c.memheapSize) = s.availableSize + (k - c.memheapSize) := add_eq (by omega)
  generalize hs₁ : ({ s.set (s.startAddr + total l) .magic (magicOf false) with
    availableSize := s.availableSize + (k - c.memheapSize) } : Heap) = s₁
  have hhole : Hole c s s₁ l k r fl false := by
    refine ⟨h₁.of_mem ?_ ?_, ?_, hno.1, hno.2⟩
    · rw [← hs₁]
      exact ⟨rfl, rfl, rfl, rfl, rfl⟩
    · rw [← hs₁]
    · simpa using hperm
  have hav₁ : s₁.availableSize = s.availableSize + (k - c.memheapSize) := by rw [← hs₁]
  have hmax₁ : s₁.maxUsedSize = s.maxUsedSize := by
    rw [← hs₁]
    rfl
  unfold release
  simp only [hmagic, hitem]
  rw [show (s.set (s.startAddr + total l) .magic (magicOf false)).availableSize = s.availableSize from rfl, hadd, hs₁]
  by_cases hleft : ∀ b ∈ l.getLast?, b.used = true
  · -- the block before is used
    simp only [hhole.left_used.2 hleft, decide_true, if_true]
    obtain ⟨fl', hinv, hsame, hmax, hmore⟩ := hhole.settle rfl hleft (by omega) hpool (by omega) hi.block
    refine ⟨fl', hinv, hsame, hmax.trans hmax₁, Nat.le_trans ?_ hmore⟩
    omega
  · simp only [mt hhole.left_used.1 hleft, decide_false, Bool.false_eq_true, if_false]
    obtain ⟨j, l', rfl, -⟩ | ⟨-, hused⟩ := lastFree_cases l
    · -- the block before is free
      have hj : c.memheapSize ≤ j := hi.holds.pool.size ⟨false, j⟩ (by simp)
      have hused := (noAdj_unused hno.1).1
      have hheader : s.startAddr + total (l' ++ [⟨false, j⟩]) = s.startAddr + total l' + j := by
        simp [Nat.add_assoc]
      have hprev : s₁.get (s.startAddr + total (l' ++ [⟨false, j⟩])) .prev = s.startAddr + total l' := by
        have hh := hhole.holds
        rw [List.append_assoc] at hh
        rw [hheader]
        exact hh.prev
      simp only [total_append, total_cons, total_nil] at htot hroomL
      simp only [freeRoom_append, freeRoom, Bool.false_eq_true, if_false] at havail hroomL
      have hroomL' := freeRoom_le c.memheapSize l'
      have hadd₂ : add s₁.availableSize c.memheapSize = s₁.availableSize + c.memheapSize := add_eq (by omega)
      have hhole₁ : Hole c s { s₁ with availableSize := s₁.availableSize + c.memheapSize } (l' ++ [⟨false, j⟩]) k r fl
          false :=
        ⟨hhole.holds.of_mem ⟨rfl, rfl, rfl, rfl, rfl⟩ rfl, hhole.perm, hhole.left, hhole.right⟩
      have hhole₂ := hhole₁.mergeLeft
      have hstruct : ({ s.set (s.startAddr + total (l' ++ [⟨false, j⟩])) .magic (magicOf false) with
          availableSize := add (s.availableSize + (k - c.memheapSize)) c.memheapSize } : Heap) =
            { s₁ with availableSize := s₁.availableSize + c.memheapSize } := by
        rw [← hav₁, hadd₂, ← hs₁]
      rw [hprev, hstruct, hheader, plug_concat hused]
      generalize hs₂ : Memheap.mergeLeft { s₁ with availableSize := s₁.availableSize + c.memheapSize }
        (s.startAddr + total l' + j) = s₂ at hhole₂ ⊢
      have hav₂ : s₂.availableSize = s₁.availableSize + c.memheapSize := by
        rw [← hs₂]
        rfl
      have hmax₂ : s₂.maxUsedSize = s₁.maxUsedSize := by
        rw [← hs₂]
        rfl
      obtain ⟨fl', hinv, hsame, hmax, hmore⟩ := hhole₂.settle rfl hused (by omega) hpool (by omega) hi.block
      refine ⟨fl', hinv, hsame, (hmax.trans hmax₂).trans hmax₁, Nat.le_trans ?_ hmore⟩
      omega
    · exact absurd hused hleft

/-- Every item has its magic. -/
theorem Holds.magic_mask {s₀ : Heap} (h : Holds c s₀ s bs fl) (hx : x ∈ starts s₀.startAddr bs) :
    s.get x .magic &&& memheapMask = memheapMagic := by
  obtain ⟨u, k, hb⟩ := mem_starts.1 hx
  rw [h.pool.magic u x k hb]
  cases u <;> decide

/-- The header of a user area. -/
theorem HeapInv.header {b : Blk} (hi : HeapInv c s (l ++ b :: r) fl) :
    sub (s.startAddr + Layout.total l + c.memheapSize) c.memheapSize = s.startAddr + Layout.total l ∧
      s.startAddr + Layout.total l + c.memheapSize ≠ rtNull := by
  have hH := c.memheapSize_bounds.1
  have hlt := hi.pool_le
  have hb : c.memheapSize ≤ b.size := hi.holds.pool.size b (by simp)
  have htot := hi.total
  simp only [total_append, total_cons] at htot
  refine ⟨?_, fun h0 => ?_⟩
  · rw [sub_eq (by omega) (by omega), Nat.add_sub_cancel]
  · have : rtNull = 0 := rfl
    omega

/-- **`rt_memheap_free`** of a live pointer gives its block back. -/
theorem rtMemheapFree_ok (hi : HeapInv c s (l ++ ⟨true, k⟩ :: r) fl) : ∃ s' fl',
    rtMemheapFree c s (s.startAddr + total l + c.memheapSize) = some s' ∧ Gave c s (plug l k r) s' fl' := by
  obtain ⟨hheader, hnull⟩ := hi.header
  have hmem := mid_mem_starts s.startAddr l ⟨true, k⟩ (r ++ [tailer c])
  obtain ⟨fl', hgave⟩ := release_ok hi
  refine ⟨_, fl', ?_, hgave⟩
  rw [rtMemheapFree_eq hnull, hheader]
  · rw [hheader]
    exact hi.holds_mid.magic_mask hmem
  · rw [hheader]
    exact hi.holds_mid.isUsed_iff.2 rfl
  · rw [hheader]
    exact hi.holds_mid.magic_mask (hi.holds_mid.pool.next_mem hmem)
  · rw [hheader]
    exact hi.holds_mid.pool.poolPtr _ hmem

end RtThread.Memheap
