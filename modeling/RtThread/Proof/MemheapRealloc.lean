import RtThread.Proof.MemheapCalls

/-!
# Reallocation on a memory heap, and its initial state

* `shrink_ok`, `expand_ok`: a block is split in place, or grows into the one behind it.
* `rtMemheapRealloc_ok`: the ends of `rt_memheap_realloc` (`Realloced`).
* `rtMemheapInit_ok`: the heap after `rt_memheap_init` has one free block.
-/

namespace RtThread.Memheap

open Bytes Layout

variable {c : Config} {s s' : Heap} {bs l r : List Blk} {fl : List ℕ} {k n j x size : ℕ}

theorem Hole.of_mem {s₀ : Heap} {listed : Bool} (h : Hole c s₀ s l k r fl listed) (hs : Same s s') (hm : s'.mem = s.mem) :
    Hole c s₀ s' l k r fl listed := ⟨h.holds.of_mem hs hm, h.perm, h.left, h.right⟩

/-- The size of a hole, as an item. -/
theorem Hole.memitemSize {s₀ : Heap} {listed : Bool} (h : Hole c s₀ s l k r fl listed) :
    Memheap.memitemSize c s (s₀.startAddr + total l) = k - c.memheapSize := by
  have hh := h.holds
  cases hr : r ++ [tailer c] with
  | nil => simp at hr
  | cons b r' =>
    rw [hr] at hh
    exact hh.memitemSize

/-- **A hole goes to the free list**, and its room is counted. -/
theorem Hole.finish {s₀ : Heap} (h : Hole c s₀ s l k r fl false) (hl : ∀ b ∈ l.getLast?, b.used = true)
    (hr : ∀ b ∈ r.head?, b.used = true) (htotal : total l + k + total r + c.memheapSize = s₀.poolSize)
    (havail : s.availableSize + (k - c.memheapSize) = freeRoom c.memheapSize (l ++ ⟨false, k⟩ :: r))
    (hpool : s₀.poolSize < 2 ^ 32) (hblock : s₀.blockList = s₀.startAddr) :
    ∀ t, t = Memheap.insertFree s (s₀.startAddr + total l) → ∀ n, n = Memheap.memitemSize c t (s₀.startAddr + total l) →
      ∃ fl', HeapInv c { t with availableSize := add t.availableSize n } (l ++ ⟨false, k⟩ :: r) fl' ∧
        Same s₀ { t with availableSize := add t.availableSize n } ∧ t.maxUsedSize = s.maxUsedSize ∧
        add t.availableSize n = s.availableSize + (k - c.memheapSize) := by
  intro t ht n hn
  have hins := h.insertFree
  have hcounts := insertFree_counts s (s₀.startAddr + total l)
  rw [← ht] at hins hcounts
  have hle := freeRoom_le c.memheapSize (l ++ ⟨false, k⟩ :: r)
  simp only [total_append, total_cons] at hle
  have hav : add t.availableSize n = s.availableSize + (k - c.memheapSize) := by
    rw [hn, hins.memitemSize, hcounts.available, add_eq (by omega)]
  have hfinal : Hole c s₀ { t with availableSize := add t.availableSize n } l k r _ true :=
    hins.of_mem ⟨rfl, rfl, rfl, rfl, rfl⟩ rfl
  exact ⟨_, hfinal.inv htotal hl hr (hav.trans havail) hblock, hfinal.holds.toSame, hcounts.maxUsed, hav⟩

/-- The size of the item behind a hole. -/
theorem Hole.next_size {s₀ : Heap} {listed : Bool} {b : Blk} (h : Hole c s₀ s l k (b :: r) fl listed) :
    Memheap.memitemSize c s (s.get (s₀.startAddr + total l) .next) = b.size - c.memheapSize := by
  have hh := h.holds
  rw [List.cons_append] at hh
  have hnext := hh.pool.link.1
  rw [hnext]
  have hh' : Holds c s₀ s ((l ++ [⟨false, k⟩]) ++ b :: (r ++ [tailer c])) fl := by
    rw [List.append_assoc]
    exact hh
  cases hr : r ++ [tailer c] with
  | nil => simp at hr
  | cons b' r' =>
    rw [hr] at hh'
    have hsize := hh'.memitemSize
    rw [total_append, total_cons, total_nil, Nat.add_zero, ← Nat.add_assoc] at hsize
    exact hsize

/-! ## `rt_memheap_realloc` -/

/-- **The block is split** in place: the rest joins a free block behind it. -/
theorem shrink_ok (hi : HeapInv c s (l ++ ⟨true, k⟩ :: r) fl) (hn : n + 2 * c.memheapSize + minialloc < k) :
    ∃ fl', Gave c s (plug (l ++ [⟨true, n + c.memheapSize⟩]) (k - (n + c.memheapSize)) r)
      (shrink c s (s.startAddr + total l) n) fl' := by
  have hH := c.memheapSize_bounds.1
  have hpool := hi.pool_lt
  have hle := hi.pool_le
  have htot := hi.total
  have havail := hi.avail
  have hroomL := freeRoom_le c.memheapSize l
  have hroomR := freeRoom_le c.memheapSize r
  have hno := noAdj_used.1 hi.noAdj
  have hperm := hi.perm
  simp only [total_append, total_cons] at htot
  simp only [freeRoom_append, freeRoom, if_true, Nat.zero_add] at havail
  simp only [unused_append, unused_true] at hperm
  have hnew : add (add (s.startAddr + total l) n) c.memheapSize = s.startAddr + total l + (n + c.memheapSize) := by
    rw [add_eq (a := s.startAddr + total l) (by omega), add_eq (by omega)]
    omega
  have h₁ := hi.holds_mid.newItem (n := n + c.memheapSize) (by omega) (by omega)
  -- the rest of the block is a hole
  have htotal : s.startAddr + total (l ++ [⟨true, n + c.memheapSize⟩]) =
      s.startAddr + total l + (n + c.memheapSize) := by
    simp [Nat.add_assoc]
  generalize hs₁ : newItem s (s.startAddr + total l) (s.startAddr + total l + (n + c.memheapSize)) = s₁ at h₁
  have hav₁ : s₁.availableSize = s.availableSize := by
    rw [← hs₁]
    rfl
  have hmax₁ : s₁.maxUsedSize = s.maxUsedSize := by
    rw [← hs₁]
    rfl
  have hhole : Hole c s s₁ (l ++ [⟨true, n + c.memheapSize⟩]) (k - (n + c.memheapSize)) r fl false := by
    refine ⟨?_, ?_, noAdj_used.2 ⟨hno.1, List.isChain_nil⟩, hno.2⟩
    · rw [List.append_assoc]
      exact h₁
    · rw [htotal, show s.startAddr + total l + (n + c.memheapSize) + (k - (n + c.memheapSize)) =
        s.startAddr + total l + k by omega]
      simpa using hperm
  have hlast : ∀ b ∈ (l ++ [(⟨true, n + c.memheapSize⟩ : Blk)]).getLast?, b.used = true := by simp
  unfold shrink
  simp only [hnew, hs₁]
  simp only [← htotal]
  rcases headFree_cases r with ⟨j, r', rfl, hr⟩ | ⟨hr, hused⟩
  · -- the block behind it is free
    have hj : c.memheapSize ≤ j := hi.holds.pool.size ⟨false, j⟩ (by simp)
    have hroomR' := freeRoom_le c.memheapSize r'
    simp only [total_cons, freeRoom, Bool.false_eq_true, if_false] at htot havail hroomR
    have hnot : ¬∀ b ∈ ((⟨false, j⟩ : Blk) :: r').head?, b.used = true := by simp
    rw [if_pos (hhole.right_used.not.2 hnot), hhole.next_size]
    have hsub : sub s₁.availableSize (j - c.memheapSize) = s₁.availableSize - (j - c.memheapSize) :=
      sub_eq (by omega) (by omega)
    rw [hsub]
    have hsame : Same s₁ { s₁ with availableSize := s₁.availableSize - (j - c.memheapSize) } :=
      ⟨rfl, rfl, rfl, rfl, rfl⟩
    have hhole₁ := (hhole.of_mem hsame rfl).mergeRight
    generalize hs₂ : mergeRight { s₁ with availableSize := s₁.availableSize - (j - c.memheapSize) }
      (s.startAddr + total (l ++ [⟨true, n + c.memheapSize⟩])) = s₂ at hhole₁ ⊢
    have hav₂ : s₂.availableSize = s₁.availableSize - (j - c.memheapSize) := by
      rw [← hs₂]
      rfl
    have hmax₂ : s₂.maxUsedSize = s₁.maxUsedSize := by
      rw [← hs₂]
      rfl
    have hplug : plug (l ++ [⟨true, n + c.memheapSize⟩]) (k - (n + c.memheapSize)) (⟨false, j⟩ :: r') =
        l ++ [⟨true, n + c.memheapSize⟩] ++ ⟨false, k - (n + c.memheapSize) + j⟩ :: r' := by
      unfold plug
      rw [hr]
      simp [lastFree, headFree]
    rw [hplug]
    obtain ⟨fl', hinv, hsame, hmax, hav⟩ := hhole₁.finish hlast (noAdj_unused (l := []) hno.2).2
      (by simp only [total_append, total_cons, total_nil]; omega)
      (by simp only [freeRoom_append, freeRoom, if_true, Bool.false_eq_true, if_false]; omega) hpool hi.block _ rfl _ rfl
    generalize insertFree s₂ (s.startAddr + total (l ++ [⟨true, n + c.memheapSize⟩])) = t at hinv hsame hmax hav ⊢
    refine ⟨fl', hinv, hsame, (hmax.trans hmax₂).trans hmax₁, ?_⟩
    show s.availableSize ≤ add _ _
    rw [hav]
    omega
  · rw [if_neg (not_not.2 (hhole.right_used.2 hused))]
    have hplug : plug (l ++ [⟨true, n + c.memheapSize⟩]) (k - (n + c.memheapSize)) r =
        l ++ [⟨true, n + c.memheapSize⟩] ++ ⟨false, k - (n + c.memheapSize)⟩ :: r := by
      unfold plug
      rw [hr]
      simp [lastFree, headFree]
    rw [hplug]
    obtain ⟨fl', hinv, hsame, hmax, hav⟩ := hhole.finish hlast hused
      (by simp only [total_append, total_cons, total_nil]; omega)
      (by simp only [freeRoom_append, freeRoom, if_true, Bool.false_eq_true, if_false]; omega) hpool hi.block _ rfl _ rfl
    generalize insertFree s₁ (s.startAddr + total (l ++ [⟨true, n + c.memheapSize⟩])) = t at hinv hsame hmax hav ⊢
    refine ⟨fl', hinv, hsame, hmax.trans hmax₁, ?_⟩
    show s.availableSize ≤ add _ _
    rw [hav]
    omega

/-- A heap whose block has grown: the available byte count is decremented as by `rt_memheap_alloc`. -/
structure Grew (c : Config) (s : Heap) (bs' : List Blk) (s' : Heap) (fl' : List ℕ) : Prop where
  inv : HeapInv c s' bs' fl'
  same : Same s s'
  maxUsed : s'.maxUsedSize = max s.maxUsedSize s'.usedSize

/-- **The block grows** into the free block behind it. -/
theorem expand_ok (hi : HeapInv c s (l ++ ⟨true, k⟩ :: ⟨false, j⟩ :: r) fl) (hold : k - c.memheapSize ≤ n)
    (hn : n + minialloc < j - c.memheapSize + (k - c.memheapSize)) :
    ∃ fl', Grew c s (l ++ ⟨true, n + c.memheapSize⟩ :: ⟨false, k + j - (n + c.memheapSize)⟩ :: r)
      (expand s (s.startAddr + total l + c.memheapSize) (s.startAddr + total l) (k - c.memheapSize) n) fl' := by
  have hH := c.memheapSize_bounds.1
  have hpool := hi.pool_lt
  have hle := hi.pool_le
  have htot := hi.total
  have havail := hi.avail
  have hroomL := freeRoom_le c.memheapSize l
  have hroomR := freeRoom_le c.memheapSize r
  have hno := noAdj_used.1 hi.noAdj
  have hperm := hi.perm
  have hk : c.memheapSize ≤ k := hi.holds.pool.size ⟨true, k⟩ (by simp)
  have hj : c.memheapSize ≤ j := hi.holds.pool.size ⟨false, j⟩ (by simp)
  have hmini : minialloc = 12 := rfl
  simp only [total_append, total_cons] at htot
  simp only [freeRoom_append, freeRoom, if_true, Nat.zero_add, Bool.false_eq_true, if_false] at havail
  simp only [unused_append, unused_true, unused_false] at hperm
  have hnext : s.get (s.startAddr + total l) .next = s.startAddr + total l + k := hi.holds_mid.pool.link.1
  have hmem : s.startAddr + total l + k ∈ fl := by
    rw [hperm.mem_iff]
    simp
  have hsub : sub n (k - c.memheapSize) = n - (k - c.memheapSize) := sub_eq (by omega) hold
  have hnew : add (s.startAddr + total l + c.memheapSize) n = s.startAddr + total l + (n + c.memheapSize) := by
    rw [add_eq (by omega)]
    omega
  -- the next block leaves both lists
  have h₂ := (hi.holds_mid.account (n - (k - c.memheapSize))).removeFree hmem
  have h₃ := h₂.bypass hi.holds.pool.nodup.not_mem_erase rfl
  -- and a new one comes behind
  have h₄ := h₃.newItem (n := n + c.memheapSize) (by omega) (by omega)
  have hnot : s.startAddr + total l + (n + c.memheapSize) ∉ fl.erase (s.startAddr + total l + k) := fun hmem' =>
    h₃.pool.inside_notMem (by omega) (by omega) (h₃.pool.sub _ hmem')
  have h₅ := h₄.insertFree (by rw [starts_mid]; simp [starts]) hnot
  have hcounts := account_counts (Counts.refl s) (n - (k - c.memheapSize))
  rw [sub_eq (by omega) (by omega)] at hcounts
  generalize hs₅ : Memheap.insertFree _ _ = s₅ at h₅
  have hexpand : expand s (s.startAddr + total l + c.memheapSize) (s.startAddr + total l) (k - c.memheapSize) n = s₅ := by
    rw [← hs₅]
    unfold expand
    simp only [hnext, hsub, hnew]
  have hcounts₅ : Counts (account s (n - (k - c.memheapSize))) s₅ := by
    rw [← hs₅]
    exact (((removeFree_counts _ _).trans ((set_counts _ _ _ _).trans (set_counts _ _ _ _))).trans
      (newItem_counts _ _ _)).trans (insertFree_counts _ _)
  have hav : s₅.availableSize = s.availableSize - (n - (k - c.memheapSize)) := hcounts₅.available.trans hcounts.1
  rw [hexpand]
  have h₅' : Holds c s s₅ ((l ++ ⟨true, n + c.memheapSize⟩ :: ⟨false, k + j - (n + c.memheapSize)⟩ :: r) ++ [tailer c])
      ((s.startAddr + total l + (n + c.memheapSize)) :: fl.erase (s.startAddr + total l + k)) := by
    rw [List.append_assoc]
    exact h₅
  refine ⟨_, ⟨h₅'.inv ?_ ?_ ?_ ?_ hi.block, h₅.toSame, ?_⟩⟩
  · simp only [total_append, total_cons]
    omega
  · simp only [unused_append, unused_true, unused_false]
    rw [show s.startAddr + total l + (n + c.memheapSize) + (k + j - (n + c.memheapSize)) =
      s.startAddr + total l + k + j by omega]
    exact cons_mid (erase_mid hperm)
  · rw [noAdj_used, noAdj_cons]
    exact ⟨hno.1, fun b hb => .inr ((noAdj_unused (l := []) hno.2).2 b hb), (noAdj_cons.1 hno.2).2⟩
  · rw [hav]
    simp only [freeRoom_append, freeRoom, if_true, Bool.false_eq_true, if_false]
    omega
  · rw [hcounts₅.maxUsed, hcounts.2, Heap.usedSize, hav, h₅.poolSize]

/-- The rest of `rt_memheap_realloc` where the block has to move. -/
def move (c : Config) (s : Heap) (ptr oldsize newsize : ℕ) : Option (ℕ × Heap) := do
  let (new, s) ← rtMemheapAlloc c s newsize
  if new ≠ rtNull then
    let s := { s with mem := copy s.mem new ptr (if oldsize < newsize then oldsize else newsize) }
    let s ← rtMemheapFree c s ptr
    return (new, s)
  else return (new, s)

/-- **The ends of `rt_memheap_realloc`** for the block of `k` bytes between `l` and `r`. -/
inductive Realloced (c : Config) (s : Heap) (l : List Blk) (k : ℕ) (r : List Blk) (size : ℕ) : Option (ℕ × Heap) → Prop
  /-- the block is given back -/
  | free (h : size = 0) : Realloced c s l k r size
      ((rtMemheapFree c s (s.startAddr + total l + c.memheapSize)).map fun s => (rtNull, s))
  /-- the block stays -/
  | same (h : size ≠ 0) (hle : request c size + c.memheapSize ≤ k) :
      Realloced c s l k r size (some (s.startAddr + total l + c.memheapSize, s))
  /-- it is split -/
  | shrink (h : size ≠ 0) (hlt : request c size + 2 * c.memheapSize + minialloc < k) :
      Realloced c s l k r size
        (some (s.startAddr + total l + c.memheapSize, Memheap.shrink c s (s.startAddr + total l) (request c size)))
  /-- it grows into the block behind it -/
  | expand (h : size ≠ 0) (j : ℕ) (r' : List Blk) (hr : r = ⟨false, j⟩ :: r') (hlt : k < request c size + c.memheapSize)
      (hfit : request c size + minialloc < j - c.memheapSize + (k - c.memheapSize))
      (hexp : expands c s (s.startAddr + total l) (k - c.memheapSize) (request c size)) :
      Realloced c s l k r size (some (s.startAddr + total l + c.memheapSize,
        Memheap.expand s (s.startAddr + total l + c.memheapSize) (s.startAddr + total l) (k - c.memheapSize)
          (request c size)))
  /-- it moves -/
  | move (h : size ≠ 0) (hlt : k < request c size + c.memheapSize)
      (hnot : ¬expands c s (s.startAddr + total l) (k - c.memheapSize) (request c size)) :
      Realloced c s l k r size
        (Memheap.move c s (s.startAddr + total l + c.memheapSize) (k - c.memheapSize) (request c size))

/-- **`rt_memheap_realloc`** of a block, where the sum of its test does not wrap. -/
theorem rtMemheapRealloc_ok (hi : HeapInv c s (l ++ ⟨true, k⟩ :: r) fl) (size : ℕ)
    (hkeeps : 2 ^ 32 ≤ request c size + minialloc → isUsed s (s.get (s.startAddr + total l) .next)) :
    Realloced c s l k r size (rtMemheapRealloc c s (s.startAddr + total l + c.memheapSize) size) := by
  have hH := c.memheapSize_bounds.1
  have hmini : minialloc = 12 := rfl
  have hpool := hi.pool_lt
  have hle := hi.pool_le
  have htot := hi.total
  have hk : c.memheapSize ≤ k := hi.holds.pool.size ⟨true, k⟩ (by simp)
  simp only [total_append, total_cons] at htot
  obtain ⟨hheader, hnull⟩ := hi.header
  have hold : memitemSize c s (s.startAddr + total l) = k - c.memheapSize := hi.memitemSize
  have hnext : s.get (s.startAddr + total l) .next = s.startAddr + total l + k := hi.next
  unfold rtMemheapRealloc
  by_cases h0 : size = 0
  · rw [if_pos h0]
    exact .free h0
  rw [if_neg h0]
  simp only [hnull, if_false, hheader, hold]
  by_cases hlt : request c size > k - c.memheapSize
  · rw [if_pos hlt]
    have hguard : (guard (s.get (s.startAddr + total l) .next > s.startAddr + total l) : Option Unit) = some () := by
      rw [hnext]
      exact if_pos (by omega)
    rw [hguard]
    by_cases hexp : expands c s (s.startAddr + total l) (k - c.memheapSize) (request c size)
    · -- the next block is free, and the request does not wrap
      have hmini₂ : request c size + minialloc < 2 ^ 32 := by
        by_contra hwrap
        exact hexp.1 (hkeeps (by omega))
      obtain ⟨j, r', rfl⟩ : ∃ j r', r = ⟨false, j⟩ :: r' := by
        rcases headFree_cases r with ⟨j, r', rfl, -⟩ | ⟨-, hused⟩
        · exact ⟨j, r', rfl⟩
        · exact absurd (hi.holds_mid.next_used.2 hused) hexp.1
      have hi' : HeapInv c s ((l ++ [⟨true, k⟩]) ++ ⟨false, j⟩ :: r') fl := by
        rw [List.append_assoc]
        exact hi
      have hsize := hi'.memitemSize
      simp only [total_append, total_cons, total_nil, Nat.add_zero, ← Nat.add_assoc] at hsize
      have hfit := hexp.2
      simp only [total_cons] at htot
      rw [hnext, hsize, add_eq (by omega), add_eq hmini₂] at hfit
      rw [if_pos hexp]
      exact .expand h0 j r' rfl (by omega) hfit hexp
    · rw [if_neg hexp]
      exact .move h0 (by omega) hexp
  · rw [if_neg hlt, add_eq (a := request c size) (by omega), add_eq (by omega)]
    split
    · exact .same h0 (by omega)
    · exact .shrink h0 (by omega)

/-! ## `rt_memheap_init` -/

/-- Several assignments to the struct at `p`. -/
def setAll (s : Heap) (p : ℕ) (l : List (Field × ℕ)) : Heap := l.foldl (fun s x => s.set p x.1 x.2) s

/-- The last assignment to a member counts. -/
theorem Slots.get_setAll {A : List ℕ} (hA : Slots A) {y p : ℕ} {f : Field} {l : List (Field × ℕ)} (hy : y ∈ A)
    (hp : p ∈ A) (hv : ∀ x ∈ l, x.2 < 2 ^ 32) :
    (setAll s p l).get y f = if y = p then (l.reverse.lookup f).getD (s.get y f) else s.get y f := by
  induction l using List.reverseRecOn with
  | nil =>
    rw [List.reverse_nil, List.lookup_nil, Option.getD_none, ite_self]
    rfl
  | append_singleton l x ih =>
    obtain ⟨g, w⟩ := x
    have hstep : setAll s p (l ++ [(g, w)]) = (setAll s p l).set p g w := by
      unfold setAll
      rw [List.foldl_append]
      rfl
    rw [hstep, hA.get_set hy hp (hv (g, w) (by simp)), ih fun z hz => hv z (by simp [hz]), List.reverse_append]
    by_cases hyp : y = p
    · by_cases hf : f = g
      · simp [hyp, hf]
      · simp [hyp, hf, List.lookup_cons, beq_eq_false_iff_ne.2 hf]
    · simp [hyp]

/-- A pool with one free item. -/
theorem Pool.single {heap a free P : ℕ} {g : View} (h2 : 2 * c.memheapSize ≤ P) (hb : a + P ≤ 2 ^ 32)
    (hapart : free + 24 ≤ a ∨ a + P ≤ free) (hfree : free < 2 ^ 32) (hheap : heap < 2 ^ 32)
    (hga : ∀ f, g a f = match f with
      | .magic => memheapMagic | .poolPtr => heap | .next => a + (P - c.memheapSize)
      | .prev => a + (P - c.memheapSize) | .nextFree => free | .prevFree => free)
    (hgt : ∀ f, g (a + (P - c.memheapSize)) f = match f with
      | .magic => memheapMagic ||| memheapUsed | .poolPtr => heap | .next => a | .prev => a | .nextFree => rtNull
      | .prevFree => rtNull)
    (hnext : g free .nextFree = a) (hprev : g free .prevFree = a) :
    Pool c heap a free g [⟨false, P - c.memheapSize⟩, tailer c] [a] := by
  have hstarts : starts a [⟨false, P - c.memheapSize⟩, tailer c] = [a, a + (P - c.memheapSize)] := rfl
  refine ⟨?_, ?_, ?_, hfree, hheap, ?_, ?_, ?_, ?_, List.nodup_singleton a, ?_⟩
  · intro b hbl
    simp only [List.mem_cons, List.not_mem_nil, or_false] at hbl
    rcases hbl with rfl | rfl
    · show c.memheapSize ≤ P - c.memheapSize
      omega
    · exact Nat.le_refl _
  · simp only [total_cons, total_nil, tailer]
    omega
  · simp only [total_cons, total_nil, tailer]
    omega
  · intro u x k hx
    cases u
    · obtain ⟨rfl, -⟩ : x = a ∧ k = P - c.memheapSize := by simpa [blocksAt, tailer] using hx
      exact hga .magic
    · obtain ⟨rfl, -⟩ : x = a + (P - c.memheapSize) ∧ k = c.memheapSize := by simpa [blocksAt, tailer] using hx
      exact hgt .magic
  · rw [hstarts]
    intro x hx
    simp only [List.mem_cons, List.not_mem_nil, or_false] at hx
    rcases hx with rfl | rfl
    · exact hga .poolPtr
    · exact hgt .poolPtr
  · rw [hstarts]
    exact ⟨⟨hga .next, hgt .prev⟩, hgt .next, hga .prev⟩
  · exact ⟨⟨hnext, hga .prevFree⟩, hga .nextFree, hprev⟩
  · rw [hstarts]
    intro y hy
    rw [List.mem_singleton.1 hy]
    exact List.mem_cons_self

/-- **The heap after `rt_memheap_init`** has one free block. -/
theorem rtMemheapInit_ok {m : Bytes.Mem} {self free a : ℕ} (h2 : 2 * c.memheapSize ≤ c.rtAlignDown size)
    (hb : a + c.rtAlignDown size ≤ 2 ^ 32) (hself : self < 2 ^ 32) (hfree : free < 2 ^ 32)
    (hapart : free + 24 ≤ a ∨ a + c.rtAlignDown size ≤ free) :
    HeapInv c (rtMemheapInit c m self free a size) [⟨false, c.rtAlignDown size - c.memheapSize⟩] [a] := by
  have hH := c.memheapSize_bounds.1
  generalize hP : c.rtAlignDown size = P at h2 hb hapart ⊢
  have hslots : Slots (free :: starts a [⟨false, P - c.memheapSize⟩, tailer c]) := by
    refine slots_of (c := c) (fun b hbl => ?_) ?_ ?_ hfree
    · simp only [List.mem_cons, List.not_mem_nil, or_false] at hbl
      rcases hbl with rfl | rfl
      · show c.memheapSize ≤ P - c.memheapSize
        omega
      · exact Nat.le_refl _
    · simp only [total_cons, total_nil, tailer]
      omega
    · simp only [total_cons, total_nil, tailer]
      omega
  have hstarts : starts a [⟨false, P - c.memheapSize⟩, tailer c] = [a, a + (P - c.memheapSize)] := rfl
  rw [hstarts] at hslots
  generalize ht : a + (P - c.memheapSize) = t at hslots hstarts
  have hfA : free ∈ [free, a, t] := by simp
  have haA : a ∈ [free, a, t] := by simp
  have htA : t ∈ [free, a, t] := by simp
  have hfa : free ≠ a := by omega
  have hft : free ≠ t := by omega
  have hat : a ≠ t := by omega
  have hmagic : memheapMagic < 2 ^ 32 := by decide
  have hused : memheapMagic ||| memheapUsed < 2 ^ 32 := by decide
  have hnull : rtNull < 2 ^ 32 := by decide
  have ha := hslots.lt a haA
  have htlt := hslots.lt t htA
  have havail : sub P (2 * c.memheapSize) = P - 2 * c.memheapSize := sub_eq (by omega) h2
  have hitem : add (add a (P - 2 * c.memheapSize)) c.memheapSize = t := by
    rw [add_eq (a := a) (by omega), add_eq (by omega)]
    omega
  -- the states of the function
  obtain ⟨s₀, hs₀⟩ : ∃ s₀ : Heap, s₀ = ⟨m, self, free, a, P, P - 2 * c.memheapSize, sub P (P - 2 * c.memheapSize), a, free⟩ :=
    ⟨_, rfl⟩
  obtain ⟨s₁, hs₁⟩ : ∃ s₁, s₁ = setAll s₀ free [(.magic, memheapMagic), (.poolPtr, self), (.next, rtNull), (.prev, rtNull),
    (.nextFree, free), (.prevFree, free)] := ⟨_, rfl⟩
  obtain ⟨s₂, hs₂⟩ : ∃ s₂, s₂ = setAll s₁ a [(.magic, memheapMagic), (.poolPtr, self), (.next, rtNull), (.prev, rtNull),
    (.nextFree, a), (.prevFree, a), (.next, t)] := ⟨_, rfl⟩
  obtain ⟨s₃, hs₃⟩ : ∃ s₃, s₃ = s₂.set a .prev t := ⟨_, rfl⟩
  obtain ⟨s₄, hs₄⟩ : ∃ s₄, s₄ = insertFree s₃ a := ⟨_, rfl⟩
  obtain ⟨s₅, hs₅⟩ : ∃ s₅, s₅ = setAll s₄ t [(.magic, memheapMagic ||| memheapUsed), (.poolPtr, self), (.next, a),
    (.prev, a), (.prevFree, rtNull), (.nextFree, rtNull)] := ⟨_, rfl⟩
  have hnil : ∀ x ∈ ([] : List (Field × ℕ)), x.2 < 2 ^ 32 := fun x hx => by cases hx
  -- what each of them changes
  have hget₁ := fun (y : ℕ) (hy : y ∈ [free, a, t]) f => hslots.get_setAll (s := s₀) (f := f) hy hfA
    (List.forall_mem_cons.2 ⟨hmagic, List.forall_mem_cons.2 ⟨hself, List.forall_mem_cons.2 ⟨hnull,
      List.forall_mem_cons.2 ⟨hnull, List.forall_mem_cons.2 ⟨hfree, List.forall_mem_cons.2 ⟨hfree, hnil⟩⟩⟩⟩⟩⟩ :
        ∀ x ∈ [(Field.magic, memheapMagic), (.poolPtr, self), (.next, rtNull), (.prev, rtNull), (.nextFree, free),
          (.prevFree, free)], x.2 < 2 ^ 32)
  have hget₂ := fun (y : ℕ) (hy : y ∈ [free, a, t]) f => hslots.get_setAll (s := s₁) (f := f) hy haA
    (List.forall_mem_cons.2 ⟨hmagic, List.forall_mem_cons.2 ⟨hself, List.forall_mem_cons.2 ⟨hnull,
      List.forall_mem_cons.2 ⟨hnull, List.forall_mem_cons.2 ⟨ha, List.forall_mem_cons.2 ⟨ha,
        List.forall_mem_cons.2 ⟨htlt, hnil⟩⟩⟩⟩⟩⟩⟩ :
        ∀ x ∈ [(Field.magic, memheapMagic), (.poolPtr, self), (.next, rtNull), (.prev, rtNull), (.nextFree, a),
          (.prevFree, a), (.next, t)], x.2 < 2 ^ 32)
  have hget₅ := fun (y : ℕ) (hy : y ∈ [free, a, t]) f => hslots.get_setAll (s := s₄) (f := f) hy htA
    (List.forall_mem_cons.2 ⟨hused, List.forall_mem_cons.2 ⟨hself, List.forall_mem_cons.2 ⟨ha,
      List.forall_mem_cons.2 ⟨ha, List.forall_mem_cons.2 ⟨hnull, List.forall_mem_cons.2 ⟨hnull, hnil⟩⟩⟩⟩⟩⟩ :
        ∀ x ∈ [(Field.magic, memheapMagic ||| memheapUsed), (.poolPtr, self), (.next, a), (.prev, a), (.prevFree, rtNull),
          (.nextFree, rtNull)], x.2 < 2 ^ 32)
  rw [← hs₁] at hget₁
  rw [← hs₂] at hget₂
  rw [← hs₅] at hget₅
  have hget₃ : ∀ y ∈ [free, a, t], ∀ f, s₃.get y f = if y = a ∧ f = .prev then t else s₂.get y f := by
    intro y hy f
    rw [hs₃]
    exact hslots.get_set hy haA htlt
  have hlist₃ : s₃.freeList = free := by
    rw [hs₃, hs₂, hs₁, hs₀]
    rfl
  have hfirst : s₃.get s₃.freeList .nextFree = free := by
    rw [hlist₃, hget₃ free hfA, if_neg (fun h => hfa h.1), hget₂ free hfA, if_neg hfa, hget₁ free hfA, if_pos rfl]
    rfl
  have hget₄ : ∀ y ∈ [free, a, t], ∀ f, s₄.get y f = inserted free a s₃.get y f := by
    intro y hy f
    rw [hs₄, insertFree_get hslots haA (by rw [hlist₃]; exact hfA) (by rw [hfirst]; exact hfA) (by rw [hlist₃]; exact hfa.symm)
      hy, hlist₃]
  have hnext₂ : s₂.get a .next = t := by
    rw [hget₂ a haA, if_pos rfl]
    rfl
  have hnext₄ : s₄.get a .next = t := by
    rw [hget₄ a haA]
    simp only [inserted, reduceCtorEq, and_false, if_false]
    rw [hget₃ a haA, if_neg (fun h => by cases h.2)]
    exact hnext₂
  have hinit : rtMemheapInit c m self free a size = s₅ := by
    have hunfold : rtMemheapInit c m self free a size =
        (let s₁ := setAll ⟨m, self, free, a, c.rtAlignDown size, sub (c.rtAlignDown size) (2 * c.memheapSize),
            sub (c.rtAlignDown size) (sub (c.rtAlignDown size) (2 * c.memheapSize)), a, free⟩ free
          [(.magic, memheapMagic), (.poolPtr, self), (.next, rtNull), (.prev, rtNull), (.nextFree, free), (.prevFree, free)]
        let s₂ := setAll s₁ a [(.magic, memheapMagic), (.poolPtr, self), (.next, rtNull), (.prev, rtNull), (.nextFree, a),
          (.prevFree, a), (.next, add (add a (sub (c.rtAlignDown size) (2 * c.memheapSize))) c.memheapSize)]
        let s₄ := insertFree (s₂.set a .prev (s₂.get a .next)) a
        setAll s₄ (s₄.get a .next) [(.magic, memheapMagic ||| memheapUsed), (.poolPtr, self), (.next, a), (.prev, a),
          (.prevFree, rtNull), (.nextFree, rtNull)]) := rfl
    rw [hunfold, hP, havail, hitem]
    dsimp only
    rw [← hs₀, ← hs₁, ← hs₂, hnext₂, ← hs₃, ← hs₄, hnext₄, ← hs₅]
  -- the members of the two items and of the header
  have hnf : s₃.get free .nextFree = free := by
    rw [hlist₃] at hfirst
    exact hfirst
  have hga : ∀ f, s₅.get a f = match f with
      | .magic => memheapMagic | .poolPtr => self | .next => t | .prev => t | .nextFree => free | .prevFree => free := by
    intro f
    rw [hget₅ a haA, if_neg hat, hget₄ a haA]
    cases f
    case nextFree =>
      simp only [inserted, hnf, hfa.symm, false_and, reduceCtorEq, and_false, and_self, if_false, if_true]
    case prevFree => simp only [inserted, hnf, hfa.symm, false_and, reduceCtorEq, and_false, and_self, if_false, if_true]
    case prev => simp only [inserted, reduceCtorEq, and_false, and_self, if_false, hget₃ a haA, if_true]
    all_goals
      simp only [inserted, reduceCtorEq, and_false, if_false, hget₃ a haA, hget₂ a haA, if_true]
      rfl
  have hgt : ∀ f, s₅.get t f = match f with
      | .magic => memheapMagic ||| memheapUsed | .poolPtr => self | .next => a | .prev => a | .nextFree => rtNull
      | .prevFree => rtNull := by
    intro f
    rw [hget₅ t htA, if_pos rfl]
    cases f <;> rfl
  have hgf : s₅.get free .nextFree = a ∧ s₅.get free .prevFree = a := by
    rw [hget₅ free hfA, if_neg hft, hget₅ free hfA, if_neg hft, hget₄ free hfA, hget₄ free hfA]
    simp only [inserted, hnf, reduceCtorEq, and_false, and_self, if_false, if_true]
  have hstart : s₅.startAddr = a := by rw [hs₅, hs₄, hs₃, hs₂, hs₁, hs₀]; rfl
  have hsize : s₅.poolSize = P := by rw [hs₅, hs₄, hs₃, hs₂, hs₁, hs₀]; rfl
  have hlist : s₅.freeList = free := by rw [hs₅, hs₄, hs₃, hs₂, hs₁, hs₀]; rfl
  rw [hinit]
  refine ⟨⟨.refl _, ?_⟩, ?_, ?_, ?_, ?_, ?_⟩
  · rw [hstart, hlist]
    have hself' : s₅.self = self := by rw [hs₅, hs₄, hs₃, hs₂, hs₁, hs₀]; rfl
    rw [hself']
    subst ht
    exact Pool.single h2 hb hapart hfree hself hga hgt hgf.1 hgf.2
  · rw [hsize]
    simp only [total_cons, total_nil]
    omega
  · rw [hstart]
    exact .refl _
  · exact List.isChain_singleton _
  · rw [show s₅.availableSize = P - 2 * c.memheapSize by rw [hs₅, hs₄, hs₃, hs₂, hs₁, hs₀]; rfl]
    simp only [freeRoom, Bool.false_eq_true, if_false]
    omega
  · rw [hstart, hs₅, hs₄, hs₃, hs₂, hs₁, hs₀]
    rfl

end RtThread.Memheap
