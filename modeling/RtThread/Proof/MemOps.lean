import RtThread.Proof.MemShape

/-!
# The allocator's functions on layouts

Each function of `mem.c` on a heap with layout `l ++ b :: r`, with `b` the block
it works on, does what the layout operation does.

* `plugHoles_ok`: `plug_holes` is `Layout.plug`.
* `carve_ok`: the body of `rt_malloc` is `Layout.cut`.
* `shrink_ok`: the in-place branch of `rt_realloc` splits, then plugs.
* `searchFit_ok`, `nextFree_ok`: the two searches, from any header of the heap.

The bytes of used blocks behind their headers (`InUse`) are never written.
-/

namespace RtThread.Mem

open Bytes Layout

variable {c : Config}

/-- The heap `s` has layout `bs`. -/
structure Holds (c : Config) (s : Heap) (bs : List Blk) : Prop where
  shape : Shape c s.mem s.heapPtr s.memSizeAligned bs
  heapEnd : s.heapEnd = s.heapPtr + (s.memSizeAligned + c.sizeofStructMem)

/-- Address `i` lies in the user area of a used block of the layout `bs` at offset `a`. -/
def InUse (c : Config) (h a : ℕ) (bs : List Blk) (i : ℕ) : Prop :=
  ∃ o k, (o, k) ∈ blocksAt true a bs ∧ h + o + c.sizeofStructMem ≤ i ∧ i < h + o + k

theorem inUse_append {h a i : ℕ} {l r : List Blk} :
    InUse c h a (l ++ r) i ↔ InUse c h a l i ∨ InUse c h (a + total l) r i := by
  unfold InUse
  simp only [blocksAt_append, List.mem_append]
  constructor
  · rintro ⟨o, k, h1 | h1, h2⟩
    · exact .inl ⟨o, k, h1, h2⟩
    · exact .inr ⟨o, k, h1, h2⟩
  · rintro (⟨o, k, h1, h2⟩ | ⟨o, k, h1, h2⟩)
    · exact ⟨o, k, .inl h1, h2⟩
    · exact ⟨o, k, .inr h1, h2⟩

theorem inUse_bounds {h a i : ℕ} {bs : List Blk} (hi : InUse c h a bs i) :
    h + a + c.sizeofStructMem ≤ i ∧ i < h + a + total bs := by
  obtain ⟨o, k, h1, h2, h3⟩ := hi
  have := (blocksAt_sorted true a bs).2 _ h1
  simp only at this
  omega

theorem not_inUse_free {h a i k : ℕ} : ¬ InUse c h a [⟨false, k⟩] i := by
  rintro ⟨o, j, h1, -⟩
  simp [blocksAt] at h1

/-- In front of a block in use, or behind an unused one and the header after it. -/
theorem inUse_around {h i k : ℕ} {l r : List Blk} (hi : InUse c h 0 (l ++ ⟨false, k⟩ :: r) i) :
    i < h + total l ∨ h + total l + k + c.sizeofStructMem ≤ i := by
  rw [show l ++ ⟨false, k⟩ :: r = l ++ ([⟨false, k⟩] ++ r) by simp, inUse_append, inUse_append] at hi
  rcases hi with hi | hi | hi
  · have := inUse_bounds hi; omega
  · exact absurd hi not_inUse_free
  · have := inUse_bounds hi
    simp only [total_cons, total_nil] at this
    omega

/-! ## `plug_holes` -/

theorem plugForward_ok {s : Heap} {l r : List Blk} {k : ℕ}
    (hs : Holds c s (l ++ ⟨false, k⟩ :: r)) :
    ∃ m', plugForward c s (s.heapPtr + total l) = { s with
        mem := m'
        lfree := if r.head?.map Blk.used = some false ∧ s.lfree = s.heapPtr + (total l + k)
          then s.heapPtr + total l else s.lfree } ∧
      Shape c m' s.heapPtr s.memSizeAligned (l ++ ⟨false, k + (headFree r).1⟩ :: (headFree r).2) ∧
      ∀ i, InUse c s.heapPtr 0 (l ++ ⟨false, k⟩ :: r) i → m' i = s.mem i := by
  have hsh := hs.shape
  have hh := hsh.hdr
  have hb := hsh.size_cons
  have hpos := c.sizeof_pos
  have hbeh := Shape.behind (l := l ++ [⟨false, k⟩]) (r := r) (by simpa using hsh)
  simp only [total_append, total_cons, total_nil, Nat.add_zero] at hbeh
  have ht := hsh.total_eq
  simp only at hb ht
  unfold plugForward
  simp only [Heap.ref, Heap.get, hh.next]
  rcases headFree_cases r with ⟨k₂, r', rfl, hr⟩ | ⟨hr, hused⟩
  · -- the next block is unused
    have hb2 := hsh.size ⟨false, k₂⟩ (by simp)
    simp only [total_cons] at hb2 ht
    simp only [List.head?_cons, Option.map_some, Option.getD_some, Bool.toNat_false] at hbeh
    have hmem : get c (Mem.set c s.mem (s.heapPtr + total l) .next (total l + (k + k₂)))
        (s.heapPtr + (total l + k)) .next = total l + (k + k₂) := by
      rw [get_set_disj (by omega), hbeh.2.2, Nat.add_assoc]
    have hne : s.heapPtr + total l ≠ s.heapPtr + (total l + k) := by omega
    rw [if_pos ⟨hne, hbeh.2.1, by have := hs.heapEnd; omega⟩]
    refine ⟨_, ?_, by rw [hr]; exact hsh.join, fun i hi => ?_⟩
    · have hsub : s.heapPtr + total l - s.heapPtr = total l := by omega
      by_cases hl : s.lfree = s.heapPtr + (total l + k)
      · simp only [hl, if_true, List.head?_cons, Option.map_some, and_self]
        simp only [Heap.set, hbeh.2.2, Nat.add_assoc, hmem, hsub]
      · simp only [hl, if_false, and_false]
        simp only [Heap.set, hbeh.2.2, Nat.add_assoc, hmem, hsub]
    · have h1 := inUse_around hi
      have h2 := inUse_around (l := l ++ [⟨false, k⟩]) (k := k₂) (r := r') (by simpa using hi)
      simp only [total_append, total_cons, total_nil] at h2
      rw [set_out (by omega), set_out (by omega)]
  · -- the next block is used, or `heap_end`
    have hu : ((r.head?.map Blk.used).getD true).toNat = 1 := by
      rcases r with _ | ⟨y, r⟩
      · rfl
      · simp [hused y (by simp)]
    rw [if_neg (by rw [hbeh.2.1, hu]; simp), hr]
    refine ⟨s.mem, ?_, by simpa using hsh, fun _ _ => rfl⟩
    have hne : ¬(r.head?.map Blk.used = some false ∧ s.lfree = s.heapPtr + (total l + k)) := by
      rcases r with _ | ⟨y, r⟩
      · simp
      · simp [hused y (by simp)]
    rw [if_neg hne]

theorem plugBackward_ok {s : Heap} {l r : List Blk} {k : ℕ}
    (hs : Holds c s (l ++ ⟨false, k⟩ :: r)) :
    ∃ m', plugBackward c s (s.heapPtr + total l) = { s with
        mem := m'
        lfree := if s.lfree = s.heapPtr + total l then s.heapPtr + total (lastFree l).2
          else s.lfree } ∧
      Shape c m' s.heapPtr s.memSizeAligned ((lastFree l).2 ++ ⟨false, (lastFree l).1 + k⟩ :: r) ∧
      ∀ i, InUse c s.heapPtr 0 (l ++ ⟨false, k⟩ :: r) i → m' i = s.mem i := by
  have hsh := hs.shape
  have hh := hsh.hdr
  have hb := hsh.size_cons
  have hpos := c.sizeof_pos
  have ht := hsh.total_eq
  simp only at hb ht
  unfold plugBackward
  simp only [Heap.ref, Heap.get, hh.prev]
  rcases lastFree_cases l with ⟨k₁, l', rfl, hl⟩ | ⟨hl, hused⟩
  · -- the previous block is unused
    rw [hl]
    simp only [lastOff_concat, Nat.zero_add, total_append, total_cons, total_nil, Nat.add_zero] at hh ht ⊢
    have hsh' : Shape c s.mem s.heapPtr s.memSizeAligned (l' ++ ⟨false, k₁⟩ :: ⟨false, k⟩ :: r) := by
      simpa using hsh
    have hh1 := hsh'.hdr
    have hb1 := hsh'.size_cons
    simp only at hb1
    have hnext : get c s.mem (s.heapPtr + (total l' + k₁)) .next = total l' + (k₁ + k) := by
      rw [hh.next]; simp only; omega
    have hmem : get c (Mem.set c s.mem (s.heapPtr + total l') .next (total l' + (k₁ + k)))
        (s.heapPtr + (total l' + k₁)) .next = total l' + (k₁ + k) := by
      rw [get_set_disj (by omega), hnext]
    rw [if_pos ⟨by omega, hh1.used⟩]
    refine ⟨_, ?_, hsh'.join, fun i hi => ?_⟩
    · have hsub : s.heapPtr + total l' - s.heapPtr = total l' := by omega
      by_cases hlf : s.lfree = s.heapPtr + (total l' + k₁)
      · simp only [hlf, if_true]
        simp only [Heap.set, hnext, hmem, hsub]
      · simp only [hlf, if_false]
        simp only [Heap.set, hnext, hmem, hsub]
    · have h1 := inUse_around hi
      have h2 := inUse_around (l := l') (k := k₁) (r := ⟨false, k⟩ :: r) (by simpa using hi)
      simp only [total_append, total_cons, total_nil] at h1
      rw [set_out (by omega), set_out (by omega)]
  · -- the previous block is used, or there is none
    rw [hl, Nat.zero_add]
    refine ⟨s.mem, ?_, by simpa using hsh, fun _ _ => rfl⟩
    have hlf : (if s.lfree = s.heapPtr + total l then s.heapPtr + total l else s.lfree) = s.lfree := by
      split
      · rename_i h; exact h.symm
      · rfl
    rw [hlf, if_neg]
    rcases List.eq_nil_or_concat l with rfl | ⟨l', b, rfl⟩
    · simp
    · rw [List.concat_eq_append] at hsh hused ⊢
      have hh1 := Shape.hdr (l := l') (b := b) (r := ⟨false, k⟩ :: r) (by simpa using hsh)
      rw [lastOff_concat, Nat.zero_add, hh1.used, hused b (by simp)]
      simp

/-- **`plug_holes` joins** the block with its unused neighbours. -/
theorem plugHoles_ok {s : Heap} {l r : List Blk} {k : ℕ} (hs : Holds c s (l ++ ⟨false, k⟩ :: r)) :
    ∃ m', plugHoles c s (s.heapPtr + total l) = some { s with
        mem := m'
        lfree := if s.lfree = s.heapPtr + total l ∨
            (r.head?.map Blk.used = some false ∧ s.lfree = s.heapPtr + (total l + k))
          then s.heapPtr + total (lastFree l).2 else s.lfree } ∧
      Shape c m' s.heapPtr s.memSizeAligned (plug l k r) ∧
      ∀ i, InUse c s.heapPtr 0 (l ++ ⟨false, k⟩ :: r) i → m' i = s.mem i := by
  have hsh := hs.shape
  have ht := hsh.total_eq
  have hb := hsh.size_cons
  have hpos := c.sizeof_pos
  simp only at hb ht
  obtain ⟨m₁, h1, hsh1, hf1⟩ := plugForward_ok hs
  obtain ⟨m₂, h2, hsh2, hf2⟩ := plugBackward_ok (c := c) (s := plugForward c s (s.heapPtr + total l))
    (l := l) (r := (headFree r).2) (k := k + (headFree r).1) ⟨by rw [h1]; exact hsh1, by rw [h1]; exact hs.heapEnd⟩
  refine ⟨m₂, ?_, ?_, fun i hi => ?_⟩
  · have hg : s.get c (s.heapPtr + total l) .used = 0 := hsh.hdr.used
    unfold plugHoles
    simp only [guard, Nat.le_add_right, if_true, hg, show s.heapPtr + total l < s.heapEnd by
      have := hs.heapEnd; omega]
    have hp : (plugForward c s (s.heapPtr + total l)).heapPtr = s.heapPtr := by rw [h1]
    rw [hp] at h2
    simp only [Option.pure_def, Option.bind_eq_bind, Option.bind_some, h2]
    rw [h1]
    simp only [Option.some.injEq, Heap.mk.injEq, true_and, and_true]
    by_cases hA : s.lfree = s.heapPtr + total l
    · simp [hA]
    · by_cases hB : r.head?.map Blk.used = some false ∧ s.lfree = s.heapPtr + (total l + k)
      · simp only [hB, and_self, or_true, if_true]
      · rw [if_neg hB, if_neg hA, if_neg (by tauto)]
  · rw [h1] at hsh2
    unfold plug
    rwa [Nat.add_assoc]
  · rw [h1] at hf2
    refine (hf2 i ?_).trans (hf1 i hi)
    -- the used blocks are those of the joined layout
    obtain ⟨o, j, h3, h4⟩ := hi
    refine ⟨o, j, ?_, h4⟩
    rcases headFree_cases r with ⟨k₂, r', rfl, hr⟩ | ⟨hr, -⟩
    · rw [hr]
      simpa [blocksAt_append, blocksAt, Nat.add_assoc] using h3
    · rw [hr]
      simpa [blocksAt_append, blocksAt] using h3

/-! ## Splitting -/

/-- **The body of `rt_malloc` cuts** the block it takes. -/
theorem carve_ok {s : Heap} {l r : List Blk} {k size : ℕ} (hs : Holds c s (l ++ ⟨false, k⟩ :: r))
    (hk : c.sizeofStructMem + size ≤ k) (hd : c.alignSize ∣ size) :
    ∃ m', carve c s size (total l) = { s with
        mem := m'
        usedMem := s.usedMem + taken (2 * c.sizeofStructMem) (c.sizeofStructMem + size) k
        maxMem := max s.maxMem
          (s.usedMem + taken (2 * c.sizeofStructMem) (c.sizeofStructMem + size) k) } ∧
      Shape c m' s.heapPtr s.memSizeAligned
        (l ++ cut (2 * c.sizeofStructMem) (c.sizeofStructMem + size) k ++ r) ∧
      ∀ i, InUse c s.heapPtr 0 (l ++ ⟨false, k⟩ :: r) i → m' i = s.mem i := by
  have hsh := hs.shape
  have hh := hsh.hdr
  have hb := hsh.size_cons
  have ht := hsh.total_eq
  have hbd := hsh.bound
  simp only at hb ht
  have hsub : c.sub (total l + k) (total l + c.sizeofStructMem) = k - c.sizeofStructMem := by
    rw [Config.sub_eq (by omega) (by omega)]; omega
  unfold carve
  simp only [Heap.ref, Heap.get, hh.next, hsub, Config.minSizeAligned_eq]
  by_cases hsp : c.sizeofStructMem + size + 2 * c.sizeofStructMem ≤ k
  · -- split
    rw [if_pos (by omega)]
    have h1 : c.sizeofStructMem ≤ c.sizeofStructMem + size := by omega
    have h2 : c.sizeofStructMem + size + c.sizeofStructMem ≤ k := by omega
    have hhdr := (newMem2Mem_hdrs hsh h1 h2).2.next
    have hsplit := (hsh.split h1 h2 (Nat.dvd_add Config.dvd_sizeof hd)).setUsed true
    refine ⟨_, ?_, by simpa [cut, hsp] using hsplit, fun i hi => ?_⟩
    · have htk : taken (2 * c.sizeofStructMem) (c.sizeofStructMem + size) k =
          c.sizeofStructMem + size := if_pos hsp
      rw [newMem2_eq, linkBack_eq, htk]
      simp only [Heap.account, Heap.set, Nat.add_assoc, Nat.add_comm size]
      rw [linkBackMem_setUsed (by omega) (by rw [hhdr]; simp only; omega)]
    · have := inUse_around hi
      rw [set_out (by omega), linkBackMem_out hsh h1 h2 (by omega), newMem2Mem_out h1 h2 (by omega)]
  · -- take it whole
    rw [if_neg (by omega)]
    have hnx : get c (Mem.set c s.mem (s.heapPtr + total l) .used 1) (s.heapPtr + total l) .next =
        total l + k := (get_set_ne (by decide)).trans hh.next
    have htk : c.sub (total l + k) (s.heapPtr + total l - s.heapPtr) = k := by
      rw [Config.sub_eq (by omega) (by omega)]; omega
    refine ⟨_, ?_, by simpa [cut, hsp] using hsh.setUsed true, fun i hi => ?_⟩
    · simp only [taken, if_neg hsp, Heap.account, Heap.set, hnx, htk]
    · have := inUse_around hi
      exact set_out (by omega)

/-- **The in-place branch of `rt_realloc`** splits the block, then plugs the rest. -/
theorem shrink_ok {s : Heap} {l r : List Blk} {k newsize : ℕ}
    (hs : Holds c s (l ++ ⟨true, k⟩ :: r))
    (hk : c.sizeofStructMem + newsize + c.sizeofStructMem ≤ k) (hd : c.alignSize ∣ newsize) :
    ∃ m', shrink c s (total l) (k - c.sizeofStructMem) newsize = some { s with
        mem := m'
        usedMem := c.sub s.usedMem (k - c.sizeofStructMem - newsize)
        lfree := if s.lfree = s.heapPtr + (total l + (c.sizeofStructMem + newsize)) ∨
            (r.head?.map Blk.used = some false ∧ s.lfree = s.heapPtr + (total l + k))
          then s.heapPtr + (total l + (c.sizeofStructMem + newsize)) else s.lfree } ∧
      Shape c m' s.heapPtr s.memSizeAligned (plug (l ++ [⟨true, c.sizeofStructMem + newsize⟩])
        (k - (c.sizeofStructMem + newsize)) r) ∧
      ∀ i, InUse c s.heapPtr 0 (l ++ ⟨true, c.sizeofStructMem + newsize⟩ ::
        ⟨false, k - (c.sizeofStructMem + newsize)⟩ :: r) i → m' i = s.mem i := by
  have hsh := hs.shape
  have hb := hsh.size_cons
  have ht := hsh.total_eq
  simp only at hb ht
  have h1 : c.sizeofStructMem ≤ c.sizeofStructMem + newsize := by omega
  have hsplit := hsh.split h1 hk (Nat.dvd_add Config.dvd_sizeof hd)
  set n := c.sizeofStructMem + newsize with hn
  have hlist : l ++ ⟨true, n⟩ :: ⟨false, k - n⟩ :: r = (l ++ [⟨true, n⟩]) ++ ⟨false, k - n⟩ :: r := by
    simp
  rw [hlist] at hsplit
  obtain ⟨m', h2, h3, h4⟩ := plugHoles_ok (c := c) (l := l ++ [⟨true, n⟩]) (r := r) (k := k - n)
    (s := { s with
      mem := linkBackMem c (newMem2Mem c s.mem s.heapPtr (total l) (total l + n)) s.heapPtr
        (total l + n) (s.memSizeAligned + c.sizeofStructMem)
      usedMem := c.sub s.usedMem (k - c.sizeofStructMem - newsize) }) ⟨hsplit, hs.heapEnd⟩
  have hlast : lastFree (l ++ [⟨true, n⟩]) = (0, l ++ [⟨true, n⟩]) := by simp [lastFree, headFree]
  refine ⟨m', ?_, h3, fun i hi => ?_⟩
  · have he : total l + c.sizeofStructMem + newsize = total l + n := by omega
    have he2 : total l + n + (k - n) = total l + k := by omega
    simp only [total_append, total_cons, total_nil, Nat.add_zero, hlast, he2] at h2
    unfold shrink
    simp only [newMem2_eq, linkBack_eq, Heap.ref, he]
    exact h2
  · have h5 := h4 i (by rwa [← hlist])
    -- outside the new header, which lies in the unused rest
    have h6 := inUse_around (l := l ++ [⟨true, n⟩]) (r := r) (k := k - n) (by rwa [← hlist])
    rw [hlist, inUse_append, inUse_append] at hi
    have h7 : i < s.heapPtr + total l ∨ s.heapPtr + (total l) + c.sizeofStructMem ≤ i := by
      rcases hi with (hi | hi) | hi
      · have := inUse_bounds hi
        omega
      · have := inUse_bounds hi
        simp only [total_cons, total_nil] at this
        omega
      · have := inUse_bounds hi
        simp only [total_append, total_cons, total_nil] at this
        omega
    simp only [total_append, total_cons, total_nil] at h6
    refine h5.trans ((linkBackMem_out hsh h1 hk (by omega)).trans ?_)
    unfold newMem2Mem
    rw [set_out (by omega), set_out (by omega), set_out (by omega), set_out (by omega),
      set_out (by omega)]

/-! ## The searches -/

theorem length_le {s : Heap} {bs : List Blk} (hs : Holds c s bs) : bs.length < s.fuel := by
  have hpos := c.sizeof_pos
  have key : ∀ l : List Blk, (∀ b ∈ l, c.sizeofStructMem ≤ b.size) →
      l.length * c.sizeofStructMem ≤ total l := by
    intro l
    induction l with
    | nil => intro _; simp
    | cons b l ih =>
      intro h
      have h1 := h b List.mem_cons_self
      have h2 := ih fun x hx => h x (List.mem_cons_of_mem _ hx)
      rw [List.length_cons, total_cons, Nat.add_mul]
      omega
  have h1 := key bs fun b hb => (hs.shape.size b hb).1
  rw [hs.shape.total] at h1
  have h2 : bs.length * c.sizeofStructMem < s.fuel * c.sizeofStructMem := by
    unfold Heap.fuel; nlinarith
  exact Nat.lt_of_mul_lt_mul_right h2

/-- **A block the search returns** is unused and large enough. -/
theorem searchFit_ok {s : Heap} {size : ℕ} :
    ∀ fuel (l r : List Blk) (ptr : ℕ), Holds c s (l ++ r) →
      searchFit c s size fuel (total l) = some (some ptr) →
      ∃ l₂ k r₂, r = l₂ ++ ⟨false, k⟩ :: r₂ ∧ ptr = total l + total l₂ ∧
        c.sizeofStructMem + size ≤ k := by
  intro fuel
  induction fuel with
  | zero => intro l r ptr _ h; simp [searchFit] at h
  | succ fuel ih =>
    intro l r ptr hs h
    have hbd := hs.shape.bound
    unfold searchFit at h
    split at h
    swap
    · simp at h
    rcases r with _ | ⟨⟨u, k⟩, r⟩
    · -- at `heap_end`, which is used and its own successor
      have hbeh := hs.shape.behind
      simp only [List.head?_nil, Option.map_none, Option.getD_none, Bool.toNat_true, Nat.add_zero] at hbeh
      simp only [Heap.get, Heap.ref, hbeh.2.1, hbeh.2.2, Nat.one_ne_zero, false_and, if_false] at h
      exact ih l [] ptr hs h
    · have hh := hs.shape.hdr
      have hb := hs.shape.size_cons
      have ht := hs.shape.total_eq
      simp only at hb ht
      have hsub : c.sub (total l + k) (total l + c.sizeofStructMem) = k - c.sizeofStructMem := by
        rw [Config.sub_eq (by omega) (by omega)]; omega
      have hskip : searchFit c s size fuel (total l + k) = some (some ptr) →
          ∃ l₂ k' r₂, ⟨u, k⟩ :: r = l₂ ++ ⟨false, k'⟩ :: r₂ ∧ ptr = total l + total l₂ ∧
            c.sizeofStructMem + size ≤ k' := by
        intro h
        obtain ⟨l₂, k', r₂, rfl, h2, h3⟩ := ih (l ++ [⟨u, k⟩]) r ptr (by simpa using hs)
          (by simpa using h)
        simp only [total_append, total_cons, total_nil] at h2
        exact ⟨⟨u, k⟩ :: l₂, k', r₂, rfl, by rw [total_cons]; simp only; omega, h3⟩
      simp only [Heap.get, Heap.ref, hh.used, hh.next, hsub] at h
      split at h
      · rename_i hfit
        simp only [Option.some.injEq] at h
        refine ⟨[], k, r, ?_, by simp [h], by omega⟩
        cases u <;> simp_all
      · exact hskip h

/-- The search ends if the request is no longer than the heap. -/
theorem searchFit_ends {s : Heap} {size : ℕ} (hsize : size ≤ s.memSizeAligned) :
    ∀ fuel (l r : List Blk), Holds c s (l ++ r) → r.length < fuel →
      searchFit c s size fuel (total l) ≠ none := by
  intro fuel
  induction fuel with
  | zero => intro l r _ h; omega
  | succ fuel ih =>
    intro l r hs hlen
    have hbd := hs.shape.bound
    have htot := hs.shape.total
    have hpos := c.sizeof_pos
    unfold searchFit
    rw [Config.sub_eq (by omega) hsize]
    rcases r with _ | ⟨⟨u, k⟩, r⟩
    · rw [List.append_nil] at htot
      rw [if_neg (by omega)]; simp
    · have hh := hs.shape.hdr
      have hrec := ih (l ++ [⟨u, k⟩]) r (by simpa using hs) (by simpa using hlen)
      simp only [total_append, total_cons, total_nil, Nat.add_zero] at hrec
      simp only [Heap.get, Heap.ref, hh.next]
      split_ifs <;> simp [hrec]

/-- **The scan for the next unused block**, from any header. -/
theorem nextFree_ok {s : Heap} :
    ∀ fuel (l r : List Blk), Holds c s (l ++ r) → r.length < fuel →
      nextFree c s fuel (s.heapPtr + total l) = some (s.heapPtr + lowest (total l) r) := by
  intro fuel
  induction fuel with
  | zero => intro l r _ h; omega
  | succ fuel ih =>
    intro l r hs hlen
    have htot := hs.shape.total
    unfold nextFree
    rcases r with _ | ⟨⟨u, k⟩, r⟩
    · rw [List.append_nil] at htot
      rw [if_neg (by rw [hs.heapEnd, htot]; simp)]
      rfl
    · have hh := hs.shape.hdr
      have hb := hs.shape.size_cons
      have ht := hs.shape.total_eq
      have hpos := c.sizeof_pos
      have hrec := ih (l ++ [⟨u, k⟩]) r (by simpa using hs) (by simpa using hlen)
      simp only [total_append, total_cons, total_nil, Nat.add_zero] at hrec hb ht
      simp only [Heap.get, Heap.ref, hh.next, hh.used, lowest]
      cases u
      · simp
      · simp only [Bool.toNat_true, if_true]
        rw [if_pos ⟨by omega, by have := hs.heapEnd; omega⟩]
        exact hrec

end RtThread.Mem
