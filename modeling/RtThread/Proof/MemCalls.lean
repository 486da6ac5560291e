import RtThread.Proof.MemOps

/-!
# The allocator's calls on a well-formed heap

`HeapInv c s bs`: the heap `s` has layout `bs`, no two neighbours are unused, used
blocks have room for data, and `lfree` points to an unused block or to `heap_end`.

* `rtMalloc_ok`, `Took.inv`: `rt_malloc` fails and changes nothing, or takes an
  unused block (`Took`), which keeps the heap well formed.
* `rtMalloc_returns`: the search always ends on a heap that can hold one smallest block.
* `rtFree_ok`, `shrink_plugged`, `Plugged.inv`: `rt_free` and the in-place branch of
  `rt_realloc` leave an unused block between others and plug it (`Plugged`).
* `rtRealloc_spec`, `rtRealloc_ok`: the five ends of `rt_realloc` (`Realloced`).
* `HeapInv.data`: what programs write into their own blocks changes no header.
* `init_ok`: `rt_system_heap_init` makes one unused block.
-/

namespace RtThread.Mem

open Bytes Layout

variable {c : Config}

/-- The invariant of the heap. -/
structure HeapInv (c : Config) (s : Heap) (bs : List Blk) : Prop extends Holds c s bs where
  noAdj : NoAdj bs
  room : ∀ b ∈ bs, b.used = true → c.sizeofStructMem < b.size
  lfree : s.heapPtr ≤ s.lfree ∧ AtFree bs (s.lfree - s.heapPtr)

variable {s s' : Heap} {bs l r : List Blk} {k n p o : ℕ}

theorem HeapInv.lfree_split (hi : HeapInv c s bs) :
    ∃ l r, bs = l ++ r ∧ s.lfree = s.heapPtr + total l := by
  obtain ⟨hle, h | ⟨k, h⟩⟩ := hi.lfree
  · exact ⟨bs, [], by simp, by omega⟩
  · obtain ⟨l, r, rfl, h⟩ := mem_blocksAt.1 h
    exact ⟨l, _, rfl, by omega⟩

theorem HeapInv.dvd_total (hi : HeapInv c s (l ++ r)) : c.alignSize ∣ total l :=
  Layout.dvd_total fun b hb => (hi.shape.size b (List.mem_append_left _ hb)).2

/-! ## User data -/

/-- **User data**: a change inside the user areas changes no header. -/
theorem Seg.data {m m' : Mem} {h a p : ℕ} {bs : List Blk} (hs : Seg c m h a p bs)
    (hsize : ∀ b ∈ bs, c.sizeofStructMem ≤ b.size)
    (hm : ∀ i, ¬ InUse c h a bs i → m' i = m i) : Seg c m' h a p bs := by
  induction bs generalizing a p m' with
  | nil => trivial
  | cons b bs ih =>
    have hb := hsize b List.mem_cons_self
    have happ : ∀ i, InUse c h a (b :: bs) i ↔ InUse c h a [b] i ∨ InUse c h (a + b.size) bs i := by
      intro i
      have := inUse_append (c := c) (h := h) (a := a) (i := i) (l := [b]) (r := bs)
      simpa using this
    -- the change leaves the first header alone
    have hout : ∀ i, h + a ≤ i → i < h + a + c.sizeofStructMem → m' i = m i := by
      intro i h1 h2
      refine hm i fun hu => ?_
      rcases (happ i).1 hu with hu | hu
      · have := inUse_bounds hu; omega
      · have := inUse_bounds hu; omega
    -- behind it, the same change
    let m'' : Mem := fun i => if h + (a + b.size) ≤ i then m' i else m i
    have hrest : Seg c m'' h (a + b.size) a bs := by
      refine ih hs.2 (fun x hx => hsize x (List.mem_cons_of_mem _ hx)) fun i hu => ?_
      by_cases hi : h + (a + b.size) ≤ i
      · simp only [m'', if_pos hi]
        refine hm i fun hu' => ?_
        rcases (happ i).1 hu' with hu' | hu'
        · have := inUse_bounds hu'
          simp only [total_cons, total_nil] at this
          omega
        · exact hu hu'
      · simp only [m'', if_neg hi]
    refine ⟨hs.1.frame hout, hrest.frame (fun x hx => hsize x (List.mem_cons_of_mem _ hx)) ?_⟩
    intro i h1 _
    simp only [m'', if_pos h1]

theorem Shape.data {m m' : Mem} {h msa : ℕ} (hs : Shape c m h msa bs)
    (hm : ∀ i, ¬ InUse c h 0 bs i → m' i = m i) : Shape c m' h msa bs := by
  have hend : ∀ f, get c m' (h + (msa + c.sizeofStructMem)) f =
      get c m (h + (msa + c.sizeofStructMem)) f := by
    intro f
    refine get_congr fun i h1 h2 => hm i fun hu => ?_
    have := inUse_bounds hu
    have := hs.total
    omega
  exact ⟨hs.seg.data (fun b hb => (hs.size b hb).1) hm, hs.total, hs.size,
    (hend _).trans hs.end_magic, (hend _).trans hs.end_used, (hend _).trans hs.end_next, hs.align,
    hs.bound⟩

theorem HeapInv.data {m' : Mem} (hi : HeapInv c s bs)
    (hm : ∀ i, ¬ InUse c s.heapPtr 0 bs i → m' i = s.mem i) :
    HeapInv c { s with mem := m' } bs :=
  ⟨⟨hi.shape.data hm, hi.heapEnd⟩, hi.noAdj, hi.room, hi.lfree⟩

/-! ## `rt_malloc` -/

/-- `rt_malloc`'s request: rounded, and at least the smallest block. -/
def request (c : Config) (size : ℕ) : ℕ := max (c.rtAlign size) c.sizeofStructMem

theorem dvd_request (size : ℕ) : c.alignSize ∣ request c size := by
  unfold request
  rcases max_cases (c.rtAlign size) c.sizeofStructMem with ⟨h, -⟩ | ⟨h, -⟩ <;> rw [h]
  · exact Config.dvd_rtAlign _
  · exact Config.dvd_sizeof

theorem sizeof_le_request (size : ℕ) : c.sizeofStructMem ≤ request c size := le_max_right _ _

theorem request_eq (size : ℕ) :
    (if c.rtAlign size < c.minSizeAligned then c.minSizeAligned else c.rtAlign size) =
      request c size := by
  rw [Config.minSizeAligned_eq, request]
  split
  · rw [max_eq_right (by omega)]
  · rw [max_eq_left (by omega)]

/-- **A successful `rt_malloc`** of `n` bytes: it takes the unused block of size `k`
behind `l`. -/
structure Took (c : Config) (s : Heap) (l : List Blk) (k : ℕ) (r : List Blk) (n p : ℕ)
    (s' : Heap) : Prop where
  fits : c.sizeofStructMem + n ≤ k
  ret : p = s.heapPtr + total l + c.sizeofStructMem
  heapPtr : s'.heapPtr = s.heapPtr
  holds : Holds c s' (l ++ cut (2 * c.sizeofStructMem) (c.sizeofStructMem + n) k ++ r)
  lfree : s'.lfree = if s.lfree = s.heapPtr + total l
    then s.heapPtr + lowest (total l) (cut (2 * c.sizeofStructMem) (c.sizeofStructMem + n) k ++ r)
    else s.lfree
  usedMem : s'.usedMem = s.usedMem + taken (2 * c.sizeofStructMem) (c.sizeofStructMem + n) k
  frame : ∀ i, InUse c s.heapPtr 0 (l ++ ⟨false, k⟩ :: r) i → s'.mem i = s.mem i

/-- The end of `rt_malloc`: the header is complete, `lfree` moves on, and the assertions hold. -/
theorem rtMalloc_take {size : ℕ} (hi : HeapInv c s (l ++ ⟨false, k⟩ :: r)) (h0 : size ≠ 0)
    (hsize : c.rtAlign size ≤ s.memSizeAligned) (hk : c.sizeofStructMem + request c size ≤ k)
    (hfit : searchFit c s (request c size) s.fuel (s.lfree - s.heapPtr) = some (some (total l))) :
    ∃ s', rtMalloc c s size = some (s.heapPtr + total l + c.sizeofStructMem, s') ∧
      Took c s l k r (request c size) (s.heapPtr + total l + c.sizeofStructMem) s' := by
  obtain ⟨m₁, hcarve, hsh, hframe⟩ := carve_ok hi.toHolds hk (dvd_request size)
  set n := request c size with hn
  set bs' := l ++ cut (2 * c.sizeofStructMem) (c.sizeofStructMem + n) k ++ r with hbs'
  have hb := hi.shape.size_cons
  have htot := hi.shape.total_eq
  have hend := hi.heapEnd
  have hlfree := hi.lfree
  simp only at hb htot
  -- the magic number is written again
  obtain ⟨t, ht, -⟩ := cut_cases (2 * c.sizeofStructMem) (c.sizeofStructMem + n) k
  have hcut : bs' = l ++ ⟨true, taken (2 * c.sizeofStructMem) (c.sizeofStructMem + n) k⟩ ::
      (t ++ r) := by
    rw [hbs', ht]; simp
  rw [hcut] at hsh
  have hmag := hsh.setMagic
  rw [← hcut] at hmag
  set s₁ : Heap := { s with
    mem := set c m₁ (s.heapPtr + total l) .magic heapMagic
    usedMem := s.usedMem + taken (2 * c.sizeofStructMem) (c.sizeofStructMem + n) k
    maxMem := max s.maxMem
      (s.usedMem + taken (2 * c.sizeofStructMem) (c.sizeofStructMem + n) k) } with hs₁
  have hholds : Holds c s₁ bs' := ⟨hmag, hend⟩
  -- the scan for the next unused block
  have hscan : nextFree c s₁ s₁.fuel (s₁.heapPtr + total l) = some (s₁.heapPtr + lowest (total l)
      (cut (2 * c.sizeofStructMem) (c.sizeofStructMem + n) k ++ r)) := by
    have := length_le hholds
    rw [hbs', List.append_assoc] at hholds this
    exact nextFree_ok _ l _ hholds (by rw [List.length_append] at this; omega)
  set lf := if s.lfree = s.heapPtr + total l then s.heapPtr + lowest (total l)
      (cut (2 * c.sizeofStructMem) (c.sizeofStructMem + n) k ++ r) else s.lfree with hlf
  have hmove : (if s.heapPtr + total l = s₁.lfree then nextFree c s₁ s₁.fuel s₁.lfree
      else some s₁.lfree) = some lf := by
    by_cases hl : s.lfree = s.heapPtr + total l
    · rw [if_pos hl.symm, show s₁.lfree = s₁.heapPtr + total l from hl, hscan, hlf, if_pos hl]
    · rw [if_neg (Ne.symm hl), hlf, if_neg hl]
  refine ⟨{ s₁ with lfree := lf }, ?_, hk, rfl, rfl, ⟨hmag, hend⟩, rfl, rfl, fun i hu => ?_⟩
  · have hdl : c.alignSize ∣ total l := hi.dvd_total
    have hmod : (s.heapPtr + total l) % c.alignSize = 0 :=
      Nat.mod_eq_zero_of_dvd (Nat.dvd_add hi.shape.align hdl)
    have hmod' : (s.heapPtr + total l + c.sizeofStructMem) % c.alignSize = 0 :=
      Nat.mod_eq_zero_of_dvd (Nat.dvd_add (Nat.dvd_add hi.shape.align hdl) Config.dvd_sizeof)
    have hle : s.heapPtr + total l + c.sizeofStructMem + n ≤ s.heapEnd := by omega
    unfold rtMalloc
    rw [if_neg h0]
    simp only
    rw [if_neg (by omega), request_eq, ← hn, hfit]
    simp only [hcarve, Heap.ref]
    change (if s.heapPtr + total l = s₁.lfree then nextFree c s₁ s₁.fuel s₁.lfree
      else some s₁.lfree) >>= _ = _
    rw [hmove]
    simp only [Option.bind_eq_bind, Option.bind_some, guard, hmod, hmod', if_true, Option.pure_def,
      Heap.set, hle]
    rfl
  · have := inUse_around hu
    exact (set_out (by omega)).trans (hframe i hu)

/-- **`rt_malloc`** fails and changes nothing, or takes an unused block. -/
theorem rtMalloc_ok {size : ℕ} (hi : HeapInv c s bs) (h : rtMalloc c s size = some (p, s')) :
    (p = rtNull ∧ s' = s) ∨
      ∃ l k r, bs = l ++ ⟨false, k⟩ :: r ∧ Took c s l k r (request c size) p s' := by
  have hsplit := hi.lfree_split
  by_cases h0 : size = 0
  · simp only [rtMalloc, h0, if_true, Option.some.injEq, Prod.mk.injEq] at h
    exact .inl ⟨h.1.symm, h.2.symm⟩
  by_cases hsize : c.rtAlign size > s.memSizeAligned
  · simp only [rtMalloc, h0, if_false, hsize, if_true, Option.some.injEq, Prod.mk.injEq] at h
    exact .inl ⟨h.1.symm, h.2.symm⟩
  obtain ⟨l₀, r₀, rfl, hl₀⟩ := hsplit
  have hoff : s.lfree - s.heapPtr = total l₀ := by omega
  cases hfit : searchFit c s (request c size) s.fuel (s.lfree - s.heapPtr) with
  | none => simp only [rtMalloc, h0, if_false, hsize, request_eq, hfit] at h; simp at h
  | some res =>
    cases res with
    | none =>
      simp only [rtMalloc, h0, if_false, hsize, request_eq, hfit, Option.some.injEq,
        Prod.mk.injEq] at h
      exact .inl ⟨h.1.symm, h.2.symm⟩
    | some ptr =>
      obtain ⟨l₂, k, r, rfl, rfl, hk⟩ := searchFit_ok _ l₀ r₀ ptr hi.toHolds (hoff ▸ hfit)
      rw [← List.append_assoc] at hi ⊢
      rw [← total_append] at hfit
      obtain ⟨s₁, h1, h2⟩ := rtMalloc_take hi h0 (by omega) hk hfit
      rw [h1, Option.some.injEq, Prod.mk.injEq] at h
      obtain ⟨rfl, rfl⟩ := h
      exact .inr ⟨l₀ ++ l₂, k, r, rfl, h2⟩

/-- `rt_malloc` returns, on a heap that can hold one smallest block. -/
theorem rtMalloc_returns (hi : HeapInv c s bs) (hmin : c.minSizeAligned ≤ s.memSizeAligned)
    (size : ℕ) : ∃ p s', rtMalloc c s size = some (p, s') := by
  obtain ⟨l₀, r₀, rfl, hl₀⟩ := hi.lfree_split
  by_cases h0 : size = 0
  · exact ⟨_, _, by simp only [rtMalloc, h0, if_true]; rfl⟩
  by_cases hsize : c.rtAlign size > s.memSizeAligned
  · exact ⟨_, _, by simp only [rtMalloc, h0, if_false, hsize, if_true]; rfl⟩
  have hoff : s.lfree - s.heapPtr = total l₀ := by omega
  have hreq : request c size ≤ s.memSizeAligned := max_le (by omega) hmin
  have hlen := length_le hi.toHolds
  rw [List.length_append] at hlen
  have hends := searchFit_ends hreq s.fuel l₀ r₀ hi.toHolds (by omega)
  cases hfit : searchFit c s (request c size) s.fuel (s.lfree - s.heapPtr) with
  | none => exact absurd (hoff ▸ hfit) hends
  | some res =>
    cases res with
    | none => exact ⟨_, _, by simp only [rtMalloc, h0, if_false, hsize, request_eq, hfit]; rfl⟩
    | some ptr =>
      obtain ⟨l₂, k, r, rfl, rfl, hk⟩ := searchFit_ok _ l₀ r₀ ptr hi.toHolds (hoff ▸ hfit)
      rw [← List.append_assoc] at hi
      rw [← total_append] at hfit
      obtain ⟨s₁, h1, -⟩ := rtMalloc_take hi h0 (by omega) hk hfit
      exact ⟨_, _, h1⟩

theorem Took.inv (ht : Took c s l k r n p s') (hn : c.sizeofStructMem ≤ n)
    (hi : HeapInv c s (l ++ ⟨false, k⟩ :: r)) :
    HeapInv c s' (l ++ cut (2 * c.sizeofStructMem) (c.sizeofStructMem + n) k ++ r) := by
  have hpos := c.sizeof_pos
  have hfit := ht.fits
  refine ⟨ht.holds, noAdj_cut hi.noAdj, fun b hb hu => ?_, ?_⟩
  · obtain ⟨t, hc, htt⟩ := cut_cases (2 * c.sizeofStructMem) (c.sizeofStructMem + n) k
    rw [hc, List.append_assoc, List.cons_append, List.mem_append, List.mem_cons,
      List.mem_append] at hb
    rcases hb with hb | rfl | hb | hb
    · exact hi.room b (by simp [hb]) hu
    · unfold taken; split <;> simp only <;> omega
    · rcases htt with rfl | ⟨rfl, -⟩
      · simp at hb
      · simp only [List.mem_singleton] at hb
        subst hb; simp at hu
    · exact hi.room b (by simp [hb]) hu
  · have hlf := hi.lfree
    rw [ht.lfree, ht.heapPtr]
    split
    · rw [Nat.add_sub_cancel_left, List.append_assoc]
      exact ⟨Nat.le_add_right _ _, atFree_lowest _ _⟩
    · exact ⟨hlf.1, atFree_replace hlf.2 (by omega) (total_cut _ _ _)⟩

/-! ## `rt_free`, and shrinking in place -/

/-- **A plugged block**: a block of size `k` between `l` and `r`, no longer used, is joined with its
neighbours, when `lfree` was at offset `o`. -/
structure Plugged (c : Config) (s : Heap) (l : List Blk) (k : ℕ) (r : List Blk) (o : ℕ)
    (s' : Heap) : Prop where
  heapPtr : s'.heapPtr = s.heapPtr
  holds : Holds c s' (plug l k r)
  lfree : s'.lfree = s.heapPtr + joined l k r o
  usedMem : s'.usedMem = c.sub s.usedMem k
  frame : ∀ i, InUse c s.heapPtr 0 (l ++ ⟨false, k⟩ :: r) i → s'.mem i = s.mem i

theorem Plugged.inv (hp : Plugged c s l k r o s') (hl : NoAdj l) (hr : NoAdj r)
    (hroom : ∀ b ∈ l ++ r, b.used = true → c.sizeofStructMem < b.size)
    (ho : o = total l ∨ o = total l + k + total r ∨ (∃ j, (o, j) ∈ blocksAt false 0 l) ∨
      ∃ j, (o, j) ∈ blocksAt false (total l + k) r) : HeapInv c s' (plug l k r) := by
  refine ⟨hp.holds, noAdj_plug hl hr k, fun b hb hu => ?_, ?_⟩
  · rcases mem_plug hb with hb | hb | rfl
    · exact hroom b (by simp [hb]) hu
    · exact hroom b (by simp [hb]) hu
    · simp at hu
  · rw [hp.lfree, hp.heapPtr, Nat.add_sub_cancel_left]
    exact ⟨Nat.le_add_right _ _, atFree_plug ho⟩

/-- An unused block other than `b` lies before it or behind it. -/
theorem atFree_around {b : Blk} (hb : b.used = true) (h : AtFree (l ++ b :: r) o) :
    o = total l + b.size + total r ∨ (∃ j, (o, j) ∈ blocksAt false 0 l) ∨
      ∃ j, (o, j) ∈ blocksAt false (total l + b.size) r := by
  rcases h with h | ⟨j, h⟩
  · exact .inl (by rw [h, total_append, total_cons]; omega)
  · rw [blocksAt_append, List.mem_append, Nat.zero_add] at h
    rcases h with h | h
    · exact .inr (.inl ⟨j, h⟩)
    · rw [blocksAt, if_neg (by simp [hb])] at h
      exact .inr (.inr ⟨j, h⟩)

theorem plugHoles_plugged (hs : Holds c s (l ++ ⟨false, k⟩ :: r)) (ho : s.lfree = s.heapPtr + o) :
    ∃ s', plugHoles c s (s.heapPtr + total l) = some s' ∧
      (∀ s₀ : Heap, s.heapPtr = s₀.heapPtr → s.usedMem = c.sub s₀.usedMem k →
        (∀ i, InUse c s.heapPtr 0 (l ++ ⟨false, k⟩ :: r) i → s.mem i = s₀.mem i) → Plugged c s₀ l k r o s') := by
  obtain ⟨m', h1, h2, h3⟩ := plugHoles_ok hs
  refine ⟨_, h1, fun s₀ hp hu hm => ⟨hp, ⟨h2, hs.heapEnd⟩, ?_, hu, fun i hi => ?_⟩⟩
  · simp only [ho, Nat.add_left_cancel_iff, joined, hp]
    split <;> rfl
  · rw [← hp] at hi
    exact (h3 i hi).trans (hm i hi)

/-- **`rt_free`** of the block of size `k` behind `l`. -/
theorem rtFree_ok (hi : HeapInv c s (l ++ ⟨true, k⟩ :: r)) :
    ∃ s', rtFree c s (s.heapPtr + total l + c.sizeofStructMem) = some s' ∧
      Plugged c s l k r (min (s.lfree - s.heapPtr) (total l)) s' := by
  have hsh := hi.shape
  have hh := hsh.hdr
  have hb := hsh.size_cons
  have htot := hsh.total_eq
  have hroom := hi.room ⟨true, k⟩ (by simp) rfl
  have hpos := c.sizeof_pos
  have hend := hi.heapEnd
  have hlf := hi.lfree.1
  simp only at hb htot hroom
  have hmod : (s.heapPtr + total l + c.sizeofStructMem) % c.alignSize = 0 :=
    Nat.mod_eq_zero_of_dvd (Nat.dvd_add (Nat.dvd_add hsh.align hi.dvd_total) Config.dvd_sizeof)
  have hsh' : Shape c (set c (set c s.mem (s.heapPtr + total l) .used 0) (s.heapPtr + total l)
      .magic heapMagic) s.heapPtr s.memSizeAligned (l ++ ⟨false, k⟩ :: r) :=
    (hsh.setUsed false).setMagic
  set m₁ := set c (set c s.mem (s.heapPtr + total l) .used 0) (s.heapPtr + total l)
    .magic heapMagic with hm₁
  set u := c.sub s.usedMem (c.sub (get c m₁ (s.heapPtr + total l) .next)
    (s.heapPtr + total l - s.heapPtr)) with hu
  set s₂ : Heap := { s with
    mem := m₁
    lfree := if s.heapPtr + total l < s.lfree then s.heapPtr + total l else s.lfree
    usedMem := u } with hs₂
  have ho : s₂.lfree = s₂.heapPtr + min (s.lfree - s.heapPtr) (total l) := by
    have h1 : s₂.lfree = if s.heapPtr + total l < s.lfree then s.heapPtr + total l else s.lfree := rfl
    have h2 : s₂.heapPtr = s.heapPtr := rfl
    rw [h1, h2]
    split <;> omega
  obtain ⟨s', h1, h2⟩ := plugHoles_plugged (c := c) (s := s₂) (l := l) (k := k) (r := r)
    ⟨hsh', hend⟩ ho
  have hnext : c.sub (get c m₁ (s.heapPtr + total l) .next) (s.heapPtr + total l - s.heapPtr) = k := by
    have hbd := hsh.bound
    have hlt : total l + k < 2 ^ c.bits := by omega
    rw [show get c m₁ (s.heapPtr + total l) .next = total l + k from hsh'.hdr.next, Nat.add_sub_cancel_left,
      Config.sub_eq hlt (Nat.le_add_right _ _), Nat.add_sub_cancel_left]
  refine ⟨s', ?_, h2 s rfl (by rw [hs₂, hu, hnext]) fun i hiu => ?_⟩
  · unfold rtFree
    rw [if_neg (by unfold rtNull; omega)]
    simp only [hmod, Nat.add_sub_cancel, Heap.get, hh.used, hh.magic, guard, if_true,
      Bool.toNat_true]
    rw [if_pos (by omega)]
    simp only [Option.pure_def, Option.bind_eq_bind, Option.bind_some, ne_eq, one_ne_zero,
      not_false_eq_true, if_true]
    by_cases hlt : s.heapPtr + total l < s.lfree
    · rw [show s₂ = { s with mem := m₁, lfree := s.heapPtr + total l, usedMem := u } by
        rw [hs₂, if_pos hlt]] at h1
      simp only [Heap.set, hlt, if_true]
      exact h1
    · rw [show s₂ = { s with mem := m₁, lfree := s.lfree, usedMem := u } by
        rw [hs₂, if_neg hlt]] at h1
      simp only [Heap.set, hlt, if_false]
      exact h1
  · have := inUse_around (h := s.heapPtr) hiu
    exact (set_out (by omega)).trans (set_out (by omega))

theorem freed_inv (hi : HeapInv c s (l ++ ⟨true, k⟩ :: r))
    (hp : Plugged c s l k r (min (s.lfree - s.heapPtr) (total l)) s') : HeapInv c s' (plug l k r) := by
  obtain ⟨hl, hr⟩ := noAdj_used.1 hi.noAdj
  refine hp.inv hl hr (fun b hb hu => hi.room b (by simp at hb ⊢; tauto) hu) ?_
  rcases le_total (s.lfree - s.heapPtr) (total l) with h | h
  · rw [min_eq_left h]
    exact .inr (atFree_around rfl hi.lfree.2)
  · rw [min_eq_right h]
    exact .inl rfl

/-- **The in-place branch** of `rt_realloc`, as a plugged block. -/
theorem shrink_plugged {newsize : ℕ} (hi : HeapInv c s (l ++ ⟨true, k⟩ :: r))
    (hk : c.sizeofStructMem + newsize + c.sizeofStructMem ≤ k) (hd : c.alignSize ∣ newsize) :
    ∃ s', shrink c s (total l) (k - c.sizeofStructMem) newsize = some s' ∧
      Plugged c s (l ++ [⟨true, c.sizeofStructMem + newsize⟩]) (k - (c.sizeofStructMem + newsize)) r
        (s.lfree - s.heapPtr) s' := by
  obtain ⟨m', h1, h2, h3⟩ := shrink_ok hi.toHolds hk hd
  have hlf := hi.lfree.1
  have hlast : lastFree (l ++ [⟨true, c.sizeofStructMem + newsize⟩]) =
      (0, l ++ [⟨true, c.sizeofStructMem + newsize⟩]) := by simp [lastFree, headFree]
  refine ⟨_, h1, rfl, ⟨h2, hi.heapEnd⟩, ?_, by rw [Nat.sub_sub], fun i hu => h3 i (by simpa using hu)⟩
  unfold joined
  rw [hlast]
  simp only [total_append, total_cons, total_nil, Nat.add_zero]
  have hiff : (s.lfree = s.heapPtr + (total l + (c.sizeofStructMem + newsize)) ∨
        (r.head?.map Blk.used = some false ∧ s.lfree = s.heapPtr + (total l + k))) ↔
      (s.lfree - s.heapPtr = total l + (c.sizeofStructMem + newsize) ∨
        (r.head?.map Blk.used = some false ∧ s.lfree - s.heapPtr =
          total l + (c.sizeofStructMem + newsize) + (k - (c.sizeofStructMem + newsize)))) := by
    refine or_congr (by omega) (and_congr_right fun _ => by omega)
  by_cases hc : s.lfree = s.heapPtr + (total l + (c.sizeofStructMem + newsize)) ∨
      (r.head?.map Blk.used = some false ∧ s.lfree = s.heapPtr + (total l + k))
  · rw [if_pos hc, if_pos (hiff.1 hc)]
  · rw [if_neg hc, if_neg (mt hiff.2 hc)]; omega

theorem shrunk_inv {newsize : ℕ} (hi : HeapInv c s (l ++ ⟨true, k⟩ :: r))
    (hk : c.sizeofStructMem + newsize + c.sizeofStructMem ≤ k) (h0 : 0 < newsize)
    (hp : Plugged c s (l ++ [⟨true, c.sizeofStructMem + newsize⟩])
      (k - (c.sizeofStructMem + newsize)) r (s.lfree - s.heapPtr) s') :
    HeapInv c s' (plug (l ++ [⟨true, c.sizeofStructMem + newsize⟩])
      (k - (c.sizeofStructMem + newsize)) r) := by
  obtain ⟨hl, hr⟩ := noAdj_used.1 hi.noAdj
  refine hp.inv ?_ hr (fun b hb hu => ?_) ?_
  · exact noAdj_used.2 ⟨hl, List.isChain_nil⟩
  · simp only [List.append_assoc, List.mem_append, List.mem_singleton] at hb
    rcases hb with hb | rfl | hb
    · exact hi.room b (by simp [hb]) hu
    · simp only; omega
    · exact hi.room b (by simp [hb]) hu
  · have hlast : total (l ++ [⟨true, c.sizeofStructMem + newsize⟩]) +
        (k - (c.sizeofStructMem + newsize)) = total l + k := by simp; omega
    rw [hlast]
    rcases atFree_around rfl hi.lfree.2 with h | ⟨j, h⟩ | h
    · exact .inr (.inl h)
    · exact .inr (.inr (.inl ⟨j, by rw [blocksAt_append]; exact List.mem_append_left _ h⟩))
    · exact .inr (.inr (.inr h))

/-! ## `rt_realloc` -/

/-- `rt_realloc` of a block with `k` bytes to `size` cuts the block in place. -/
def CutsInPlace (c : Config) (k size : ℕ) : Prop :=
  c.rtAlign size ≠ 0 ∧ c.rtAlign size + c.sizeofStructMem + c.minSize < k - c.sizeofStructMem

/-- The bytes that `rt_realloc` copies of a block with `k` bytes. -/
def copied (c : Config) (k size : ℕ) : ℕ :=
  if k - c.sizeofStructMem < c.rtAlign size then k - c.sizeofStructMem else c.rtAlign size

/-- **What `rt_realloc` does** with the block of size `k` behind `l`: the pointer it
returns and the heap it leaves. -/
inductive Realloced (c : Config) (s : Heap) (l : List Blk) (k : ℕ) (r : List Blk) (size : ℕ) :
    ℕ → Heap → Prop
  | refused : c.rtAlign size ≠ 0 → Realloced c s l k r size rtNull s
  | same : c.rtAlign size ≠ 0 → k - c.sizeofStructMem = c.rtAlign size →
      Realloced c s l k r size (s.heapPtr + total l + c.sizeofStructMem) s
  | freed {s' : Heap} : c.rtAlign size = 0 →
      Plugged c s l k r (min (s.lfree - s.heapPtr) (total l)) s' →
      Realloced c s l k r size rtNull s'
  | shrunk {s' : Heap} : CutsInPlace c k size →
      Plugged c s (l ++ [⟨true, c.sizeofStructMem + c.rtAlign size⟩])
        (k - (c.sizeofStructMem + c.rtAlign size)) r (s.lfree - s.heapPtr) s' →
      Realloced c s l k r size (s.heapPtr + total l + c.sizeofStructMem) s'
  | moved {q : ℕ} {s₁ s₂ s' : Heap} {l₁ r₁ l₂ r₂ : List Blk} {k₁ : ℕ} : c.rtAlign size ≠ 0 →
      l ++ ⟨true, k⟩ :: r = l₁ ++ ⟨false, k₁⟩ :: r₁ →
      Took c s l₁ k₁ r₁ (request c (c.rtAlign size)) q s₁ →
      s₂ = { s₁ with mem := copy s₁.mem q (s.heapPtr + total l + c.sizeofStructMem) (copied c k size) } →
      HeapInv c s₂ (l₂ ++ ⟨true, k⟩ :: r₂) →
      l₁ ++ cut (2 * c.sizeofStructMem) (c.sizeofStructMem + request c (c.rtAlign size)) k₁ ++ r₁ =
        l₂ ++ ⟨true, k⟩ :: r₂ → total l₂ = total l →
      Plugged c s₂ l₂ k r₂ (min (s₂.lfree - s₂.heapPtr) (total l₂)) s' →
      Realloced c s l k r size q s'

/-- The copied bytes fit what `rt_malloc` takes for the new size. -/
theorem copied_le_request (k size : ℕ) : copied c k size ≤ request c (c.rtAlign size) := by
  have hle : c.rtAlign size ≤ request c (c.rtAlign size) := by
    rw [request, Config.rtAlign_of_dvd (Config.dvd_rtAlign _) (Config.rtAlign_lt _)]
    exact le_max_left _ _
  unfold copied
  split <;> omega

/-- The bytes handed out by a successful `rt_malloc` are in use. -/
theorem Took.inUse (ht : Took c s l k r n p s') {i : ℕ} (h1 : p ≤ i) (h2 : i < p + n) :
    InUse c s'.heapPtr 0
      (l ++ cut (2 * c.sizeofStructMem) (c.sizeofStructMem + n) k ++ r) i := by
  have hfit := ht.fits
  have hret := ht.ret
  refine ⟨total l, taken (2 * c.sizeofStructMem) (c.sizeofStructMem + n) k, ?_, ?_, ?_⟩
  · rw [used_cut, Nat.zero_add]
    exact List.mem_append_right _ List.mem_cons_self
  · rw [ht.heapPtr]; omega
  · rw [ht.heapPtr]; unfold taken; split <;> omega

/-- **`rt_realloc`** of the block of size `k` behind `l` returns, unless its `rt_malloc` does not. -/
theorem rtRealloc_spec (hi : HeapInv c s (l ++ ⟨true, k⟩ :: r)) (size : ℕ) :
    (∃ q s', rtRealloc c s (s.heapPtr + total l + c.sizeofStructMem) size = some (q, s') ∧
      Realloced c s l k r size q s') ∨
    (rtRealloc c s (s.heapPtr + total l + c.sizeofStructMem) size = none ∧ rtMalloc c s (c.rtAlign size) = none) := by
  have hsh := hi.shape
  have hh := hsh.hdr
  have hb := hsh.size_cons
  have htot := hsh.total_eq
  have hbd := hsh.bound
  have hroom := hi.room ⟨true, k⟩ (by simp) rfl
  have hpos := c.sizeof_pos
  have hend := hi.heapEnd
  simp only at hb htot hroom
  have hsize : c.sub (c.sub (total l + k) (s.heapPtr + total l - s.heapPtr)) c.sizeofStructMem =
      k - c.sizeofStructMem := by
    rw [Config.sub_eq (a := total l + k) (by omega) (by omega), Config.sub_eq (by omega) (by omega)]
    omega
  unfold rtRealloc
  simp only
  by_cases hmax : c.rtAlign size > s.memSizeAligned
  · -- larger than the heap
    rw [if_pos hmax]
    exact .inl ⟨_, _, rfl, .refused (by omega)⟩
  rw [if_neg hmax]
  by_cases h0 : c.rtAlign size = 0
  · -- nothing left: free
    rw [if_pos h0]
    obtain ⟨s₁, h1, h2⟩ := rtFree_ok hi
    rw [h1]
    exact .inl ⟨_, _, rfl, .freed h0 h2⟩
  rw [if_neg h0, if_neg (by unfold rtNull; omega), if_neg (by omega)]
  simp only [Nat.add_sub_cancel, Heap.get, hh.next, hsize]
  by_cases hsame : k - c.sizeofStructMem = c.rtAlign size
  · -- the same size
    rw [if_pos hsame]
    exact .inl ⟨_, _, rfl, .same h0 hsame⟩
  rw [if_neg hsame]
  by_cases hcut : c.rtAlign size + c.sizeofStructMem + c.minSize < k - c.sizeofStructMem
  · -- in place
    have hmin : 12 ≤ c.minSize := Config.minSize_eq (c := c) ▸ Config.sizeofHeapMem_ge
    have hroom : c.sizeofStructMem + c.rtAlign size + c.sizeofStructMem ≤ k := by omega
    obtain ⟨s₁, h1, h2⟩ := shrink_plugged hi hroom (Config.dvd_rtAlign _)
    rw [if_pos hcut, Nat.add_sub_cancel_left, h1]
    exact .inl ⟨_, _, rfl, .shrunk ⟨h0, hcut⟩ h2⟩
  -- elsewhere
  rw [if_neg hcut]
  cases hm : rtMalloc c s (c.rtAlign size) with
  | none => exact .inr ⟨rfl, rfl⟩
  | some res =>
    obtain ⟨nmem, s₁⟩ := res
    left
    simp only [Option.bind_eq_bind, Option.bind_some, Option.pure_def]
    rcases rtMalloc_ok hi hm with ⟨rfl, rfl⟩ | ⟨l₁, k₁, r₁, hbs, ht⟩
    · rw [if_neg (by simp)]
      exact ⟨_, _, rfl, .refused h0⟩
    · have hnull : nmem ≠ rtNull := by rw [ht.ret]; unfold rtNull; omega
      rw [if_pos hnull]
      -- the old block is one of the new layout
      have hold : (total l, k) ∈ blocksAt true 0 (l₁ ++
          cut (2 * c.sizeofStructMem) (c.sizeofStructMem + request c (c.rtAlign size)) k₁ ++
            r₁) := by
        have h1 : (total l, k) ∈ blocksAt true 0 (l ++ ⟨true, k⟩ :: r) :=
          mem_blocksAt.2 ⟨l, r, rfl, by simp⟩
        rw [hbs, blocksAt_append, List.mem_append] at h1
        rw [used_cut, List.mem_append, List.mem_cons]
        rcases h1 with h1 | h1
        · exact .inl h1
        · rw [blocksAt, if_neg (by simp)] at h1
          exact .inr (.inr h1)
      obtain ⟨l₂, r₂, hbs₂, hl₂⟩ := mem_blocksAt.1 hold
      rw [Nat.zero_add] at hl₂
      have hcopy := copied_le_request (c := c) k size
      -- copying writes into the new block only
      have hinv := ht.inv (sizeof_le_request _) (hbs ▸ hi)
      have hout : ∀ i, ¬InUse c s₁.heapPtr 0 (l₁ ++
          cut (2 * c.sizeofStructMem) (c.sizeofStructMem + request c (c.rtAlign size)) k₁ ++ r₁) i →
          copy s₁.mem nmem (s.heapPtr + total l + c.sizeofStructMem) (copied c k size) i = s₁.mem i :=
        fun i hu => copy_out (by
          by_contra hc
          exact hu (ht.inUse (i := i) (by omega) (by omega)))
      have hdata := hinv.data hout
      rw [hbs₂] at hdata
      obtain ⟨s₃, h1, h2⟩ := rtFree_ok hdata
      have hptr : s₁.heapPtr + total l₂ + c.sizeofStructMem =
          s.heapPtr + total l + c.sizeofStructMem := by rw [ht.heapPtr, hl₂]
      change rtFree c _ (s₁.heapPtr + total l₂ + c.sizeofStructMem) = _ at h1
      rw [hptr] at h1
      unfold copied at h1
      rw [h1]
      exact ⟨_, _, rfl, .moved h0 hbs ht rfl hdata hbs₂ hl₂.symm h2⟩

/-- **`rt_realloc`** of the block of size `k` behind `l`. -/
theorem rtRealloc_ok {size q : ℕ} (hi : HeapInv c s (l ++ ⟨true, k⟩ :: r))
    (h : rtRealloc c s (s.heapPtr + total l + c.sizeofStructMem) size = some (q, s')) :
    Realloced c s l k r size q s' := by
  rcases rtRealloc_spec hi size with ⟨q₁, s₁, h1, hr⟩ | ⟨h1, -⟩
  · rw [h1, Option.some.injEq, Prod.mk.injEq] at h
    obtain ⟨rfl, rfl⟩ := h
    exact hr
  · rw [h1] at h
    cases h

/-! ## `rt_system_heap_init` -/

/-- **A fresh heap** is one unused block, the lowest one. -/
theorem init_ok {m : Mem} {beginAddr endAddr : ℕ}
    (h : rtSystemHeapInit c m beginAddr endAddr = some s) :
    HeapInv c s [⟨false, s.memSizeAligned + c.sizeofStructMem⟩] ∧ s.lfree = s.heapPtr := by
  unfold rtSystemHeapInit at h
  simp only at h
  split at h
  swap
  · simp at h
  rename_i hsize
  obtain ⟨h1, h2⟩ := hsize
  have hd1 := Config.dvd_rtAlign (c := c) beginAddr
  have hd2 := Config.dvd_rtAlignDown (c := c) endAddr
  have hlt : c.rtAlignDown endAddr < 2 ^ c.bits := by
    unfold Config.rtAlignDown
    rw [Word.alignDown_eq Config.alignLog_lt]
    exact lt_of_le_of_lt (Nat.div_mul_le_self _ _) (Nat.mod_lt _ (Nat.two_pow_pos _))
  set b := c.rtAlign beginAddr with hb
  set e := c.rtAlignDown endAddr with he
  have hds : c.alignSize ∣ e - b - 2 * c.sizeofStructMem + c.sizeofStructMem :=
    Nat.dvd_add (Nat.dvd_sub (Nat.dvd_sub hd2 hd1) (Nat.dvd_mul_left_of_dvd Config.dvd_sizeof 2))
      Config.dvd_sizeof
  set msa := e - b - 2 * c.sizeofStructMem with hmsa
  have hpos := c.sizeof_pos
  have l2 : heapMagic < Field.lim c .magic := by simp [Field.lim, Field.width, heapMagic]
  have l3 : 1 < Field.lim c .used := by simp [Field.lim, Field.width]
  have l4 : msa + c.sizeofStructMem < Field.lim c .next := by rw [Field.lim_next]; omega
  have l5 : 0 < Field.lim c .prev := by rw [Field.lim_prev]; exact Nat.two_pow_pos _
  have hnext : get c (set c (set c (set c (set c m b .magic heapMagic) b .next
      (msa + c.sizeofStructMem)) b .prev 0) b .used 0) b .next = msa + c.sizeofStructMem := by
    rw [get_set_ne (by decide), get_set_ne (by decide), get_set_same l4]
  rw [hnext, Option.some.injEq] at h
  subst h
  refine ⟨⟨⟨⟨⟨⟨?_, ?_, ?_, ?_⟩, trivial⟩, by simp, ?_, ?_, ?_, ?_, hd1, by simp only; omega⟩,
    rfl⟩, List.isChain_singleton _, by simp, le_rfl, ?_⟩, rfl⟩
  · simp only [Nat.add_zero]
    rw [get_set_disj (by omega), get_set_disj (by omega), get_set_disj (by omega),
      get_set_disj (by omega), get_set_ne (by decide), get_set_ne (by decide),
      get_set_ne (by decide), get_set_same l2]
  · simp only [Nat.add_zero]
    rw [get_set_disj (by omega), get_set_disj (by omega), get_set_disj (by omega),
      get_set_disj (by omega), get_set_same (by omega)]
    rfl
  · simp only [Nat.add_zero, Nat.zero_add]
    rw [get_set_disj (by omega), get_set_disj (by omega), get_set_disj (by omega),
      get_set_disj (by omega), hnext]
  · simp only [Nat.add_zero]
    rw [get_set_disj (by omega), get_set_disj (by omega), get_set_disj (by omega),
      get_set_disj (by omega), get_set_ne (by decide), get_set_same l5]
  · simp only [List.mem_singleton, forall_eq]
    exact ⟨by omega, hds⟩
  · simp only
    rw [get_set_ne (by decide), get_set_ne (by decide), get_set_ne (by decide), get_set_same l2]
  · simp only
    rw [get_set_ne (by decide), get_set_ne (by decide), get_set_same l3]
  · simp only
    rw [get_set_ne (by decide), get_set_same l4]
  · rw [Nat.sub_self]
    exact .inr ⟨msa + c.sizeofStructMem, by simp [blocksAt]⟩

end RtThread.Mem
