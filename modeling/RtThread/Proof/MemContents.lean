import RtThread.Proof.MemRuns

/-!
# The bytes of the blocks

* `Took.keeps`, `Plugged.keeps`: `rt_malloc` and `plug_holes` leave the used blocks and their bytes alone.
* `ClientInv.step_keeps`: so does each call, but for the block it is given.
* `realloc_contract`: **what `rt_realloc` leaves**, in every state of every run.
-/

namespace RtThread.Mem

open Bytes Layout

variable {c : Config} {k k' : Client} {s s' : Heap} {bs l r : List Blk} {n p q j o size : ℕ} {a : Call}

/-- The bytes of a block of `s`, which begins at offset `x.1`, are the same in `s'`. -/
def Kept (c : Config) (s s' : Heap) (x : ℕ × ℕ) : Prop :=
  ∀ i, s.heapPtr + x.1 + c.sizeofStructMem ≤ i → i < s.heapPtr + x.1 + x.2 → s'.mem i = s.mem i

theorem Kept.trans {s'' : Heap} {x : ℕ × ℕ} (h : Kept c s s' x) (hp : s'.heapPtr = s.heapPtr) (h' : Kept c s' s'' x) :
    Kept c s s'' x := by
  intro i hlo hhi
  rw [← h i hlo hhi]
  rw [← hp] at hlo hhi
  exact h' i hlo hhi

/-- `rt_malloc` leaves the used blocks alone. -/
theorem Took.keeps (ht : Took c s l j r n p s') {x : ℕ × ℕ} (hx : x ∈ blocksAt true 0 (l ++ ⟨false, j⟩ :: r)) :
    x ∈ blocksAt true 0 (l ++ cut (2 * c.sizeofStructMem) (c.sizeofStructMem + n) j ++ r) ∧ Kept c s s' x := by
  constructor
  · rw [blocksAt_append, blocksAt, if_neg (by simp), List.mem_append, Nat.zero_add] at hx
    rw [used_cut, List.mem_append, List.mem_cons, Nat.zero_add]
    rcases hx with hx | hx
    · exact .inl hx
    · exact .inr (.inr hx)
  · intro i hlo hhi
    exact ht.frame i ⟨x.1, x.2, hx, hlo, hhi⟩

/-- `plug_holes` leaves the used blocks alone. -/
theorem Plugged.keeps (hp : Plugged c s l j r o s') {x : ℕ × ℕ}
    (hx : x ∈ blocksAt true 0 l ∨ x ∈ blocksAt true (total l + j) r) :
    x ∈ blocksAt true 0 (plug l j r) ∧ Kept c s s' x := by
  have hold : x ∈ blocksAt true 0 (l ++ ⟨false, j⟩ :: r) := by
    rw [blocksAt_append, blocksAt, if_neg (by simp), List.mem_append, Nat.zero_add]
    exact hx
  constructor
  · rw [used_plug, List.mem_append, Nat.zero_add]
    exact hx
  · intro i hlo hhi
    exact hp.frame i ⟨x.1, x.2, hold, hlo, hhi⟩

/-- The user area of a block of the layout. -/
theorem areaEnd_of_mem (hs : Holds c s bs) (hx : (o, j) ∈ blocksAt true 0 bs) :
    s.areaEnd c (s.heapPtr + o + c.sizeofStructMem) = s.heapPtr + (o + j) := by
  obtain ⟨l, r, rfl, ho⟩ := mem_blocksAt.1 hx
  rw [Nat.zero_add] at ho
  rw [ho]
  exact areaEnd_eq hs

/-- The other blocks. -/
theorem blocksAt_other (hx : (o, j) ∈ blocksAt true 0 (l ++ ⟨true, n⟩ :: r)) (hne : o ≠ total l) :
    (o, j) ∈ blocksAt true 0 l ∨ (o, j) ∈ blocksAt true (total l + n) r := by
  rw [blocksAt_append, List.mem_append, blocksAt, if_pos rfl, List.mem_cons, Nat.zero_add] at hx
  rcases hx with hx | hx | hx
  · exact .inl hx
  · cases hx
    exact absurd rfl hne
  · exact .inr hx

/-- A block of a layout has room for its header. -/
theorem Holds.size_le (hs : Holds c s bs) {u : Bool} {x : ℕ × ℕ} (hx : x ∈ blocksAt u 0 bs) :
    c.sizeofStructMem ≤ x.2 := by
  obtain ⟨l, r, rfl, -⟩ := mem_blocksAt.1 hx
  exact (hs.shape.size ⟨u, x.2⟩ (by simp)).1

/-- A block of a layout lies in front of another one, or behind it. -/
theorem blocksAt_around {u : Bool} {b : Blk} {x : ℕ × ℕ} (hu : b.used ≠ u) (hx : x ∈ blocksAt u 0 (l ++ b :: r)) :
    x.1 + x.2 ≤ total l ∨ total l + b.size ≤ x.1 := by
  rw [blocksAt_append, List.mem_append, blocksAt, if_neg hu, Nat.zero_add] at hx
  rcases hx with hx | hx
  · have hin := (blocksAt_sorted u 0 l).2 _ hx
    exact .inl (by omega)
  · have hin := (blocksAt_sorted u (total l + b.size) r).2 _ hx
    exact .inr hin.1

/-- **`rt_realloc` leaves the other blocks alone.** -/
theorem Realloced.keeps (hi : HeapInv c s (l ++ ⟨true, j⟩ :: r)) (h : Realloced c s l j r size q s') {x : ℕ × ℕ}
    (hx : x ∈ blocksAt true 0 l ∨ x ∈ blocksAt true (total l + j) r) :
    ∃ bs', Holds c s' bs' ∧ s'.heapPtr = s.heapPtr ∧ x ∈ blocksAt true 0 bs' ∧ Kept c s s' x := by
  have hold : x ∈ blocksAt true 0 (l ++ ⟨true, j⟩ :: r) := by
    rw [blocksAt_append, List.mem_append, blocksAt, if_pos rfl, List.mem_cons, Nat.zero_add]
    rcases hx with hx | hx
    · exact .inl hx
    · exact .inr (.inr hx)
  cases h with
  | refused _ => exact ⟨_, hi.toHolds, rfl, hold, fun _ _ _ => rfl⟩
  | same _ _ => exact ⟨_, hi.toHolds, rfl, hold, fun _ _ _ => rfl⟩
  | freed _ hpl =>
    obtain ⟨hmem, hkept⟩ := hpl.keeps hx
    exact ⟨_, hpl.holds, hpl.heapPtr, hmem, hkept⟩
  | shrunk hcut hpl =>
    have hle := hcut.le.1
    have hx' : x ∈ blocksAt true 0 (l ++ [⟨true, c.sizeofStructMem + c.rtAlign size⟩]) ∨
        x ∈ blocksAt true (total (l ++ [⟨true, c.sizeofStructMem + c.rtAlign size⟩]) +
          (j - (c.sizeofStructMem + c.rtAlign size))) r := by
      have htot : total (l ++ [⟨true, c.sizeofStructMem + c.rtAlign size⟩]) +
          (j - (c.sizeofStructMem + c.rtAlign size)) = total l + j := by
        simp only [total_append, total_cons, total_nil]
        omega
      rw [htot, blocksAt_append, List.mem_append]
      rcases hx with hx | hx
      · exact .inl (.inl hx)
      · exact .inr hx
    obtain ⟨hmem, hkept⟩ := hpl.keeps hx'
    exact ⟨_, hpl.holds, hpl.heapPtr, hmem, hkept⟩
  | @moved q s₁ s₂ s' l₁ r₁ l₂ r₂ k₁ h0 hbs ht hcopy hi₂ hbs₂ hl₂ hpl =>
    subst hcopy
    have hbound := copied_le_request (c := c) j size
    have hfits := ht.fits
    have hret := ht.ret
    have hnew : x ∈ blocksAt true 0 (l₁ ++ ⟨false, k₁⟩ :: r₁) := hbs ▸ hold
    have haway := blocksAt_around (b := ⟨false, k₁⟩) (by simp) hnew
    obtain ⟨hmem, hkept⟩ := ht.keeps hnew
    rw [hbs₂] at hmem
    -- the copy goes to the new block
    have hkept₂ : Kept c s₁ { s₁ with mem := copy s₁.mem q (s.heapPtr + total l + c.sizeofStructMem) (copied c j size) }
        x := by
      intro i hlo hhi
      rw [ht.heapPtr] at hlo hhi
      refine copy_out ?_
      simp only at haway
      omega
    have hsize := hi.toHolds.size_le hold
    have hpos := c.sizeof_pos
    have hne : x.1 ≠ total l₂ := by
      rw [hl₂]
      rcases hx with hx | hx
      · have hin := (blocksAt_sorted true 0 l).2 _ hx
        omega
      · have hin := (blocksAt_sorted true (total l + j) r).2 _ hx
        have hroom := hi.room ⟨true, j⟩ (by simp) rfl
        simp only at hroom
        omega
    obtain ⟨hmem₃, hkept₃⟩ := hpl.keeps (blocksAt_other hmem hne)
    refine ⟨_, hpl.holds, hpl.heapPtr.trans ht.heapPtr, hmem₃, ?_⟩
    exact (hkept.trans ht.heapPtr hkept₂).trans ht.heapPtr hkept₃

/-- **The block that `rt_realloc` returns**: it is long enough, and begins with the old bytes. -/
theorem Realloced.returned (hi : HeapInv c s (l ++ ⟨true, j⟩ :: r)) (h : Realloced c s l j r size q s')
    (hq : q ≠ rtNull) :
    ∃ bs' o m, Holds c s' bs' ∧ s'.heapPtr = s.heapPtr ∧ (o, m) ∈ blocksAt true 0 bs' ∧
      q = s.heapPtr + o + c.sizeofStructMem ∧ c.sizeofStructMem + c.rtAlign size ≤ m ∧
      ∀ i, i < copied c j size → s'.mem (q + i) = s.mem (s.heapPtr + total l + c.sizeofStructMem + i) := by
  have hold : (total l, j) ∈ blocksAt true 0 (l ++ ⟨true, j⟩ :: r) := mem_blocksAt.2 ⟨l, r, rfl, by simp⟩
  cases h with
  | refused _ => exact absurd rfl hq
  | freed _ _ => exact absurd rfl hq
  | same _ hsame =>
    have hb := hi.shape.size_cons
    simp only at hb
    exact ⟨_, total l, j, hi.toHolds, rfl, hold, rfl, by omega, fun _ _ => rfl⟩
  | shrunk hcut hpl =>
    have hle := hcut.le.1
    have hx : (total l, c.sizeofStructMem + c.rtAlign size) ∈
        blocksAt true 0 (l ++ [⟨true, c.sizeofStructMem + c.rtAlign size⟩]) :=
      mem_blocksAt.2 ⟨l, [], rfl, by simp⟩
    obtain ⟨hmem, hkept⟩ := hpl.keeps (.inl hx)
    refine ⟨_, total l, _, hpl.holds, hpl.heapPtr, hmem, rfl, Nat.le_refl _, ?_⟩
    intro i hlt
    unfold copied at hlt
    split at hlt
    all_goals exact hkept _ (by simp only; omega) (by simp only; omega)
  | @moved q s₁ s₂ s' l₁ r₁ l₂ r₂ k₁ h0 hbs ht hcopy hi₂ hbs₂ hl₂ hpl =>
    subst hcopy
    have hbound := copied_le_request (c := c) j size
    have hfits := ht.fits
    have hret := ht.ret
    have hb := hi.shape.size_cons
    simp only at hb
    have hpos := c.sizeof_pos
    have hround : c.rtAlign size ≤ request c (c.rtAlign size) := by
      rw [request, Config.rtAlign_of_dvd (Config.dvd_rtAlign _) (Config.rtAlign_lt _)]
      exact le_max_left _ _
    set m := taken (2 * c.sizeofStructMem) (c.sizeofStructMem + request c (c.rtAlign size)) k₁ with hm
    have hlen : c.sizeofStructMem + request c (c.rtAlign size) ≤ m := by
      rw [hm]
      unfold taken
      split <;> omega
    have hlast : m ≤ k₁ := by
      rw [hm]
      unfold taken
      split <;> omega
    -- the new block is not the old one
    have haway := blocksAt_around (b := ⟨false, k₁⟩) (by simp) (hbs ▸ hold)
    simp only at haway
    have hnew : (total l₁, m) ∈ blocksAt true 0 (l₂ ++ ⟨true, j⟩ :: r₂) := by
      rw [← hbs₂, used_cut, Nat.zero_add]
      exact List.mem_append_right _ List.mem_cons_self
    obtain ⟨hmem, hkept⟩ := hpl.keeps (blocksAt_other hnew (by omega))
    refine ⟨_, total l₁, m, hpl.holds, hpl.heapPtr.trans ht.heapPtr, hmem, hret, by omega, ?_⟩
    intro i hlt
    have hsrc := (ht.keeps (hbs ▸ hold)).2
    have hcopied : copied c j size ≤ j - c.sizeofStructMem := by
      unfold copied
      split <;> omega
    rw [hkept (q + i) (by simp only [ht.heapPtr]; omega) (by simp only [ht.heapPtr]; omega)]
    simp only
    unfold copy
    rw [if_pos (by omega), Nat.add_sub_cancel_left]
    exact hsrc _ (by simp only; omega) (by simp only; omega)

/-! ## Runs -/

theorem Took.msa (ht : Took c s l j r n p s') (hs : Holds c s (l ++ ⟨false, j⟩ :: r)) :
    s'.memSizeAligned = s.memSizeAligned := by
  have hold := hs.shape.total
  have hnew := ht.holds.shape.total
  simp only [total_append, total_cons, total_cut] at hold hnew
  omega

theorem Plugged.msa {u : Bool} (hp : Plugged c s l j r o s') (hs : Holds c s (l ++ ⟨u, j⟩ :: r)) :
    s'.memSizeAligned = s.memSizeAligned := by
  have hold := hs.shape.total
  have hnew := hp.holds.shape.total
  rw [total_plug] at hnew
  simp only [total_append, total_cons] at hold
  omega

theorem Realloced.msa (hi : HeapInv c s (l ++ ⟨true, j⟩ :: r)) (h : Realloced c s l j r size q s') :
    s'.memSizeAligned = s.memSizeAligned := by
  cases h with
  | refused _ => rfl
  | same _ _ => rfl
  | freed _ hpl => exact hpl.msa hi.toHolds
  | shrunk hcut hpl =>
    have hle := hcut.le.1
    have hold := hi.shape.total
    have hnew := hpl.holds.shape.total
    rw [total_plug] at hnew
    simp only [total_append, total_cons, total_nil] at hold hnew
    omega
  | moved h0 hbs ht hcopy hi₂ hbs₂ hl₂ hpl =>
    subst hcopy
    rw [hpl.msa hi₂.toHolds]
    exact ht.msa (hbs ▸ hi.toHolds)

/-- A heap with a live pointer can hold one smallest block. -/
theorem Client.Reach.room (h : Client.Reach c Run.Any k) (hp : p ∈ k.live) :
    c.minSizeAligned ≤ k.heap.memSizeAligned := by
  have hall : k.live ≠ [] → c.minSizeAligned ≤ k.heap.memSizeAligned := by
    refine Run.Reach.inv_of (I := fun k => k.live ≠ [] → c.minSizeAligned ≤ k.heap.memSizeAligned)
      (J := fun k => ∃ bs, ClientInv c k bs) (fun k hk => Client.Reach.inv hk) ?_ ?_ h
    · rintro k ⟨m, b, e, -, hlive⟩ hne
      exact absurd hlive hne
    · rintro k a k' hI ⟨bs, hi⟩ - hst hne
      cases hst with
      | @malloc s s' live size p _ h =>
        rcases rtMalloc_ok hi.toHeapInv h with ⟨rfl, rfl⟩ | ⟨l, j, r, rfl, ht⟩
        · rw [if_pos rfl] at hne
          exact hI hne
        · have hfits := ht.fits
          have htot := hi.shape.total_eq
          have hmin := sizeof_le_request (c := c) size
          rw [Config.minSizeAligned_eq, ht.msa hi.toHolds]
          show c.sizeofStructMem ≤ s.memSizeAligned
          simp only at htot
          omega
      | free hp h =>
        obtain ⟨l, j, r, rfl, rfl⟩ := hi.owns.split hp
        obtain ⟨s₁, h1, h2⟩ := rtFree_ok hi.toHeapInv
        simp only at h h1
        rw [h1, Option.some.injEq] at h
        subst h
        rw [h2.msa hi.toHolds]
        exact hI (List.ne_nil_of_mem hp)
      | realloc hp _ h =>
        obtain ⟨l, j, r, rfl, rfl⟩ := hi.owns.split hp
        rw [Realloced.msa hi.toHeapInv (rtRealloc_ok hi.toHeapInv h)]
        exact hI (List.ne_nil_of_mem hp)
      | write _ => exact hI hne
  exact hall (List.ne_nil_of_mem hp)

theorem Kept.sameArea (hs : Holds c s bs) (hs' : Holds c s' l) (hp : s'.heapPtr = s.heapPtr)
    (hx : (o, j) ∈ blocksAt true 0 bs) (hx' : (o, j) ∈ blocksAt true 0 l) (h : Kept c s s' (o, j)) :
    s.SameArea c s' (s.heapPtr + o + c.sizeofStructMem) := by
  have hend := areaEnd_of_mem hs hx
  have hend' := areaEnd_of_mem hs' hx'
  rw [hp] at hend'
  refine ⟨hend'.trans hend.symm, ?_⟩
  intro i hlo hhi
  rw [hend] at hhi
  exact h i hlo (by simp only; omega)

/-- A live pointer is that of a used block. -/
theorem ClientInv.block (hi : ClientInv c k bs) (hp : p ∈ k.live) :
    ∃ o j, (o, j) ∈ blocksAt true 0 bs ∧ p = k.heap.heapPtr + o + c.sizeofStructMem := by
  obtain ⟨l, j, r, rfl, rfl⟩ := hi.owns.split hp
  exact ⟨total l, j, mem_blocksAt.2 ⟨l, r, rfl, by simp⟩, rfl⟩

/-- `rt_realloc` of another block leaves a block alone. -/
theorem ClientInv.realloc_keeps (hi : ClientInv c k bs) (hq : q ∈ k.live) (hp : p ∈ k.live) (hne : p ≠ q)
    (h : rtRealloc c k.heap q size = some (n, s')) : k.heap.SameArea c s' p := by
  obtain ⟨l, j, r, rfl, rfl⟩ := hi.owns.split hq
  obtain ⟨o, m, hx, rfl⟩ := hi.block hp
  have hother := blocksAt_other hx (by omega)
  obtain ⟨bs', hs', hptr, hx', hkept⟩ := (rtRealloc_ok hi.toHeapInv h).keeps hi.toHeapInv hother
  exact hkept.sameArea hi.toHolds hs' hptr hx hx'

/-- **A call leaves a block alone** that it is not given, unless the program writes there. -/
theorem ClientInv.step_keeps (hi : ClientInv c k bs) (hst : Client.Step c k a k') (hp : p ∈ k.live)
    (hfree : a ≠ .free p) (hrealloc : ∀ size, a ≠ .realloc p size) :
    p ∈ k'.live ∧ k'.heap.areaEnd c p = k.heap.areaEnd c p ∧
      ∀ i, p ≤ i → i < k.heap.areaEnd c p → (∀ m, a = .write m → m i = k.heap.mem i) →
        k'.heap.mem i = k.heap.mem i := by
  obtain ⟨o, m, hx, hpo⟩ := hi.block hp
  cases hst with
  | @malloc s s' live size q _ h =>
    rcases rtMalloc_ok hi.toHeapInv h with ⟨rfl, rfl⟩ | ⟨l, j, r, rfl, ht⟩
    · rw [if_pos rfl]
      exact ⟨hp, rfl, fun _ _ _ _ => rfl⟩
    · obtain ⟨hx', hkept⟩ := ht.keeps hx
      have hsame := hkept.sameArea hi.toHolds ht.holds ht.heapPtr hx hx'
      simp only at hpo
      rw [← hpo] at hsame
      refine ⟨?_, hsame.1, fun i hlo hhi _ => hsame.2 i hlo hhi⟩
      split
      · exact hp
      · exact List.mem_cons_of_mem _ hp
  | @free s s' live q hq h =>
    have hne : p ≠ q := fun he => hfree (congrArg Call.free he.symm)
    obtain ⟨l, j, r, rfl, rfl⟩ := hi.owns.split hq
    obtain ⟨s₁, h1, h2⟩ := rtFree_ok hi.toHeapInv
    simp only at h h1
    rw [h1, Option.some.injEq] at h
    subst h
    simp only at hpo hne
    obtain ⟨hx', hkept⟩ := h2.keeps (blocksAt_other hx (by omega))
    have hsame := hkept.sameArea hi.toHolds h2.holds h2.heapPtr hx hx'
    simp only at hsame
    rw [← hpo] at hsame
    exact ⟨(List.mem_erase_of_ne hne).2 hp, hsame.1, fun i hlo hhi _ => hsame.2 i hlo hhi⟩
  | @realloc s s' live q r size hq _ h =>
    have hne : p ≠ q := fun he => hrealloc size (congrArg (Call.realloc · size) he.symm)
    have hsame := hi.realloc_keeps hq hp hne h
    refine ⟨?_, hsame.1, fun i hlo hhi _ => hsame.2 i hlo hhi⟩
    have hmem := (List.mem_erase_of_ne hne).2 hp
    split
    · exact hmem
    · split
      · exact hp
      · exact List.mem_cons_of_mem _ hmem
  | @write s live m' hm =>
    have hdata := hi.write hm
    refine ⟨hp, ?_, fun i _ _ hsame => hsame m' rfl⟩
    have hend := areaEnd_of_mem hi.toHolds hx
    have hend' := areaEnd_of_mem hdata.toHolds hx
    simp only at hend hend' hpo ⊢
    rw [hpo, hend, hend']

/-- `rt_realloc` of a live pointer returns. -/
theorem Client.Reach.realloc_returns (h : Client.Reach c Run.Any k) (hp : p ∈ k.live) (size : ℕ) :
    ∃ q s', rtRealloc c k.heap p size = some (q, s') := by
  obtain ⟨bs, hi⟩ := h.inv
  obtain ⟨q₁, s₁, hm⟩ := h.malloc_returns (h.room hp) (c.rtAlign size)
  obtain ⟨l, j, r, rfl, rfl⟩ := hi.owns.split hp
  rcases rtRealloc_spec hi.toHeapInv size with ⟨q, s', hr, -⟩ | ⟨-, hnone⟩
  · exact ⟨q, s', hr⟩
  · rw [hm] at hnone
    cases hnone

/-- **The contract of `rt_realloc`**, in every state of every run: the result owns the bytes that were asked for and
begins with the old ones; without a result nothing has changed; and the other blocks hold what they held. -/
theorem realloc_contract (h : Client.Reach c Run.Any k) (hp : p ∈ k.live) (hn : n + c.alignSize - 1 < 2 ^ c.bits) :
    ∃ q s', rtRealloc c k.heap p n = some (q, s') ∧
      (q ≠ rtNull → s'.OwnsBytes c q n (k.live.erase p) ∧
        ∀ i, i < min (k.heap.areaEnd c p - p) n → s'.mem (q + i) = k.heap.mem (p + i)) ∧
      (q = rtNull → 0 < n → s' = k.heap) ∧ ∀ p' ∈ k.live, p' ≠ p → k.heap.SameArea c s' p' := by
  obtain ⟨bs, hi⟩ := h.inv
  obtain ⟨q, s', hr⟩ := h.realloc_returns hp n
  have hround := (Config.rtAlign_bounds hn).1
  refine ⟨q, s', hr, ?_, ?_, fun p' hp' hne => hi.realloc_keeps hp hp' hne hr⟩
  · intro hq
    have hlt : n < 2 ^ c.bits := by
      have hpos := c.alignSize_pos
      omega
    have hstep : Client.Step c k (.realloc p n) ⟨s', if c.rtAlign n = 0 then k.live.erase p
        else if q = rtNull then k.live else q :: k.live.erase p⟩ := .realloc hp hlt hr
    obtain ⟨bs', hi', -⟩ := hi.step hstep
    obtain ⟨l, j, r, rfl, rfl⟩ := hi.owns.split hp
    have hre := rtRealloc_ok hi.toHeapInv hr
    have h0 : c.rtAlign n ≠ 0 := by
      cases hre with
      | refused h0 => exact h0
      | same h0 _ => exact h0
      | freed _ _ => exact absurd rfl hq
      | shrunk hcut _ => exact hcut.1
      | moved h0 => exact h0
    rw [if_neg h0, if_neg hq] at hi'
    obtain ⟨bs₂, o, m, hs₂, hptr, hmem, hqo, hlong, hcopy⟩ := hre.returned hi.toHeapInv hq
    have hwf := hi'.wellFormed
    have hend : s'.areaEnd c q = s'.heapPtr + (o + m) := by
      rw [hqo, ← hptr]
      exact areaEnd_of_mem hs₂ hmem
    obtain ⟨x, -, hqx, hused⟩ := hwf.block q List.mem_cons_self
    have hin := hwf.inside q List.mem_cons_self
    refine ⟨⟨?_, ?_, ⟨hin.1, hin.2.2⟩, (List.pairwise_cons.1 hwf.disjoint).1⟩, ?_⟩
    · rw [hqx, Nat.add_sub_cancel]
      exact hused
    · rw [hend, hqo, hptr]
      omega
    · intro i hlt
      refine hcopy i ?_
      rw [areaEnd_eq hi.toHolds] at hlt
      unfold copied
      split <;> omega
  · intro hq hpos
    obtain ⟨l, j, r, rfl, rfl⟩ := hi.owns.split hp
    cases rtRealloc_ok hi.toHeapInv hr with
    | refused _ => rfl
    | same _ _ => rfl
    | freed h0 _ => omega
    | shrunk _ _ =>
      have hsize := c.sizeof_pos
      exact absurd hq (by unfold rtNull; omega)
    | moved _ _ ht =>
      have hsize := c.sizeof_pos
      have hret := ht.ret
      exact absurd hq (by unfold rtNull; omega)

/-- A block that cannot grow in place is moved: its 8 bytes are the first of the new one. -/
theorem realloc_contract_board : ∃ (k : Client) (q : ℕ) (s' : Heap), k.live = [4112] ∧
    rtRealloc board k.heap 4112 20 = some (q, s') ∧ q = 4136 ∧ s'.OwnsBytes board q 20 [] ∧
    ∀ i, i < min (k.heap.areaEnd board 4112 - 4112) 20 → s'.mem (q + i) = k.heap.mem (4112 + i) := by
  have hrun : (mallocRealloc 160 64 8).map (fun x => (x.2.1, x.2.2.2.1, (rtRealloc board x.2.2.2.2 4112 20).map
      Prod.fst)) = some (4112, 4112, some 4136) := by decide
  obtain ⟨⟨s₀, p, s₁, q, s₂⟩, h, hx⟩ := Option.map_eq_some_iff.1 hrun
  simp only [Prod.mk.injEq] at hx
  obtain ⟨rfl, rfl, hq⟩ := hx
  have hk : Client.Reach board Run.Any ⟨s₂, [4112]⟩ := mallocRealloc_reach h (by decide) (by decide)
    (by decide) rfl (by decide) trivial trivial
  obtain ⟨q, s', hr, hown, -, -⟩ := realloc_contract (n := 20) hk List.mem_cons_self (by decide)
  simp only at hr
  rw [hr, Option.map_some, Option.some.injEq] at hq
  simp only at hq
  subst hq
  obtain ⟨howns, hbytes⟩ := hown (by decide)
  exact ⟨⟨s₂, [4112]⟩, 4136, s', rfl, hr, rfl, howns, hbytes⟩

end RtThread.Mem
