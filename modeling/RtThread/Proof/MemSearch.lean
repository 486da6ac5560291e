import RtThread.Proof.MemContents

/-!
# What `rt_malloc` finds

* `searchFit_spec`: the search finds a block, or there is none from its start on but the last one with no byte to
  spare.
* `malloc_complete`: **`rt_malloc` is complete** but for that one, in every state of every run that cuts blocks in
  place only above `lfree`.
* `malloc_incomplete`: a request for the whole heap fails, and so does one for a block below `lfree`.
-/

namespace RtThread.Mem

open Bytes Layout

variable {c : Config} {k : Client} {s s' : Heap} {bs l r : List Blk} {n p q j o size : ℕ}

/-- What the search returns, from offset `total l` on. -/
theorem searchFit_spec (hn : n ≤ s.memSizeAligned) :
    ∀ fuel (l r : List Blk) (res : Option ℕ), Holds c s (l ++ r) → searchFit c s n fuel (total l) = some res →
      (∀ ptr ∈ res, ∃ j, (ptr, j) ∈ blocksAt false (total l) r ∧ c.sizeofStructMem + n ≤ j ∧
        ptr + n < s.memSizeAligned) ∧
      (res = none → ∀ x ∈ blocksAt false (total l) r, c.sizeofStructMem + n ≤ x.2 → s.memSizeAligned ≤ x.1 + n) := by
  intro fuel
  induction fuel with
  | zero =>
    intro l r res _ h
    cases h
  | succ fuel ih =>
    intro l r res hs h
    have hbd := hs.shape.bound
    have htot := hs.shape.total
    have hpos := c.sizeof_pos
    unfold searchFit at h
    rw [Config.sub_eq (by omega) hn] at h
    split at h
    · rename_i hlt
      rcases r with _ | ⟨⟨u, j⟩, r⟩
      · -- `heap_end` lies behind the last offset that is searched
        rw [List.append_nil] at htot
        omega
      · have hh := hs.shape.hdr
        have hb := hs.shape.size_cons
        have ht := hs.shape.total_eq
        simp only at hb ht
        have hsub : c.sub (total l + j) (total l + c.sizeofStructMem) = j - c.sizeofStructMem := by
          rw [Config.sub_eq (by omega) (by omega)]
          omega
        simp only [Heap.get, Heap.ref, hh.used, hh.next, hsub] at h
        split at h
        · rename_i hfit
          cases h
          have hu : u = false := by
            cases u with
            | false => rfl
            | true => exact absurd hfit.1 (by simp)
          subst hu
          refine ⟨?_, (by simp)⟩
          intro ptr hptr
          rw [Option.mem_some] at hptr
          subst hptr
          refine ⟨j, ?_, by omega, by omega⟩
          rw [blocksAt, if_pos rfl]
          exact List.mem_cons_self
        · rename_i hfit
          have hrest := ih (l ++ [⟨u, j⟩]) r res (by simpa using hs) (by simpa using h)
          simp only [total_append, total_cons, total_nil, Nat.add_zero] at hrest
          constructor
          · intro ptr hptr
            obtain ⟨m, hmem, hm⟩ := hrest.1 ptr hptr
            exact ⟨m, mem_blocksAt_cons.2 (.inr hmem), hm⟩
          · intro hnone x hx hlong
            rcases mem_blocksAt_cons.1 hx with ⟨rfl, hu⟩ | hx
            · simp only at hu hlong
              subst hu
              exact absurd ⟨rfl, by omega⟩ hfit
            · exact hrest.2 hnone x hx hlong
    · rename_i hge
      cases h
      refine ⟨(by simp), ?_⟩
      intro _ x hx _
      have hin := (blocksAt_sorted false (total l) r).2 _ hx
      omega

/-- With `lfree` at the lowest unused block, all unused blocks are searched. -/
theorem Lowest.searched (hlow : Lowest s (l ++ r)) (hs : Holds c s (l ++ r)) (hlf : s.lfree = s.heapPtr + total l)
    {x : ℕ × ℕ} (hx : x ∈ blocksAt false 0 (l ++ r)) : x ∈ blocksAt false (total l) r := by
  have hlen := hs.size_le hx
  have hpos := c.sizeof_pos
  have hle : s.lfree - s.heapPtr ≤ x.1 := hlow.2 x hx
  rw [blocksAt_append, List.mem_append, Nat.zero_add] at hx
  rcases hx with hx | hx
  · have hin := (blocksAt_sorted false 0 l).2 _ hx
    omega
  · exact hx

/-- **When `rt_malloc` fails**: no unused block fits, but one that the search leaves out. -/
theorem rtMalloc_null_iff (hi : HeapInv c s bs) (hlow : Lowest s bs) (h0 : size ≠ 0)
    (hn : request c size ≤ s.memSizeAligned) :
    (∃ s', rtMalloc c s size = some (rtNull, s')) ↔
      ∀ x ∈ blocksAt false 0 bs, c.sizeofStructMem + request c size ≤ x.2 →
        s.memSizeAligned ≤ x.1 + request c size := by
  obtain ⟨l₀, r₀, rfl, hl₀⟩ := hi.lfree_split
  have hoff : s.lfree - s.heapPtr = total l₀ := by omega
  have hsize : ¬c.rtAlign size > s.memSizeAligned := Nat.not_lt.2 (le_trans (le_max_left _ _) hn)
  have hlen := length_le hi.toHolds
  rw [List.length_append] at hlen
  have hends := searchFit_ends hn s.fuel l₀ r₀ hi.toHolds (by omega)
  obtain ⟨res, hres⟩ := Option.ne_none_iff_exists'.1 hends
  obtain ⟨hsome, hnone⟩ := searchFit_spec hn s.fuel l₀ r₀ res hi.toHolds hres
  cases res with
  | none =>
    constructor
    · intro _ x hx hlong
      exact hnone rfl x (hlow.searched hi.toHolds hl₀ hx) hlong
    · intro _
      exact ⟨s, by simp only [rtMalloc, h0, if_false, hsize, request_eq, hoff, hres]⟩
  | some ptr =>
    obtain ⟨m, hmem, hfit, hbefore⟩ := hsome ptr rfl
    constructor
    · rintro ⟨s', h⟩
      obtain ⟨l₂, k, r, rfl, rfl, hk⟩ := searchFit_ok _ l₀ r₀ ptr hi.toHolds hres
      rw [← List.append_assoc] at hi
      rw [← total_append, ← hoff] at hres
      obtain ⟨s₁, h1, -⟩ := rtMalloc_take hi h0 (by omega) hk hres
      rw [h1, Option.some.injEq, Prod.mk.injEq] at h
      have hpos := c.sizeof_pos
      exact absurd h.1 (by unfold rtNull; omega)
    · intro hall
      have hin : (ptr, m) ∈ blocksAt false 0 (l₀ ++ r₀) := by
        rw [blocksAt_append, List.mem_append, Nat.zero_add]
        exact .inr hmem
      have := hall _ hin hfit
      simp only at this
      omega

/-- The blocks that fit, in the layout. -/
theorem Holds.fits_iff (hs : Holds c s bs) :
    (o ∈ offsets 0 bs ∧ s.Fits c n o) ↔ ∃ j, (o, j) ∈ blocksAt false 0 bs ∧ c.sizeofStructMem + n ≤ j := by
  constructor
  · rintro ⟨ho, hu, hroom⟩
    obtain ⟨l, r, rfl, hol⟩ := mem_offsets.1 ho
    rw [Nat.zero_add] at hol
    subst hol
    rcases r with _ | ⟨⟨u, j⟩, r⟩
    · rw [hs.used_offset] at hu
      cases hu
    · have hh := hs.shape.hdr
      have hused : u = false := by
        cases u with
        | false => rfl
        | true => exact absurd (hh.used.symm.trans hu) (by simp)
      subst hused
      have hnext : s.get c (s.ref (total l)) .next = total l + j := hh.next
      exact ⟨j, mem_blocksAt.2 ⟨l, r, rfl, by simp⟩, by omega⟩
  · rintro ⟨j, hmem, hlong⟩
    obtain ⟨l, r, rfl, hol⟩ := mem_blocksAt.1 hmem
    rw [Nat.zero_add] at hol
    subst hol
    have hh := hs.shape.hdr
    have hnext : s.get c (s.ref (total l)) .next = total l + j := hh.next
    exact ⟨mem_offsets.2 ⟨l, _, rfl, by simp⟩, hh.used, by omega⟩

/-- The block that the search leaves out. -/
theorem Holds.fillsLast_iff (hs : Holds c s bs) (hx : (o, j) ∈ blocksAt false 0 bs) (hlong : c.sizeofStructMem + n ≤ j) :
    s.FillsLast c n o ↔ s.memSizeAligned ≤ o + n := by
  obtain ⟨l, r, rfl, hol⟩ := mem_blocksAt.1 hx
  rw [Nat.zero_add] at hol
  subst hol
  have hh := hs.shape.hdr
  have ht := hs.shape.total_eq
  have hnext : s.get c (s.ref (total l)) .next = total l + j := hh.next
  simp only at ht
  unfold Heap.FillsLast
  rw [hnext]
  omega

/-- **`rt_malloc` is complete** just where a block that fits is not the last one with no byte to spare, and the size
is not 0: in every state of every run that cuts blocks in place only above `lfree`. -/
theorem malloc_complete (h : Client.Reach c (CutsAbove c) k) (size : ℕ) (hsize : c.rtAlign size ≤ k.heap.memSizeAligned) :
    ∃ os, k.heap.Walk c os ∧ (k.heap.Complete c os size ↔ k.heap.Findable c os size) := by
  obtain ⟨bs, hi, hlow⟩ := h.lowest
  have hs := hi.toHolds
  refine ⟨offsets 0 bs, hs.walk, ?_⟩
  unfold Heap.Complete Heap.Findable
  have hwanted : c.wanted size = request c size := rfl
  rw [hwanted]
  by_cases hnone : ∀ o ∈ offsets 0 bs, ¬k.heap.Fits c (request c size) o
  · exact ⟨fun _ => .inl hnone, fun _ _ _ => hnone⟩
  obtain ⟨o, ho, hfit⟩ : ∃ o ∈ offsets 0 bs, k.heap.Fits c (request c size) o := by
    by_contra hno
    exact hnone fun o ho hf => hno ⟨o, ho, hf⟩
  obtain ⟨j, hmem, hlong⟩ := hs.fits_iff.1 ⟨ho, hfit⟩
  -- the request is no longer than the heap
  have hn : request c size ≤ k.heap.memSizeAligned := by
    have hin := (blocksAt_sorted false 0 bs).2 _ hmem
    have htot := hs.shape.total
    simp only at hin
    omega
  by_cases h0 : size = 0
  · subst h0
    refine ⟨fun hall => absurd hfit (hall k.heap rfl o ho), ?_⟩
    rintro (hall | ⟨hne, -⟩)
    · exact absurd hall hnone
    · exact absurd rfl hne
  have hnull := rtMalloc_null_iff hi.toHeapInv hlow h0 hn
  constructor
  · intro hall
    right
    refine ⟨h0, ?_⟩
    by_contra hno
    obtain ⟨s', hs'⟩ := hnull.2 fun x hx hlong' => by
      by_contra hbefore
      have hxfit := hs.fits_iff.2 ⟨x.2, hx, hlong'⟩
      exact hno ⟨x.1, hxfit.1, hxfit.2, fun hlast => hbefore ((hs.fillsLast_iff hx hlong').1 hlast)⟩
    exact hnone (hall s' hs')
  · rintro (hall | ⟨-, o', ho', hfit', hlast⟩) s' hs'
    · exact absurd hall hnone
    · obtain ⟨j', hmem', hlong'⟩ := hs.fits_iff.1 ⟨ho', hfit'⟩
      exact absurd ((hs.fillsLast_iff hmem' hlong').2 (hnull.1 ⟨s', hs'⟩ _ hmem' hlong')) hlast

/-- A block of the board's heap is cut in place, with an unused one behind it. -/
theorem malloc_complete_board : ∃ k : Client, k.live = [4112] ∧
    ∃ os, k.heap.Walk board os ∧ (k.heap.Complete board os 24 ↔ k.heap.Findable board os 24) := by
  have hrun : (mallocRealloc 160 64 8).map (fun x => (x.2.1, x.2.2.2.1, x.2.2.1.lfree,
      x.2.2.1.areaEnd board 4112, x.2.2.1.get board 4176 .used, x.2.2.2.2.memSizeAligned)) =
      some (4112, 4112, 4176, 4176, 0, 128) := by decide
  obtain ⟨⟨s₀, p, s₁, q, s₂⟩, h, hx⟩ := Option.map_eq_some_iff.1 hrun
  simp only [Prod.mk.injEq] at hx
  obtain ⟨rfl, rfl, hlf, hend, hu, hmsa⟩ := hx
  have hround : board.rtAlign 24 ≤ 128 := by decide
  refine ⟨⟨s₂, [4112]⟩, rfl, malloc_complete (mallocRealloc_reach h (by decide) (by decide)
    (by decide) rfl (by decide) trivial fun _ => .inr ⟨?_, ?_⟩) 24 (by simp only [hmsa]; exact hround)⟩
  · exact hlf.trans hend.symm
  · simp only [hend]
    exact hu

/-- **A block that fits is not found**: the whole of a fresh heap, and an unused block below `lfree`. -/
theorem malloc_incomplete :
    (∃ k, Client.Reach board Run.Any k ∧ k.live = [] ∧ ∀ os, k.heap.Walk board os → ¬k.heap.Complete board os 64) ∧
    ∃ k, Client.Reach board Run.Any k ∧ k.live = [4112] ∧ ∀ os, k.heap.Walk board os → ¬k.heap.Complete board os 8 := by
  have hsz : board.sizeofStructMem = 16 := by decide
  constructor
  · have hrun : (rtSystemHeapInit board (fun _ => 0) 4096 4192).map (fun s => ([s.heapPtr, s.get board 4096 .used,
        s.get board 4096 .next], (rtMalloc board s 64).map Prod.fst)) = some ([4096, 0, 80], some rtNull) := by
      decide
    obtain ⟨s, h, hx⟩ := Option.map_eq_some_iff.1 hrun
    simp only [Prod.mk.injEq, List.cons.injEq, and_true] at hx
    obtain ⟨⟨hptr, hu, hnext⟩, hnull⟩ := hx
    obtain ⟨⟨q, s'⟩, hq, rfl⟩ := Option.map_eq_some_iff.1 hnull
    refine ⟨⟨s, []⟩, .init ⟨_, _, _, h, rfl⟩, rfl, ?_⟩
    intro os hwalk hall
    have hw : board.wanted 64 = 64 := by decide
    have href : s.ref 0 = 4096 := hptr
    refine hall s' hq 0 (List.mem_of_mem_head? hwalk.head) ⟨?_, ?_⟩
    · rw [href]
      exact hu
    · rw [href, hsz, hw, hnext]
  · have hrun : (mallocRealloc 96 40 8).map (fun x => ([x.2.1, x.2.2.2.1, x.2.2.2.2.heapPtr,
        x.2.2.2.2.memSizeAligned, x.2.2.2.2.get board 4096 .next, x.2.2.2.2.get board 4120 .used,
        x.2.2.2.2.get board 4120 .next], (rtMalloc board x.2.2.2.2 8).map Prod.fst)) =
        some ([4112, 4112, 4096, 64, 24, 0, 80], some rtNull) := by
      decide
    obtain ⟨⟨s₀, p, s₁, q, s₂⟩, h, hx⟩ := Option.map_eq_some_iff.1 hrun
    simp only [Prod.mk.injEq, List.cons.injEq, and_true] at hx
    obtain ⟨⟨rfl, rfl, hptr, hmsa, hnext, hu, hend⟩, hnull⟩ := hx
    obtain ⟨⟨q, s'⟩, hq, rfl⟩ := Option.map_eq_some_iff.1 hnull
    refine ⟨⟨s₂, [4112]⟩, mallocRealloc_reach h (by decide) (by decide) (by decide) rfl (by decide) trivial
      trivial, rfl, ?_⟩
    intro os hwalk hall
    have hw : board.wanted 8 = 16 := by decide
    -- the walk goes from 0 to 24
    obtain ⟨os, rfl⟩ : ∃ os', os = 0 :: os' := List.head?_eq_some_iff.1 hwalk.head
    have hlast := hwalk.last
    rcases os with _ | ⟨o, os⟩
    · simp [hmsa, hsz] at hlast
    have ho : o = 24 := by
      have hchain := (List.isChain_cons.1 hwalk.next).1 o rfl
      unfold Heap.Next Heap.ref at hchain
      simp only [hptr, Nat.add_zero, hnext] at hchain
      exact hchain.symm
    subst ho
    have href : s₂.ref 24 = 4120 := by rw [Heap.ref, hptr]
    refine hall s' hq 24 (by simp) ⟨?_, ?_⟩
    · simp only [href]
      exact hu
    · simp only [href, hsz, hw, hend]
      omega

end RtThread.Mem
