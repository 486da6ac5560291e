import RtThread.Proof.MemRuns

/-!
# The accounts of the allocator

* `heap_accounting`: **`used_mem` is the sum of the used blocks**, in every state of every run, and `max_mem`
  is the greatest value it had after an `rt_malloc`.
-/

namespace RtThread.Mem

open Bytes Layout

variable {c : Config} {k k' : Client} {s s' : Heap} {bs l : List Blk} {p q size mem : ℕ} {a : Call}

/-! ## `used_mem` -/

/-- The used bytes of a layout, as a walk meets them. -/
theorem usedBytes_eq (hs : Holds c s (l ++ bs)) : s.usedBytes c (offsets (total l) bs) = usedTotal bs := by
  induction bs generalizing l with
  | nil => rfl
  | cons b bs ih =>
    have hu := hs.used_offset
    have htail := ih (l := l ++ [b]) (by simpa using hs)
    rw [total_append, total_cons, total_nil, Nat.add_zero] at htail
    obtain ⟨os, hos⟩ : ∃ os, offsets (total l + b.size) bs = (total l + b.size) :: os := by
      cases bs <;> exact ⟨_, rfl⟩
    rw [offsets, usedTotal, ← htail, hos, Heap.usedBytes, hu, Nat.add_sub_cancel_left]
    cases hb : b.used <;> simp [hb]

/-! ## `max_mem` -/

theorem carve_max (s : Heap) (size ptr : ℕ) :
    (carve c s size ptr).maxMem = max s.maxMem (carve c s size ptr).usedMem := by
  unfold carve
  simp only [newMem2_eq, linkBack_eq]
  split <;> rfl

/-- **`rt_malloc`** keeps `max_mem` the greatest. -/
theorem rtMalloc_max (h : rtMalloc c s size = some (p, s')) :
    s'.maxMem = if p = rtNull then s.maxMem else max s.maxMem s'.usedMem := by
  unfold rtMalloc at h
  simp only [request_eq] at h
  split at h
  · cases h
    rfl
  split at h
  · cases h
    rfl
  split at h
  · cases h
  · cases h
    rfl
  · rename_i ptr _
    simp only [Option.bind_eq_bind, Option.bind_eq_some_iff, Option.pure_def, Option.some.injEq,
      Prod.mk.injEq] at h
    obtain ⟨lfree, -, -, -, -, -, -, -, rfl, rfl⟩ := h
    have hpos := c.sizeof_pos
    have hne : s.ref ptr + c.sizeofStructMem ≠ rtNull := by
      unfold rtNull
      omega
    exact (carve_max s (request c size) ptr).trans (if_neg hne).symm

theorem plugHoles_counters (h : plugHoles c s mem = some s') : s'.maxMem = s.maxMem := by
  unfold plugHoles at h
  simp only [Option.bind_eq_bind, Option.bind_eq_some_iff, Option.pure_def, Option.some.injEq] at h
  obtain ⟨-, -, -, -, -, -, rfl⟩ := h
  have hf : (plugForward c s mem).maxMem = s.maxMem := by
    unfold plugForward
    simp only
    split <;> [split; skip] <;> rfl
  rw [← hf]
  unfold plugBackward
  simp only
  split <;> [split; skip] <;> rfl

theorem rtFree_max (h : rtFree c s p = some s') : s'.maxMem = s.maxMem := by
  unfold rtFree at h
  split at h
  · cases h
    rfl
  simp only [Option.bind_eq_bind, Option.bind_eq_some_iff] at h
  obtain ⟨-, -, -, -, -, -, -, -, h⟩ := h
  rw [plugHoles_counters h]
  simp only
  split <;> rfl

theorem shrink_max {ptr newsize : ℕ} (h : shrink c s ptr size newsize = some s') : s'.maxMem = s.maxMem := by
  unfold shrink at h
  simp only [newMem2_eq, linkBack_eq] at h
  rw [plugHoles_counters h]

/-- `max_mem` behind a call, by what `used_mem` has reached in it. -/
theorem step_max (hi : ClientInv c k bs) (hst : Client.Step c k a k') :
    k'.heap.maxMem = ((k.heap.reached c a).toList).foldr max k.heap.maxMem := by
  cases hst with
  | @malloc s s' live size p _ h =>
    show s'.maxMem = _
    rw [rtMalloc_max h]
    unfold Heap.reached Heap.mallocs
    simp only [Option.bind_some, h]
    split <;> simp [max_comm]
  | free hp h => exact rtFree_max h
  | write hm => rfl
  | @realloc s s' live p q size hp _ h =>
    obtain ⟨l, j, r, rfl, rfl⟩ := hi.owns.split hp
    have hsh := hi.shape
    have hb := hsh.size_cons
    have htot := hsh.total_eq
    have hbd := hsh.bound
    have hend := hi.heapEnd
    have hpos := c.sizeof_pos
    have hroom := hi.room ⟨true, j⟩ (by simp) rfl
    simp only at hb htot hbd hend hroom
    have hsize : c.sub (c.sub (total l + j) (s.heapPtr + total l - s.heapPtr)) c.sizeofStructMem =
        j - c.sizeofStructMem := by
      rw [Nat.add_sub_cancel_left, Config.sub_eq (a := total l + j) (by omega) (by omega),
        Config.sub_eq (by omega) (by omega)]
      omega
    have harea : s.areaEnd c (s.heapPtr + total l + c.sizeofStructMem) -
        (s.heapPtr + total l + c.sizeofStructMem) = j - c.sizeofStructMem := by
      rw [areaEnd_eq hi.toHolds]
      show s.heapPtr + (total l + j) - _ = _
      omega
    unfold Heap.reached Heap.mallocs
    simp only [harea]
    unfold rtRealloc at h
    simp only at h
    split at h
    · rename_i hmax
      cases h
      rw [if_pos (.inl hmax)]
      rfl
    split at h
    · rename_i h0
      obtain ⟨s₁, h₁, he⟩ := Option.map_eq_some_iff.1 h
      cases he
      rw [if_pos (.inr (.inl h0))]
      exact rtFree_max h₁
    rename_i hmax h0
    rw [if_neg (by unfold rtNull; omega), if_neg (by omega)] at h
    simp only [Nat.add_sub_cancel, Heap.get, hsh.hdr.next, hsize] at h
    split at h
    · rename_i hsame
      cases h
      rw [if_pos (.inr (.inr (.inl hsame)))]
      rfl
    split at h
    · rename_i hcut
      obtain ⟨s₁, h₁, he⟩ := Option.map_eq_some_iff.1 h
      cases he
      rw [if_pos (.inr (.inr (.inr hcut)))]
      exact shrink_max h₁
    · rename_i hsame hcut
      rw [if_neg (by tauto)]
      simp only [Option.bind_eq_bind, Option.bind_eq_some_iff] at h
      obtain ⟨⟨q', s₁⟩, h₁, h⟩ := h
      have hm := rtMalloc_max h₁
      simp only [Option.bind_some, h₁]
      by_cases hq : q' = rtNull
      · simp only [hq, ne_eq, not_true_eq_false, if_false, Option.pure_def, Option.some.injEq, Prod.mk.injEq] at h
        rw [if_pos hq] at hm ⊢
        show s'.maxMem = _
        rw [← h.2, hm]
        rfl
      · simp only [hq, ne_eq, not_false_eq_true, if_true, Option.bind_eq_some_iff, Option.pure_def,
          Option.some.injEq, Prod.mk.injEq] at h
        obtain ⟨s₂, h₂, -, rfl⟩ := h
        rw [if_neg hq] at hm ⊢
        show s₂.maxMem = _
        rw [rtFree_max h₂]
        show s₁.maxMem = _
        rw [hm]
        simp [max_comm]

/-! ## Runs -/

/-- **The accounts of the heap** in every state of every run: `used_mem` is the sum of the used blocks, a block
that is given back is part of it, and `max_mem` is the greatest value after an `rt_malloc`. -/
theorem heap_accounting {r : Client × List ℕ} (h : Client.Accounts c r) :
    ∃ os, r.1.heap.Walk c os ∧ r.1.heap.usedMem = r.1.heap.usedBytes c os ∧
      (∀ p ∈ r.1.live, r.1.heap.areaEnd c p - (p - c.sizeofStructMem) ≤ r.1.heap.usedMem) ∧
      r.1.heap.maxMem = r.2.foldr max 0 := by
  have hI : (∃ bs, ClientInv c r.1 bs ∧ Counted r.1.heap bs) ∧ r.1.heap.maxMem = r.2.foldr max 0 := by
    refine h.inv (I := fun r => (∃ bs, ClientInv c r.1 bs ∧ Counted r.1.heap bs) ∧
      r.1.heap.maxMem = r.2.foldr max 0) ?_ ?_
    · rintro ⟨k, g⟩ ⟨h0, rfl⟩
      obtain ⟨bs, hi, -, hc, hm⟩ := ClientInv.init h0
      exact ⟨⟨bs, hi, hc⟩, hm⟩
    · rintro ⟨k, g⟩ a ⟨k', g'⟩ ⟨⟨bs, hi, hc⟩, hm⟩ - ⟨hst, hg⟩
      obtain rfl : g' = (k.heap.reached c a).toList ++ g := hg
      obtain ⟨bs', hi', -, hc'⟩ := hi.step hst
      refine ⟨⟨bs', hi', hc' hc⟩, ?_⟩
      show k'.heap.maxMem = _
      rw [step_max hi hst, List.foldr_append, show k.heap.maxMem = g.foldr max 0 from hm]
  obtain ⟨⟨bs, hi, hc⟩, hm⟩ := hI
  refine ⟨offsets 0 bs, hi.toHolds.walk, ?_, fun p hp => ?_, hm⟩
  · rw [show offsets 0 bs = offsets (total []) bs from rfl, usedBytes_eq (l := []) hi.toHolds]
    exact hc
  · obtain ⟨l, j, r', rfl, rfl⟩ := hi.owns.split hp
    rw [areaEnd_eq hi.toHolds, Nat.add_sub_cancel, hc, usedTotal_mid]
    simp only [if_true]
    omega

/-- The accounts of the board's heap, with a block that has been cut in place. -/
theorem heap_accounting_board : ∃ (k : Client) (g : List ℕ), k.live = [4112] ∧
    ∃ os, k.heap.Walk board os ∧ k.heap.usedMem = k.heap.usedBytes board os ∧
      (∀ p ∈ k.live, k.heap.areaEnd board p - (p - board.sizeofStructMem) ≤ k.heap.usedMem) ∧
      k.heap.maxMem = g.foldr max 0 := by
  have hrun : (mallocRealloc 96 40 8).map (fun x => (x.2.1, x.2.2.2.1)) = some (4112, 4112) := by
    decide
  obtain ⟨⟨s₀, p, s₁, q, s₂⟩, h, hx⟩ := Option.map_eq_some_iff.1 hrun
  obtain ⟨rfl, rfl⟩ := Prod.mk.inj hx
  have hk : Client.Reach board Run.Any ⟨s₂, [4112]⟩ := mallocRealloc_reach h (by decide) (by decide)
    (by decide) rfl (by decide) trivial trivial
  obtain ⟨g, hg⟩ := (Run.Reach.logged (fun _ => []) fun k a _ g => (k.heap.reached board a).toList ++ g).1 hk
  exact ⟨_, g, rfl, heap_accounting hg⟩

end RtThread.Mem
