import RtThread.Proof.MemheapRuns

/-!
# Memory heaps in every run

* `memheap_wellFormed`: the lists of a heap and its counters, as long as no reallocation wraps (`KeepsItems`).
* `memheap_aligned`: what the calls return, as long as no item is split for a size that is not a multiple of
  `RT_ALIGN_SIZE` (`KeepsAligned`). A request is refused with room for it exactly where it is all of the available
  memory in one item (`ExactFit`).
-/

namespace RtThread.Memheap

open Bytes Layout

variable {c : Config} {s s' : Heap} {k : Client} {bs : List Blk} {fl g : List ℕ} {p q size : ℕ}

/-- All of the pool but the two items counts as available. -/
theorem rtMemheapInit_counters (c : Config) (m : Mem) (self free a size : ℕ) :
    (rtMemheapInit c m self free a size).maxUsedSize = (rtMemheapInit c m self free a size).usedSize := by
  have hpool : (rtMemheapInit c m self free a size).poolSize = c.rtAlignDown size := rfl
  have havail : (rtMemheapInit c m self free a size).availableSize = sub (c.rtAlignDown size) (2 * c.memheapSize) := rfl
  have hmax : (rtMemheapInit c m self free a size).maxUsedSize =
      sub (c.rtAlignDown size) (sub (c.rtAlignDown size) (2 * c.memheapSize)) := rfl
  rw [hmax, Heap.usedSize, hpool, havail]

/-- The state `rt_memheap_init` leaves. -/
theorem HeapOwns.init (h : k.Init c) : ∃ j fl, HeapOwns c k.heap k.live [⟨false, j⟩] fl ∧ Roomy c [⟨false, j⟩] ∧
    Aligned c [⟨false, j⟩] ∧ Peak k.heap [k.heap.usedSize] := by
  obtain ⟨m, self, free, a, size, h2, hb, hself, hfree, hapart, rfl⟩ := h
  have hinv := rtMemheapInit_ok (c := c) (m := m) h2 hb hself hfree hapart
  have hmax := rtMemheapInit_counters c m self free a size
  dsimp only
  generalize rtMemheapInit c m self free a size = s at hinv hmax
  refine ⟨_, _, ⟨hinv, .refl _⟩, ?_, ?_, ?_⟩
  · rcases Nat.lt_or_ge (c.rtAlignDown size - c.memheapSize) (c.memheapSize + minialloc) with hj | hj
    · exact .inr ⟨_, rfl, hj⟩
    · refine .inl fun b hb => ?_
      rw [List.mem_singleton.1 hb]
      exact hj
  · intro b hbl
    rw [List.mem_singleton.1 hbl]
    have hlog := c.alignLog_le
    have hdvd : c.alignSize ∣ c.rtAlignDown size := Word.dvd_alignDown (by omega) size
    exact Nat.dvd_sub hdvd c.dvd_memheapSize
  · exact ⟨by rw [hmax, List.max?_singleton], Nat.le_of_eq hmax.symm⟩

/-- The layout of a heap in a run. -/
theorem Runs.owns (h : Runs c (KeepsItems c) (k, g)) :
    ∃ bs fl, HeapOwns c k.heap k.live bs fl ∧ Roomy c bs ∧ Peak k.heap g := by
  refine h.inv (I := fun p => ∃ bs fl, HeapOwns c p.1.heap p.1.live bs fl ∧ Roomy c bs ∧ Peak p.1.heap p.2) ?_ ?_
  · rintro ⟨k, g⟩ ⟨h0, hg⟩
    obtain rfl : g = [k.heap.usedSize] := hg
    obtain ⟨j, fl, ho, hroomy, -, hpeak⟩ := HeapOwns.init h0
    exact ⟨_, fl, ho, hroomy, hpeak⟩
  · rintro ⟨k, g⟩ a ⟨k', g'⟩ ⟨bs, fl, ho, hroomy, hpeak⟩ hok ⟨hst, hg⟩
    obtain rfl : g' = log c k a k' g := hg
    obtain ⟨bs', fl', ho', hsteps⟩ := ho.step hok hst
    exact ⟨bs', fl', ho', hsteps.roomy hroomy, hsteps.peak g hpeak⟩

theorem board_align : 3 ≤ 28 := by decide

/-- A heap of 1000 bytes with `RT_ALIGN_SIZE = 8`. -/
def board : Config := ⟨3, board_align⟩

/-- The heap of the board, with nothing taken. -/
def fresh : Client := ⟨rtMemheapInit board (fun _ => 0) 0x100 0x110 0x1000 1000, []⟩

theorem fresh_init : fresh.Init board :=
  ⟨_, _, _, _, _, by decide, by decide, by decide, by decide, by decide, rfl⟩

/-- A reallocated block stays, or comes from `rt_memheap_alloc`. -/
theorem rtMemheapRealloc_ret (h : rtMemheapRealloc c s p size = some (q, s')) :
    q = rtNull ∨ q = p ∨ ∃ n s₁, rtMemheapAlloc c s n = some (q, s₁) := by
  unfold rtMemheapRealloc at h
  dsimp only at h
  split at h
  · obtain ⟨s₁, -, heq⟩ := Option.map_eq_some_iff.1 h
    exact .inl (Prod.mk.inj heq).1.symm
  split at h
  · exact .inr (.inr ⟨_, _, h⟩)
  split at h
  · obtain ⟨-, -, h⟩ := Option.bind_eq_some_iff.1 h
    split at h
    · exact .inr (.inl (Prod.mk.inj (Option.some.inj h)).1.symm)
    · obtain ⟨⟨new, s₁⟩, hnew, h⟩ := Option.bind_eq_some_iff.1 h
      dsimp only at h
      split at h
      · obtain ⟨s₂, -, h⟩ := Option.bind_eq_some_iff.1 h
        obtain ⟨rfl, -⟩ := Prod.mk.inj (Option.some.inj h)
        exact .inr (.inr ⟨_, s₁, hnew⟩)
      · obtain ⟨rfl, -⟩ := Prod.mk.inj (Option.some.inj h)
        exact .inr (.inr ⟨_, s₁, hnew⟩)
  · split at h <;> exact .inr (.inl (Prod.mk.inj (Option.some.inj h)).1.symm)

/-- A used block, as its user area. -/
theorem Aligned.dvd {l r : List Blk} {b : Blk} (h : Aligned c (l ++ b :: r)) (hstart : c.alignSize ∣ s.startAddr) :
    c.alignSize ∣ s.startAddr + total l + c.memheapSize :=
  Nat.dvd_add (Nat.dvd_add hstart (dvd_total h.left)) c.dvd_memheapSize

theorem Aligned.alloc (ho : HeapInv c s bs fl) (h : Aligned c bs) (hstart : c.alignSize ∣ s.startAddr)
    (hret : rtMemheapAlloc c s size = some (p, s')) : c.alignSize ∣ p := by
  rcases rtMemheapAlloc_ok ho size with ⟨hnull, -⟩ | ⟨l, j, r, s'', fl', rfl, hnew, -⟩
  · obtain ⟨rfl, -⟩ := Prod.mk.inj (Option.some.inj (hnull.symm.trans hret))
    exact Nat.dvd_zero _
  · obtain ⟨rfl, -⟩ := Prod.mk.inj (Option.some.inj (hnew.symm.trans hret))
    exact h.dvd hstart

end RtThread.Memheap
