import Mathlib.Data.List.Find
import RtThread.Proof.FinshBlocks

/-!
# The FinSH heap stays well-formed

* `Blocks`: the lists are in order, tile the array and leave its last byte free.
* `blocks_free`, `blocks_gc`, `blocks_take`: what the parts of a call leave of such lists.
* `blocks_allocate`, `blocks_allocateAgain`: **the heap is first fit on lists of ranges.**
* `finshHeap_wellFormed`: the heap stays well-formed, and a pointer owns what has been asked for.
-/

namespace RtThread.FinshHeap

open FreeList Bytes

variable {s s' s'' : State} {l as bs : List Range} {r b c : Range} {x y a i n k heap : ℕ} {v h : Option ℕ} {w : Which}
  {L L' : List ℕ}

namespace State

/-! ## The lists of a heap -/

theorem spaced_of {l : List Range} (hl : l.Pairwise fun r t => r.hi ≤ t.lo) (hlarge : ∀ r ∈ l, headerSize ≤ r.len) :
    Spaced l := by
  refine hl.imp_of_mem fun hr _ hrt => ?_
  have := hlarge _ hr
  unfold Range.hi at hrt
  omega

/-- The lists are in order and tile the array. -/
structure Tiled (heap : ℕ) (s : State) (free used : List Range) : Prop where
  array : 0 < heap ∧ heap + FINSH_HEAP_MAX ≤ 2 ^ 32
  freeLists : s.Lists s.freeList free
  usedLists : s.Lists s.allocateList used
  ascending : free.Pairwise fun r t => r.hi ≤ t.lo
  ordered : used.Pairwise fun r t => r.hi ≤ t.lo
  large : ∀ r ∈ free ++ used, headerSize ≤ r.len
  tiles : Partition ⟨heap, FINSH_HEAP_MAX⟩ (free ++ used)

/-- **And no two free blocks meet**, and the last byte is free. -/
structure Blocks (heap : ℕ) (s : State) (free used : List Range) : Prop extends Tiled heap s free used where
  coalesced : Coalesced free
  top : 0 < cover (heap + (FINSH_HEAP_MAX - 1)) free

variable {free used : List Range} {t : Range}

namespace Tiled

theorem pos (hb : Tiled heap s free used) (hr : r ∈ free ++ used) : 0 < r.len := by
  have := hb.large r hr
  unfold headerSize at this
  omega

theorem within (hb : Tiled heap s free used) (hr : r ∈ free ++ used) :
    heap ≤ r.lo ∧ r.hi ≤ heap + FINSH_HEAP_MAX := hb.tiles.within hr (hb.pos hr)

/-- Two blocks are the same, or apart. -/
theorem eq_or_apart (hb : Tiled heap s free used) (hr : r ∈ free ++ used) (ht : t ∈ free ++ used) :
    r = t ∨ r.hi ≤ t.lo ∨ t.hi ≤ r.lo := by
  by_contra hnot
  rw [not_or] at hnot
  obtain ⟨hne, hmeet⟩ := hnot
  have hrpos := hb.pos hr
  have htpos := hb.pos ht
  obtain ⟨l₁, l₂, heq⟩ := List.append_of_mem hr
  have htmem : t ∈ l₁ ++ l₂ := by
    rw [heq] at ht
    rcases List.mem_append.1 ht with ht | ht
    · exact List.mem_append_left _ ht
    · exact List.mem_append_right _ (List.mem_of_ne_of_mem (Ne.symm hne) ht)
  -- a byte of both
  have hboth : r.Has (max r.lo t.lo) ∧ t.Has (max r.lo t.lo) := by
    unfold Range.Has Range.hi at *
    omega
  have htwo := hb.tiles (max r.lo t.lo)
  have hone := Range.count_le (r := ⟨heap, FINSH_HEAP_MAX⟩) (p := max r.lo t.lo)
  have hr1 : 0 < r.count (max r.lo t.lo) := Range.count_pos.2 hboth.1
  have ht1 : 0 < cover (max r.lo t.lo) (l₁ ++ l₂) := cover_pos.2 ⟨t, htmem, hboth.2⟩
  rw [heq] at htwo
  rw [cover_append] at ht1
  rw [cover_append, cover_cons] at htwo
  omega

theorem inMemory (hb : Tiled heap s free used) {l : List Range} (hl : l ⊆ free ++ used) : InMemory l := by
  intro r hr
  obtain ⟨h₁, h₂⟩ := hb.within (hl hr)
  have := hb.pos (hl hr)
  have := hb.array
  unfold Range.hi at h₂
  omega

theorem hi_le (hb : Tiled heap s free used) (hr : r ∈ free ++ used) : r.hi ≤ 2 ^ 32 :=
  Nat.le_trans (hb.within hr).2 hb.array.2

/-- A walk along a list comes to its end. -/
theorem length_free (hb : Tiled heap s free used) : free.length < rounds :=
  Nat.lt_succ_of_le (hb.tiles.length_le (List.subset_append_left _ _) (fun _ hr => hb.pos (List.mem_append_left _ hr)) hb.ascending)

theorem length_used (hb : Tiled heap s free used) : used.length < rounds :=
  Nat.lt_succ_of_le (hb.tiles.length_le (List.subset_append_right _ _)
    (fun _ hr => hb.pos (List.mem_append_right _ hr)) hb.ordered)

end Tiled

theorem Blocks.wellFormed (hb : Blocks heap s free used) : s.WellFormed heap :=
  ⟨free, used, hb.freeLists, hb.usedLists, hb.coalesced, hb.ordered,
    fun _ hr => hb.pos (List.mem_append_right _ hr), hb.tiles⟩

/-- The bytes of blocks are as they were. -/
def Keeps (s s' : State) (l : List Range) : Prop :=
  ∀ r ∈ l, ∀ i, r.lo + headerSize ≤ i → i < r.hi → s'.mem i = s.mem i

theorem Keeps.trans (h : Keeps s s' l) (h' : Keeps s' s'' l) : Keeps s s'' l :=
  fun t ht i h₁ h₂ => (h' t ht i h₁ h₂).trans (h t ht i h₁ h₂)

theorem Keeps.subset {l' : List Range} (h : Keeps s s' l) (hsub : l' ⊆ l) : Keeps s s' l' :=
  fun _ ht => h _ (hsub ht)

/-- Headers are not bytes of blocks. -/
theorem Tiled.keeps (hb : Tiled heap s free used) (ht : Touches s' s'' L)
    (hL : ∀ x ∈ L, ∃ c ∈ free ++ used, x = c.lo) : Keeps s' s'' (free ++ used) := by
  intro r hr i h₁ h₂
  refine ht i fun x hx => ?_
  obtain ⟨c, hc, rfl⟩ := hL x hx
  have hlarge := hb.large c hc
  rcases hb.eq_or_apart hc hr with rfl | h | h
  · exact .inr h₁
  · unfold Range.hi headerSize at *
    omega
  · unfold Range.hi headerSize at *
    omega

theorem Lists.touch (hl : s.Lists h l) (ht : Touches s s' L) (hL : ∀ c ∈ l, ∀ x ∈ L, Apart c.lo x) : s'.Lists h l := by
  refine ⟨Chain.congr (fun x hx => ?_) hl.chain, fun c hc => ?_⟩
  · obtain ⟨c, hc, rfl⟩ := List.mem_map.1 hx
    exact ht.next (hL c hc)
  · rw [ht.length (hL c hc)]
    exact hl.length c hc

/-- A free block and an allocated one. -/
theorem Tiled.disjoint (hb : Tiled heap s free used) (hr : r ∈ free) (ht : t ∈ used) :
    r.hi ≤ t.lo ∨ t.hi ≤ r.lo :=
  hb.tiles.apart (fun _ hb' => hb.pos (List.mem_append_left _ hb')) (hb.pos (List.mem_append_right _ ht)) (fun _ hp => cover_pos.2 ⟨t, ht, hp⟩) r hr

theorem Tiled.apart (hb : Tiled heap s free used) (hr : r ∈ free) (ht : t ∈ used) : Apart r.lo t.lo := by
  have hrl := hb.large r (List.mem_append_left _ hr)
  have htl := hb.large t (List.mem_append_right _ ht)
  have := hb.disjoint hr ht
  unfold Apart
  unfold Range.hi at this
  omega

/-- A block behind those in front of it, and in front of those behind it. -/
theorem pairwise_insert (hl : (as ++ bs).Pairwise fun r t => r.hi ≤ t.lo) (has : ∀ b ∈ as, b.hi ≤ r.lo)
    (hbs : ∀ b ∈ bs, r.hi ≤ b.lo) : (as ++ r :: bs).Pairwise fun r t => r.hi ≤ t.lo := by
  obtain ⟨h₁, h₂, h₃⟩ := List.pairwise_append.1 hl
  refine List.pairwise_append.2 ⟨h₁, List.pairwise_cons.2 ⟨hbs, h₂⟩, fun b hb c hc => ?_⟩
  rcases List.mem_cons.1 hc with rfl | hc
  · exact has b hb
  · exact h₃ b hb c hc

theorem forall_insert {P : Range → Prop} (hl : ∀ c ∈ as ++ bs, P c) (hr : P r) : ∀ c ∈ as ++ r :: bs, P c := by
  intro c hc
  rcases List.mem_append.1 hc with hc | hc
  · exact hl c (List.mem_append_left _ hc)
  · rcases List.mem_cons.1 hc with rfl | hc
    · exact hr
    · exact hl c (List.mem_append_right _ hc)

theorem mem_insert {l : List Range} (hl : as ++ bs ⊆ l) (hr : r ∈ l) : as ++ r :: bs ⊆ l :=
  forall_insert (P := (· ∈ l)) (fun _ hc => hl hc) hr

theorem mem_front (h : c ∈ as ++ [r]) : c ∈ as ++ r :: bs := by
  rcases List.mem_append.1 h with h | h
  · exact List.mem_append_left _ h
  · rw [List.mem_singleton.1 h]
    exact List.mem_append_right _ List.mem_cons_self

theorem wsub_header (hx : x < 2 ^ 32) : Word.wsub 32 (x + headerSize) headerSize = x := by
  unfold Word.wsub headerSize
  omega

/-- **`finsh_heap_free` of a block.** -/
theorem blocks_free (hb : Blocks heap s free (as ++ r :: bs)) :
    ∃ s', s.finshHeapFree (r.lo + headerSize) = some s' ∧ Blocks heap s' (FreeList.insert r free) (as ++ bs) ∧
      Keeps s s' (as ++ bs) := by
  have hru : r ∈ as ++ r :: bs := by simp
  have hr : r ∈ free ++ (as ++ r :: bs) := List.mem_append_right _ hru
  have hrpos := hb.pos hr
  have hrin := hb.within hr
  have hsub : as ++ bs ⊆ as ++ r :: bs :=
    (List.Sublist.append_left (List.sublist_cons_self r bs) as).subset
  have hheader : Word.wsub 32 (r.lo + headerSize) headerSize = r.lo := wsub_header (hb.inMemory (List.Subset.refl _) r hr).2
  -- out of `allocate_list`
  have husedSp : Spaced (as ++ r :: bs) :=
    spaced_of hb.ordered fun c hc => hb.large c (List.mem_append_right _ hc)
  obtain ⟨s₁, hs₁, hused₁, hlists₁, hrel₁⟩ :=
    finshBlockRemove_spec (w := .allocate) hb.usedLists husedSp (hb.inMemory (List.subset_append_right _ _)) hb.length_used
  have hL₁ : ∀ x ∈ (as ++ [r]).map (·.lo), ∃ c ∈ as ++ r :: bs, x = c.lo := by
    intro x hx
    obtain ⟨c, hc, rfl⟩ := List.mem_map.1 hx
    exact ⟨c, mem_front hc, rfl⟩
  have hfree₁ : s₁.Lists (s₁.list .free) free := by
    rw [hlists₁ .free nofun]
    refine hb.freeLists.touch hrel₁.touches fun c hc x hx => ?_
    obtain ⟨d, hd, rfl⟩ := hL₁ x hx
    exact hb.apart hc hd
  have hlen₁ : s₁.length r.lo + headerSize = r.len := by
    rw [hrel₁.length fun y hy => ?_]
    · exact hb.usedLists.length r hru
    · obtain ⟨d, hd, rfl⟩ := hL₁ y hy
      exact husedSp.eq_or_apart hru hd
  -- into `free_list`, in front of the last block
  obtain ⟨fs, gs, rfl, hfs, hgs⟩ := exists_split hb.ascending fun b hbm => hb.disjoint hbm hru
  have hgs0 : gs ≠ [] := by
    rintro rfl
    obtain ⟨t, ht, htop⟩ := cover_pos.1 hb.top
    have := hfs t (by simpa using ht)
    unfold Range.Has Range.hi FINSH_HEAP_MAX at *
    omega
  have hpw : (fs ++ r :: gs).Pairwise fun r t => r.hi ≤ t.lo := pairwise_insert hb.ascending hfs hgs
  have hmem : fs ++ r :: gs ⊆ (fs ++ gs) ++ (as ++ r :: bs) := mem_insert (List.subset_append_left _ _) hr
  have hfreeSp : Spaced (fs ++ r :: gs) := spaced_of hpw fun c hc => hb.large c (hmem hc)
  obtain ⟨s₂, hs₂, hfree₂, hlists₂, hrel₂⟩ :=
    finshBlockInsert_spec (w := .free) hfree₁ hfreeSp (hb.inMemory hmem) hb.length_free hlen₁ fun h => absurd h hgs0
  -- and merged
  have hlength : (fs ++ r :: gs).length < rounds :=
    Nat.lt_succ_of_le (hb.tiles.length_le hmem (fun c hc => hb.pos (hmem hc)) hpw)
  obtain ⟨s₃, hs₃, hfree₃, hlists₃, ht₃⟩ := finshBlockMerge_spec (w := .free) hfree₂ hfreeSp (hb.inMemory hmem) hlength
    (fun c hc => hb.hi_le (hmem hc)) (fun c hc => hb.large c (hmem hc)) hb.coalesced hfs hgs
  have hcoal : Coalesced (FreeList.insert r (fs ++ gs)) :=
    hb.coalesced.insert hrpos fun b hbm => hb.disjoint hbm hru
  have hL₂ : ∀ x ∈ (fs ++ [r]).map (·.lo), ∃ c ∈ fs ++ r :: gs, x = c.lo := by
    intro x hx
    obtain ⟨c, hc, rfl⟩ := List.mem_map.1 hx
    exact ⟨c, mem_front hc, rfl⟩
  have happ : ∀ c ∈ as ++ bs, ∀ x ∈ (fs ++ [r]).map (·.lo), Apart c.lo x := by
    intro c hc x hx
    obtain ⟨d, hd, rfl⟩ := List.mem_map.1 hx
    rcases List.mem_append.1 hd with hd | hd
    · exact (hb.apart (List.mem_append_left _ hd) (hsub hc)).symm
    · rw [List.mem_singleton.1 hd]
      exact husedSp.apart hc
  have hused₃ : s₃.Lists s₃.allocateList (as ++ bs) := by
    have h₁ : s₂.list .allocate = s₁.list .allocate := hlists₂ _ nofun
    have h₂ : s₃.list .allocate = s₂.list .allocate := hlists₃ _
    have h₃ := (hused₁.touch hrel₂.touches happ).touch ht₃ happ
    rw [← h₁, ← h₂] at h₃
    exact h₃
  refine ⟨s₃, ?_, ⟨⟨hb.array, hfree₃, hused₃, hcoal.apart.imp Nat.le_of_lt, ?_, ?_, ?_⟩, hcoal, ?_⟩, ?_⟩
  · rw [finshHeapFree, hheader, hs₁]
    simp only [Option.bind_eq_bind, Option.bind_some]
    rw [hs₂]
    exact hs₃
  · exact hb.ordered.sublist (List.Sublist.append_left (List.sublist_cons_self r bs) as)
  · intro c hc
    rcases List.mem_append.1 hc with hc | hc
    · exact insert_large (fun d hd => hb.large d (List.mem_append_left _ hd)) (hb.large r hr) c hc
    · exact hb.large c (List.mem_append_right _ (hsub hc))
  · intro p
    rw [← hb.tiles, cover_append, cover_insert]
    simp only [cover_append, cover_cons]
    omega
  · rw [cover_insert]
    exact Nat.add_pos_right _ hb.top
  · have hin₁ : ∀ x ∈ (as ++ [r]).map (·.lo), ∃ c ∈ (fs ++ gs) ++ (as ++ r :: bs), x = c.lo := fun x hx => by
      obtain ⟨c, hc, rfl⟩ := hL₁ x hx
      exact ⟨c, List.mem_append_right _ hc, rfl⟩
    have hin₂ : ∀ x ∈ (fs ++ [r]).map (·.lo), ∃ c ∈ (fs ++ gs) ++ (as ++ r :: bs), x = c.lo := fun x hx => by
      obtain ⟨c, hc, rfl⟩ := hL₂ x hx
      exact ⟨c, hmem hc, rfl⟩
    refine Keeps.subset (((hb.keeps hrel₁.touches hin₁).trans (hb.keeps hrel₂.touches hin₂)).trans (hb.keeps ht₃ hin₂)) ?_
    exact fun c hc => List.mem_append_right _ (hsub hc)

theorem referenced_cons {vars : List ℕ} : referenced vars (r :: l) =
    if r.lo + headerSize ∈ vars then r :: referenced vars l else referenced vars l := by
  rw [referenced, List.filter_cons]
  by_cases h : r.lo + headerSize ∈ vars <;> simp [h, referenced]

/-- The loop of `finsh_heap_gc`, of which `as` are the blocks that it has left. -/
theorem blocks_gcLoop (vars : List ℕ) (hb : Blocks heap s free (as ++ bs)) (hk : bs.length < k) :
    ∃ s', gcLoop vars k (bs.map (·.lo)).head? s = some s' ∧
      Blocks heap s' (collect vars bs free) (as ++ referenced vars bs) ∧ Keeps s s' (as ++ referenced vars bs) := by
  induction bs generalizing as free s k with
  | nil =>
    obtain ⟨k, rfl⟩ : ∃ j, k = j + 1 := ⟨k - 1, by omega⟩
    exact ⟨s, rfl, hb, fun _ _ _ _ _ => rfl⟩
  | cons r bs ih =>
    obtain ⟨k, rfl⟩ : ∃ j, k = j + 1 := ⟨k - 1, by omega⟩
    have hchain := hb.usedLists.chain
    rw [List.map_append, List.map_cons] at hchain
    have hnext : s.next r.lo = (bs.map (·.lo)).head? := hchain.next_eq
    have hk' : bs.length < k := Nat.lt_of_succ_lt_succ hk
    rw [referenced_cons, collect, List.map_cons, List.head?_cons, gcLoop]
    by_cases hvar : r.lo + headerSize ∈ vars
    · -- a variable points at the block
      rw [if_pos hvar, if_pos hvar, if_pos hvar, hnext]
      have happ : as ++ r :: bs = (as ++ [r]) ++ bs := by simp
      rw [happ] at hb
      have := ih hb hk'
      rwa [List.append_assoc, List.singleton_append] at this
    · rw [if_neg hvar, if_neg hvar, if_neg hvar, hnext]
      obtain ⟨s₁, hs₁, hb₁, hkeep₁⟩ := blocks_free hb
      obtain ⟨s', hs', hb', hkeep'⟩ := ih hb₁ hk'
      refine ⟨s', ?_, hb', (hkeep₁.subset ?_).trans hkeep'⟩
      · simp only [hs₁, Option.bind_eq_bind, Option.bind_some]
        exact hs'
      · exact ((List.Sublist.refl as).append List.filter_sublist).subset

/-- **`finsh_heap_gc`** leaves what variables point at. -/
theorem blocks_gc (vars : List ℕ) (hb : Blocks heap s free used) :
    ∃ s', s.finshHeapGc vars = some s' ∧ Blocks heap s' (collect vars used free) (referenced vars used) ∧
      Keeps s s' (referenced vars used) := by
  have hb' : Blocks heap s free ([] ++ used) := hb
  have h := blocks_gcLoop vars hb' hb.length_used
  rw [← hb.usedLists.chain.head_eq] at h
  exact h

/-! ## Allocation -/

variable {size : ℕ}

/-- The block that a request takes, and what remains of a free one. -/
def taken (b : Range) (size : ℕ) : Range := ⟨b.lo, headerSize + size⟩

def rest (b : Range) (size : ℕ) : Range := ⟨b.lo + (headerSize + size), b.len - (headerSize + size)⟩

theorem taken_hi : (taken b size).hi = (rest b size).lo := rfl

theorem rest_hi (hsize : headerSize + size ≤ b.len) : (rest b size).hi = b.hi := by
  unfold rest Range.hi
  dsimp only
  omega

/-- **The split of a free block.** -/
theorem finshBlockSplit_spec (hl : s.Lists h (as ++ b :: bs)) (hsp : Spaced (as ++ taken b size :: rest b size :: bs))
    (hm : InMemory (as ++ taken b size :: rest b size :: bs)) (hsize : 2 * headerSize + size ≤ b.len)
    (hlen : b.len < 2 ^ 32) :
    (s.finshBlockSplit b.lo size).Lists h (as ++ taken b size :: rest b size :: bs) ∧
      (∀ w, (s.finshBlockSplit b.lo size).list w = s.list w) ∧
      Touches s (s.finshBlockSplit b.lo size) [(rest b size).lo, b.lo] := by
  have hblen := hl.length b (by simp)
  have hrestm := hm (rest b size) (by simp)
  have hN : wrap (b.lo + headerSize + size) = (rest b size).lo := by
    rw [wrap, Nat.add_assoc]
    exact Nat.mod_eq_of_lt hrestm.2
  have happ : Apart (rest b size).lo b.lo := by
    refine .inr ?_
    unfold rest
    dsimp only
    omega
  have hsub : Word.wsub 32 (Word.wsub 32 (s.length b.lo) headerSize) size + headerSize = (rest b size).len := by
    unfold Word.wsub rest headerSize at *
    dsimp only
    omega
  have hrestlt : Word.wsub 32 (Word.wsub 32 (s.length b.lo) headerSize) size < 2 ^ 32 := Nat.mod_lt _ (by omega)
  have hsizelt : size < 2 ^ 32 := by
    unfold headerSize at hsize
    omega
  have hnext : s.next b.lo = (bs.map (·.lo)).head? := by
    have hchain := hl.chain
    rw [List.map_append, List.map_cons] at hchain
    exact hchain.next_eq
  rw [finshBlockSplit, hN]
  generalize Word.wsub 32 (Word.wsub 32 (s.length b.lo) headerSize) size = m at *
  generalize hs₁ : (s.setLength (rest b size).lo m).setLength b.lo size = s₁
  have hnext₁ : s₁.next b.lo = s.next b.lo := by
    rw [← hs₁, next_setLength (.inl rfl), next_setLength (.inr happ.symm)]
  generalize hs₂ : (s₁.setNext (rest b size).lo (s₁.next b.lo)).setNext b.lo (some (rest b size).lo) = s₂
  have ht₁ : Touches s s₁ [(rest b size).lo, b.lo] := by
    rw [← hs₁]
    exact (touches_setLength (by simp)).trans (touches_setLength (by simp))
  have ht₂ : Touches s s₂ [(rest b size).lo, b.lo] := by
    refine ht₁.trans ?_
    rw [← hs₂]
    exact (touches_setNext (by simp)).trans (touches_setNext (by simp))
  have hnextRest : s₂.next (rest b size).lo = s.next b.lo := by
    rw [← hs₂, next_setNext happ, next_setNext_self fun p hp => ?_, hnext₁]
    rw [hnext₁, hnext] at hp
    obtain ⟨c, hc, rfl⟩ := List.mem_map.1 (List.mem_of_mem_head? hp)
    exact hm c (by simp [hc])
  have hnextTaken : s₂.next b.lo = some (rest b size).lo := by
    rw [← hs₂, next_setNext_self fun p hp => ?_]
    cases hp
    exact hrestm
  have hlenRest : s₂.length (rest b size).lo = m := by
    rw [← hs₂, length_setNext (.inr happ), length_setNext (.inl rfl), ← hs₁, length_setLength happ,
      length_setLength_self hrestlt]
  have hlenTaken : s₂.length b.lo = size := by
    rw [← hs₂, length_setNext (.inl rfl), length_setNext (.inr happ.symm), ← hs₁, length_setLength_self hsizelt]
  -- the other blocks
  have hother : ∀ c ∈ as ++ bs, ∀ x ∈ [(rest b size).lo, b.lo], Apart c.lo x := by
    intro c hc x hx
    have htaken : c ∈ as ++ rest b size :: bs := by
      rcases List.mem_append.1 hc with hc | hc
      · exact List.mem_append_left _ hc
      · exact List.mem_append_right _ (List.mem_cons_of_mem _ hc)
    have hrest : c ∈ (as ++ [taken b size]) ++ bs := by
      rcases List.mem_append.1 hc with hc | hc
      · exact List.mem_append_left _ (List.mem_append_left _ hc)
      · exact List.mem_append_right _ hc
    rcases List.mem_cons.1 hx with rfl | hx
    · have hsp' : Spaced (as ++ [taken b size] ++ rest b size :: bs) := by simpa using hsp
      exact hsp'.apart hrest
    · rw [List.mem_singleton.1 hx]
      exact hsp.apart htaken
  refine ⟨⟨?_, ?_⟩, fun w => ?_, ht₂⟩
  · have hchain := hl.chain
    rw [List.map_append, List.map_cons] at hchain
    rw [List.map_append, List.map_cons, List.map_cons]
    refine hchain.insertAfter hnextTaken hnextRest fun z hz => ?_
    rw [← List.map_append] at hz
    obtain ⟨c, hc, rfl⟩ := List.mem_map.1 hz
    exact ht₂.next (hother c hc)
  · have hlengths : ∀ c ∈ as ++ bs, s₂.length c.lo + headerSize = c.len := by
      intro c hc
      rw [ht₂.length (hother c hc)]
      refine hl.length c ?_
      rcases List.mem_append.1 hc with hc | hc
      · exact List.mem_append_left _ hc
      · exact List.mem_append_right _ (List.mem_cons_of_mem _ hc)
    intro c hc
    rcases List.mem_append.1 hc with hc | hc
    · exact hlengths c (List.mem_append_left _ hc)
    rcases List.mem_cons.1 hc with rfl | hc
    · rw [show (taken b size).lo = b.lo from rfl, hlenTaken, Nat.add_comm]
      rfl
    rcases List.mem_cons.1 hc with rfl | hc
    · rw [hlenRest, hsub]
    · exact hlengths c (List.mem_append_right _ hc)
  · rw [← hs₂, list_setNext, list_setNext, ← hs₁, list_setLength, list_setLength]

/-- `memset` of the bytes of a block changes no header. -/
theorem Lists.clear {data : ℕ} (hl : s.Lists h l) (hs : s.clear heap data size = some s')
    (happ : ∀ c ∈ l, c.lo + headerSize ≤ data ∨ data + size ≤ c.lo) : s'.Lists h l := by
  unfold State.clear at hs
  split at hs
  · cases hs
    have hsame : ∀ c ∈ l, ∀ i, c.lo ≤ i → i < c.lo + 8 → ¬(data ≤ i ∧ i < data + size) := by
      intro c hc i h₁ h₂
      have := happ c hc
      unfold headerSize at this
      omega
    refine ⟨Chain.congr (fun x hx => ?_) hl.chain, fun c hc => ?_⟩
    · obtain ⟨c, hc, rfl⟩ := List.mem_map.1 hx
      exact next_congr fun i h₁ h₂ => if_neg (hsame c hc i (by omega) h₂)
    · rw [length_congr (s := s) fun i h₁ h₂ => if_neg (hsame c hc i h₁ (by omega))]
      exact hl.length c hc
  · cases hs

/-- A free block is split. -/
theorem tiled_split (hb : Tiled heap s (as ++ b :: bs) used) (hsize : 2 * headerSize + size ≤ b.len) :
    Tiled heap (s.finshBlockSplit b.lo size) (as ++ taken b size :: rest b size :: bs) used ∧
      Keeps s (s.finshBlockSplit b.lo size) used := by
  have hbf : b ∈ as ++ b :: bs := by simp
  have hbin := hb.within (List.mem_append_left _ hbf)
  have hrestHi : (rest b size).hi = b.hi := rest_hi (by omega)
  have hrestLo : b.lo ≤ (rest b size).lo := Nat.le_add_right _ _
  have hrestRoom : (rest b size).lo + headerSize ≤ b.hi := by
    unfold rest Range.hi
    dsimp only
    omega
  obtain ⟨-, hpb, hpab⟩ := List.pairwise_append.1 hb.ascending
  have hpb := (List.pairwise_cons.1 hpb).1
  have hold : as ++ bs ⊆ as ++ b :: bs := (List.Sublist.append_left (List.sublist_cons_self b bs) as).subset
  have hpw : (as ++ taken b size :: rest b size :: bs).Pairwise fun r t => r.hi ≤ t.lo := by
    have h₁ : (as ++ bs).Pairwise fun r t => r.hi ≤ t.lo :=
      hb.ascending.sublist (List.Sublist.append_left (List.sublist_cons_self b bs) as)
    refine pairwise_insert (pairwise_insert h₁ (fun c hc => ?_) fun c hc => ?_) (fun c hc => ?_) fun c hc => ?_
    · exact Nat.le_trans (hpab c hc b List.mem_cons_self) hrestLo
    · rw [hrestHi]
      exact hpb c hc
    · exact hpab c hc b List.mem_cons_self
    · rcases List.mem_cons.1 hc with rfl | hc
      · exact Nat.le_refl _
      · rw [taken_hi]
        exact Nat.le_trans (by omega) (hpb c hc)
  have hparts : ∀ c ∈ as ++ taken b size :: rest b size :: bs, headerSize ≤ c.len ∧ heap ≤ c.lo ∧
      c.hi ≤ heap + FINSH_HEAP_MAX := by
    refine forall_insert (forall_insert (fun c hc => ?_) ?_) ?_
    · exact ⟨hb.large c (List.mem_append_left _ (hold hc)), hb.within (List.mem_append_left _ (hold hc))⟩
    · rw [hrestHi]
      refine ⟨?_, Nat.le_trans hbin.1 hrestLo, hbin.2⟩
      unfold rest
      dsimp only
      omega
    · refine ⟨Nat.le_add_right _ _, hbin.1, ?_⟩
      rw [taken_hi]
      omega
  have hsp : Spaced (as ++ taken b size :: rest b size :: bs) := spaced_of hpw fun c hc => (hparts c hc).1
  have harray := hb.array
  have hm : InMemory (as ++ taken b size :: rest b size :: bs) := by
    intro c hc
    have := hparts c hc
    unfold Range.hi headerSize at this
    omega
  have hlenlt : b.len < 2 ^ 32 := by
    unfold Range.hi at hbin
    omega
  obtain ⟨hfree, hlists, ht⟩ := finshBlockSplit_spec hb.freeLists hsp hm hsize hlenlt
  -- the new header stands in the free block
  have happ : ∀ c ∈ used, ∀ x ∈ [(rest b size).lo, b.lo], x + headerSize ≤ c.lo ∨ c.hi ≤ x := by
    intro c hc x hx
    have hbc := hb.disjoint hbf hc
    rcases List.mem_cons.1 hx with rfl | hx
    · omega
    · rw [List.mem_singleton.1 hx]
      have : b.lo + headerSize ≤ b.hi := Nat.add_le_add_left (hb.large b (List.mem_append_left _ hbf)) _
      omega
  have hcl : ∀ c ∈ used, c.lo + headerSize ≤ c.hi := fun c hc =>
    Nat.add_le_add_left (hb.large c (List.mem_append_right _ hc)) _
  have hf : (s.finshBlockSplit b.lo size).freeList = s.freeList := hlists .free
  have ha : (s.finshBlockSplit b.lo size).allocateList = s.allocateList := hlists .allocate
  refine ⟨⟨hb.array, ?_, ?_, hpw, hb.ordered, ?_, fun p => ?_⟩, fun c hc i h₁ h₂ => ht i fun x hx => ?_⟩
  · rw [hf]
    exact hfree
  · rw [ha]
    refine hb.usedLists.touch ht fun c hc x hx => ?_
    have := happ c hc x hx
    have := hcl c hc
    unfold Apart
    omega
  · intro c hc
    rcases List.mem_append.1 hc with hc | hc
    · exact (hparts c hc).1
    · exact hb.large c (List.mem_append_right _ hc)
  · have hcut : b.count p = (taken b size).count p + (rest b size).count p := by
      rw [taken, rest, ← Range.count_add, Nat.add_sub_cancel' (by omega)]
    rw [← hb.tiles]
    simp only [cover_append, cover_cons]
    omega
  · have := happ c hc x hx
    have := hcl c hc
    unfold headerSize at *
    omega

/-- A block moves from `free_list` to `allocate_list`. -/
theorem tiled_acquire (hb : Tiled heap s (as ++ b :: bs) used) :
    ∃ s₁ s₂, s.finshBlockRemove .free b.lo = some s₁ ∧
      (s₁.setNext b.lo none).finshBlockInsert .allocate b.lo = some s₂ ∧
      Tiled heap s₂ (as ++ bs) (place b used) ∧ Keeps s s₂ used := by
  have hbf : b ∈ as ++ b :: bs := by simp
  have hbm : b ∈ (as ++ b :: bs) ++ used := List.mem_append_left _ hbf
  have hsub : as ++ bs ⊆ as ++ b :: bs := (List.Sublist.append_left (List.sublist_cons_self b bs) as).subset
  have hfreeSp : Spaced (as ++ b :: bs) := spaced_of hb.ascending fun c hc => hb.large c (List.mem_append_left _ hc)
  -- out of `free_list`
  obtain ⟨s₁, hs₁, hfree₁, hlists₁, hrel₁⟩ := finshBlockRemove_spec (w := .free) hb.freeLists hfreeSp
    (hb.inMemory (List.subset_append_left _ _)) hb.length_free
  have hL₁ : ∀ x ∈ (as ++ [b]).map (·.lo), ∃ c ∈ as ++ b :: bs, x = c.lo := by
    intro x hx
    obtain ⟨c, hc, rfl⟩ := List.mem_map.1 hx
    exact ⟨c, mem_front hc, rfl⟩
  have hbL : b.lo ∈ (as ++ [b]).map (·.lo) := by simp
  -- the link is cleared
  have hrel : Relinks s (s₁.setNext b.lo none) ((as ++ [b]).map (·.lo)) := hrel₁.setNext hbL
  have hnone : (s₁.setNext b.lo none).next b.lo = none := next_setNext_self nofun
  have hused : (s₁.setNext b.lo none).Lists ((s₁.setNext b.lo none).list .allocate) used := by
    rw [list_setNext, hlists₁ .allocate nofun]
    refine hb.usedLists.touch hrel.touches fun c hc x hx => ?_
    obtain ⟨d, hd, rfl⟩ := hL₁ x hx
    exact (hb.apart hd hc).symm
  have hlen : (s₁.setNext b.lo none).length b.lo + headerSize = b.len := by
    rw [hrel.length fun y hy => ?_]
    · exact hb.freeLists.length b hbf
    · obtain ⟨d, hd, rfl⟩ := hL₁ y hy
      exact hfreeSp.eq_or_apart hbf hd
  -- into `allocate_list`
  obtain ⟨us, vs, rfl, hus, hvs⟩ := exists_split hb.ordered fun c hc => (hb.disjoint hbf hc).symm
  have hpw : (us ++ b :: vs).Pairwise fun r t => r.hi ≤ t.lo := pairwise_insert hb.ordered hus hvs
  have hmem : us ++ b :: vs ⊆ (as ++ b :: bs) ++ (us ++ vs) := mem_insert (List.subset_append_right _ _) hbm
  have husedSp : Spaced (us ++ b :: vs) := spaced_of hpw fun c hc => hb.large c (hmem hc)
  obtain ⟨s₂, hs₂, hused₂, hlists₂, hrel₂⟩ := finshBlockInsert_spec (w := .allocate) hused husedSp
    (hb.inMemory hmem) hb.length_used hlen fun _ => hnone
  have hL₂ : ∀ x ∈ (us ++ [b]).map (·.lo), ∃ c ∈ (as ++ b :: bs) ++ (us ++ vs), x = c.lo := by
    intro x hx
    obtain ⟨c, hc, rfl⟩ := List.mem_map.1 hx
    exact ⟨c, hmem (mem_front hc), rfl⟩
  rw [place_append hus hvs (hb.pos hbm)]
  refine ⟨s₁, s₂, hs₁, hs₂, ⟨hb.array, ?_, hused₂, ?_, hpw, ?_, fun p => ?_⟩, ?_⟩
  · have h₁ : s₂.list .free = (s₁.setNext b.lo none).list .free := hlists₂ .free nofun
    have h₂ : s₂.freeList = s₁.list .free := h₁.trans list_setNext
    rw [h₂]
    refine (hfree₁.touch (touches_setNext (L := [b.lo]) (by simp)) fun c hc x hx => ?_).touch hrel₂.touches
      fun c hc x hx => ?_
    · rw [List.mem_singleton.1 hx]
      exact hfreeSp.apart hc
    · obtain ⟨d, hd, rfl⟩ := List.mem_map.1 hx
      rcases List.mem_append.1 hd with hd | hd
      · exact hb.apart (hsub hc) (List.mem_append_left _ hd)
      · rw [List.mem_singleton.1 hd]
        exact hfreeSp.apart hc
  · exact hb.ascending.sublist (List.Sublist.append_left (List.sublist_cons_self b bs) as)
  · intro c hc
    rcases List.mem_append.1 hc with hc | hc
    · exact hb.large c (List.mem_append_left _ (hsub hc))
    · exact hb.large c (hmem hc)
  · rw [← hb.tiles]
    simp only [cover_append, cover_cons]
    omega
  · have hin₁ : ∀ x ∈ (as ++ [b]).map (·.lo), ∃ c ∈ (as ++ b :: bs) ++ (us ++ vs), x = c.lo := fun x hx => by
      obtain ⟨c, hc, rfl⟩ := hL₁ x hx
      exact ⟨c, List.mem_append_left _ hc, rfl⟩
    exact ((hb.keeps hrel.touches hin₁).trans (hb.keeps hrel₂.touches hL₂)).subset (List.subset_append_right _ _)

/-- `memset` of a block. -/
theorem tiled_clear (hb : Tiled heap s free used) (hbu : b ∈ used) (hlen : b.len = headerSize + size) :
    ∃ s', s.clear heap (b.lo + headerSize) size = some s' ∧ Tiled heap s' free used ∧
      (∀ c ∈ used, c ≠ b → Keeps s s' [c]) ∧ ∀ i, b.lo + headerSize ≤ i → i < b.lo + headerSize + size → s'.mem i = 0 := by
  have hbin := hb.within (List.mem_append_right free hbu)
  have hbhi : b.hi = b.lo + headerSize + size := by rw [Range.hi, hlen, Nat.add_assoc]
  have hclear : s.clear heap (b.lo + headerSize) size = some { s with
      mem := fun i => if b.lo + headerSize ≤ i ∧ i < b.lo + headerSize + size then 0 else s.mem i } :=
    if_pos (by omega)
  have happ : ∀ c ∈ free ++ used, c.lo + headerSize ≤ b.lo + headerSize ∨ b.lo + headerSize + size ≤ c.lo := by
    intro c hc
    have hcl := hb.large c hc
    rcases hb.eq_or_apart hc (List.mem_append_right _ hbu) with rfl | h | h
    · exact .inl (Nat.le_refl _)
    · unfold Range.hi at h
      omega
    · exact .inr (hbhi ▸ h)
  refine ⟨_, hclear, ⟨hb.array, ?_, ?_, hb.ascending, hb.ordered, hb.large, hb.tiles⟩, fun c hc hne d hd i h₁ h₂ => ?_,
    fun i h₁ h₂ => if_pos ⟨h₁, h₂⟩⟩
  · exact hb.freeLists.clear hclear fun c hc => happ c (List.mem_append_left _ hc)
  · exact hb.usedLists.clear hclear fun c hc => happ c (List.mem_append_right _ hc)
  · rw [List.mem_singleton.1 hd] at h₁ h₂
    refine if_neg fun hi => ?_
    rcases hb.eq_or_apart (List.mem_append_right _ hc) (List.mem_append_right _ hbu) with h | h | h
    · exact hne h
    · omega
    · omega

/-- A new block is not one of those in use. -/
theorem Tiled.fresh (hb : Tiled heap s (as ++ b :: bs) used) (hc : c ∈ used) : c.lo ≠ b.lo := by
  have hbf : b ∈ as ++ b :: bs := by simp
  have hbpos := hb.pos (List.mem_append_left used hbf)
  have hcpos := hb.pos (List.mem_append_right (as ++ b :: bs) hc)
  have := hb.disjoint hbf hc
  unfold Range.hi at this
  omega

/-- **A request takes a free block**: the block stands in `allocate_list`, is zero, and the others are as they were. -/
theorem blocks_take (hb : Blocks heap s (as ++ b :: bs) used) (hsize : 2 * headerSize + size ≤ b.len) :
    ∃ s', s.take heap b.lo size = some (b.lo + headerSize, s') ∧
      Blocks heap s' (as ++ rest b size :: bs) (place (taken b size) used) ∧ Keeps s s' used ∧
      ∀ i, b.lo + headerSize ≤ i → i < b.lo + headerSize + size → s'.mem i = 0 := by
  have hbin := hb.within (List.mem_append_left used (show b ∈ as ++ b :: bs by simp))
  have hrestHi : (rest b size).hi = b.hi := rest_hi (by omega)
  obtain ⟨hsplit, hkeep₁⟩ := tiled_split hb.toTiled hsize
  obtain ⟨s₁, s₂, hs₁, hs₂, htiled₂, hkeep₂⟩ := tiled_acquire (b := taken b size) hsplit
  have hsub : ∀ c ∈ used, c ∈ place (taken b size) used := fun c hc => mem_place.2 (.inr hc)
  obtain ⟨s₃, hs₃, htiled₃, hkeep₃, hzero⟩ := tiled_clear htiled₂ (mem_place.2 (.inl rfl)) rfl
  have hkeep : Keeps s₂ s₃ used := by
    intro c hc
    refine hkeep₃ c (hsub c hc) (fun heq => hb.fresh hc ?_) c (List.mem_singleton_self c)
    rw [heq]
    rfl
  refine ⟨s₃, ?_, ⟨htiled₃, ⟨fun c hc => ?_, ?_⟩, ?_⟩, (hkeep₁.trans hkeep₂).trans hkeep, hzero⟩
  · have h₁ : (s.finshBlockSplit b.lo size).finshBlockRemove .free b.lo = some s₁ := hs₁
    have h₂ : (s₁.setNext b.lo none).finshBlockInsert .allocate b.lo = some s₂ := hs₂
    have h₃ : s₂.clear heap (b.lo + headerSize) size = some s₃ := hs₃
    simp only [take, h₁, h₂, h₃, Option.bind_eq_bind, Option.bind_some]
  · exact htiled₃.pos (List.mem_append_left _ hc)
  · -- the rest ends where the block did
    obtain ⟨hpas, hpb, hpab⟩ := List.pairwise_append.1 hb.coalesced.apart
    obtain ⟨hpb, hpbs⟩ := List.pairwise_cons.1 hpb
    refine List.pairwise_append.2 ⟨hpas, List.pairwise_cons.2 ⟨fun c hc => ?_, hpbs⟩, fun c hc d hd => ?_⟩
    · rw [hrestHi]
      exact hpb c hc
    · rcases List.mem_cons.1 hd with rfl | hd
      · exact Nat.lt_of_lt_of_le (hpab c hc b List.mem_cons_self) (Nat.le_add_right _ _)
      · exact hpab c hc d (List.mem_cons_of_mem _ hd)
  · have htop := hb.top
    have hcut : b.count (heap + (FINSH_HEAP_MAX - 1)) =
        (taken b size).count (heap + (FINSH_HEAP_MAX - 1)) + (rest b size).count (heap + (FINSH_HEAP_MAX - 1)) := by
      rw [taken, rest, ← Range.count_add, Nat.add_sub_cancel' (by omega)]
    have hnot : (taken b size).count (heap + (FINSH_HEAP_MAX - 1)) = 0 := by
      rw [Range.count_eq_zero]
      rintro ⟨-, hlt⟩
      have hrestLo : (rest b size).lo = b.lo + (headerSize + size) := rfl
      rw [taken_hi, hrestLo] at hlt
      unfold Range.hi at hbin
      unfold headerSize FINSH_HEAP_MAX at *
      omega
    simp only [cover_append, cover_cons] at htop ⊢
    omega

/-! ## The search -/

/-- **A search of `free_list`.** -/
theorem search_free {stop : ℕ → Bool} (hb : Blocks heap s free used) :
    s.walk stop rounds s.freeList = some ((free.find? fun c => stop c.lo).map (·.lo)) := by
  rw [walk_find hb.freeLists.chain (by simpa using hb.length_free), List.find?_map]
  rfl

theorem heapAlignSize_bounds (hsize : size + headerSize + 4 ≤ 2 ^ 32) :
    size ≤ heapAlignSize size ∧ heapAlignSize size + headerSize < 2 ^ 32 := by
  unfold heapAlignSize headerSize at *
  rw [Word.alignUp_eq (by omega)]
  omega

/-- **A new block at `lo`**, and the free blocks that remain. -/
structure Placed (heap : ℕ) (s s' : State) (free' used : List Range) (size lo : ℕ) : Prop where
  blocks : Blocks heap s' free' (place ⟨lo, headerSize + size⟩ used)
  keeps : Keeps s s' used
  zero : ∀ i, lo + headerSize ≤ i → i < lo + headerSize + size → s'.mem i = 0
  fresh : ∀ c ∈ used, c.lo ≠ lo

/-- A search that stops at the ranges that fit. -/
theorem blocks_search (stop : ℕ → Bool) {fits : Range → Bool} (hb : Blocks heap s free used)
    (hstop : ∀ c ∈ free, stop c.lo = fits c) (hfits : ∀ c, fits c = true → 2 * headerSize + size ≤ c.len) :
    match takeFirst fits (headerSize + size) free with
    | some (lo, free') => s.walk stop rounds s.freeList = some (some lo) ∧
        ∃ s', s.take heap lo size = some (lo + headerSize, s') ∧ Placed heap s s' free' used size lo
    | none => s.walk stop rounds s.freeList = some none := by
  rw [search_free hb, List.find?_congr hstop]
  cases hf : free.find? fits with
  | none =>
    have hnone : takeFirst fits (headerSize + size) free = none :=
      takeFirst_none.2 fun c hc => Bool.eq_false_iff.2 (List.find?_eq_none.1 hf c hc)
    rw [hnone]
    rfl
  | some b =>
    obtain ⟨hbfits, as, bs, rfl, has⟩ := List.find?_eq_some_iff_append.1 hf
    have hsize := hfits b hbfits
    have hcut : cut b (headerSize + size) = [rest b size] := by
      rw [cut, if_pos (by unfold headerSize at *; omega)]
      rfl
    have hfalse : ∀ c ∈ as, fits c = false := fun c hc => by simpa using has c hc
    rw [takeFirst_append hfalse hbfits, hcut]
    obtain ⟨s', hs', hb', hkeep, hzero⟩ := blocks_take hb hsize
    exact ⟨rfl, s', hs', ⟨hb', hkeep, hzero, fun c hc => hb.fresh hc⟩⟩

/-- **The second search**, which takes an exact fit. -/
theorem blocks_allocateAgain (hb : Blocks heap s free used) (hwrap : size + headerSize < 2 ^ 32) :
    match lastFit size free with
    | some (lo, free') =>
      ∃ s', s.allocateAgain heap size = some (some (lo + headerSize), s') ∧ Placed heap s s' free' used size lo
    | none => s.allocateAgain heap size = some (none, s) := by
  have hstop : ∀ c ∈ free, (!decide (s.length c.lo < wrap (size + headerSize))) =
      decide (2 * headerSize + size ≤ c.len) := by
    intro c hc
    have hlen := hb.freeLists.length c hc
    rw [wrap, Nat.mod_eq_of_lt hwrap, ← decide_not]
    exact decide_eq_decide.2 (by omega)
  have hsearch := blocks_search (fun node => !decide (s.length node < wrap (size + headerSize))) hb hstop
    fun c hc => of_decide_eq_true hc
  rw [lastFit]
  split at hsearch
  · obtain ⟨hwalk, s', hs', hplaced⟩ := hsearch
    refine ⟨s', ?_, hplaced⟩
    simp only [allocateAgain, hwalk, hs', Option.bind_eq_bind, Option.bind_some]
  · simp only [allocateAgain, hsearch, Option.bind_eq_bind, Option.bind_some]

/-- **`finsh_heap_allocate`**: where the first search finds none, a collection and the second search. -/
theorem blocks_allocate (vars : List ℕ) (hb : Blocks heap s free used) (hsize : size + headerSize + 4 ≤ 2 ^ 32) :
    match firstFit (heapAlignSize size) free with
    | some (lo, free') => ∃ s', s.finshHeapAllocate heap vars size = some (some (lo + headerSize), s') ∧
        Placed heap s s' free' used (heapAlignSize size) lo
    | none => ∃ s₁, s.finshHeapGc vars = some s₁ ∧
        s.finshHeapAllocate heap vars size = s₁.allocateAgain heap (heapAlignSize size) := by
  have hwrap := (heapAlignSize_bounds hsize).2
  have hstop : ∀ c ∈ free, (!decide (s.length c.lo ≤ wrap (heapAlignSize size + headerSize))) =
      decide (2 * headerSize + heapAlignSize size < c.len) := by
    intro c hc
    have hlen := hb.freeLists.length c hc
    rw [wrap, Nat.mod_eq_of_lt hwrap, ← decide_not]
    exact decide_eq_decide.2 (by omega)
  have hsearch := blocks_search (fun node => !decide (s.length node ≤ wrap (heapAlignSize size + headerSize))) hb hstop
    fun c hc => Nat.le_of_lt (of_decide_eq_true hc)
  rw [firstFit]
  split at hsearch
  · obtain ⟨hwalk, s', hs', hplaced⟩ := hsearch
    refine ⟨s', ?_, hplaced⟩
    simp only [finshHeapAllocate, hwalk, hs', Option.bind_eq_bind, Option.bind_some]
  · obtain ⟨s₁, hgc, -, -⟩ := blocks_gc vars hb
    refine ⟨s₁, hgc, ?_⟩
    simp only [finshHeapAllocate, hsearch, hgc, Option.bind_eq_bind, Option.bind_some]

/-! ## Runs -/

theorem blocks_eq {l : List ℕ} (hc : Chain s.next h l) (hk : l.length < k) : s.blocks k h = l := by
  induction l generalizing h k with
  | nil =>
    have hnil : h = none := hc
    obtain ⟨k, rfl⟩ : ∃ j, k = j + 1 := ⟨k - 1, by omega⟩
    rw [hnil]
    rfl
  | cons x l ih =>
    obtain ⟨k, rfl⟩ : ∃ j, k = j + 1 := ⟨k - 1, by omega⟩
    obtain ⟨rfl, hc⟩ := hc
    rw [State.blocks, ih hc (Nat.lt_of_succ_lt_succ hk)]

theorem Blocks.allocated (hb : Blocks heap s free used) : s.allocated = used.map (·.lo) :=
  blocks_eq hb.usedLists.chain (by simpa using hb.length_used)

/-- A pointer to a block owns its bytes. -/
theorem Placed.owns {free' : List Range} {lo : ℕ} (h : Placed heap s s' free' used n lo) (hn : k ≤ n) :
    s'.Owns heap (lo + headerSize) k := by
  have hbu : (⟨lo, headerSize + n⟩ : Range) ∈ place ⟨lo, headerSize + n⟩ used := mem_place.2 (.inl rfl)
  have hlen := h.blocks.usedLists.length _ hbu
  have hin := h.blocks.within (List.mem_append_right _ hbu)
  dsimp only at hlen
  refine ⟨lo, ?_, rfl, by omega, hin.1, ?_⟩
  · rw [h.blocks.allocated]
    exact List.mem_map_of_mem hbu
  · unfold Range.hi at hin
    dsimp only at hin
    omega

/-- `finsh_heap_init` leaves one free block. -/
theorem blocks_init (harray : 0 < heap ∧ heap + FINSH_HEAP_MAX ≤ 2 ^ 32) (hs : s.Init heap) :
    Blocks heap s [⟨heap, FINSH_HEAP_MAX⟩] [] := by
  obtain ⟨s₀, rfl⟩ := hs
  have hone : Coalesced [⟨heap, FINSH_HEAP_MAX⟩] := Coalesced.nil.cons (show 0 < FINSH_HEAP_MAX by decide) nofun
  refine ⟨⟨harray, ⟨?_, ?_⟩, ⟨rfl, nofun⟩, hone.apart.imp Nat.le_of_lt, .nil, ?_, ?_⟩, hone, ?_⟩
  · exact ⟨rfl, next_setNext_self (s := State.setLength _ heap (FINSH_HEAP_MAX - headerSize)) nofun⟩
  · intro r hr
    rw [List.mem_singleton.1 hr]
    have hlen : (s₀.finshHeapInit heap).length heap = FINSH_HEAP_MAX - headerSize := by
      refine (length_setNext (.inl rfl)).trans (length_setLength_self ?_)
      decide
    rw [hlen]
    rfl
  · intro r hr
    rw [List.mem_singleton.1 hr]
    show headerSize ≤ FINSH_HEAP_MAX
    decide
  · intro p
    simp
  · refine cover_pos.2 ⟨_, List.mem_singleton_self _, Nat.le_add_right _ _, ?_⟩
    unfold Range.hi FINSH_HEAP_MAX
    dsimp only
    omega

/-- Bytes of a block are written. -/
theorem Blocks.store {m : Bytes.Mem} (hb : Blocks heap s free used) (hr : r ∈ used)
    (hm : ∀ i, i < r.lo + headerSize ∨ r.hi ≤ i → m i = s.mem i) : Blocks heap { s with mem := m } free used := by
  have hheader : ∀ c ∈ free ++ used, ∀ i, c.lo ≤ i → i < c.lo + headerSize → m i = s.mem i := by
    intro c hc i h₁ h₂
    have hlarge := hb.large c hc
    rcases hb.eq_or_apart hc (List.mem_append_right _ hr) with rfl | h | h
    · exact hm i (.inl h₂)
    · refine hm i (.inl ?_)
      unfold Range.hi at h
      omega
    · exact hm i (.inr (Nat.le_trans h h₁))
  have hlists : ∀ {h l}, l ⊆ free ++ used → s.Lists h l → ({ s with mem := m } : State).Lists h l := by
    intro h l hsub hl
    refine ⟨Chain.congr (fun x hx => ?_) hl.chain, fun c hc => ?_⟩
    · obtain ⟨c, hc, rfl⟩ := List.mem_map.1 hx
      exact next_congr fun j h₁ h₂ => hheader c (hsub hc) j (by omega) (by unfold headerSize; omega)
    · rw [length_congr (s := s) fun j h₁ h₂ => hheader c (hsub hc) j h₁ (by unfold headerSize; omega)]
      exact hl.length c hc
  exact ⟨⟨hb.array, hlists (List.subset_append_left _ _) hb.freeLists, hlists (List.subset_append_right _ _) hb.usedLists,
    hb.ascending, hb.ordered, hb.large, hb.tiles⟩, hb.coalesced, hb.top⟩

/-- A request returns, and what it returns owns as many bytes. -/
theorem blocks_request (vars : List ℕ) {size : ℕ} (hb : Blocks heap s free used)
    (hsize : size + headerSize + 4 ≤ 2 ^ 32) :
    ∃ p s' free' used', s.finshHeapAllocate heap vars size = some (p, s') ∧ Blocks heap s' free' used' ∧
      ∀ q, p = some q → s'.Owns heap q size := by
  have hbounds := heapAlignSize_bounds hsize
  have hfirst := blocks_allocate vars hb hsize
  split at hfirst
  · obtain ⟨s', hs', hplaced⟩ := hfirst
    exact ⟨_, s', _, _, hs', hplaced.blocks, fun q hq => Option.some.inj hq ▸ hplaced.owns hbounds.1⟩
  · obtain ⟨s₁, hgc, hagain⟩ := hfirst
    obtain ⟨s₁', hgc', hb₁, -⟩ := blocks_gc vars hb
    rw [hgc] at hgc'
    cases hgc'
    have hsecond := blocks_allocateAgain hb₁ hbounds.2
    rw [hagain]
    split at hsecond
    · obtain ⟨s', hs', hplaced⟩ := hsecond
      exact ⟨_, s', _, _, hs', hplaced.blocks, fun q hq => Option.some.inj hq ▸ hplaced.owns hbounds.1⟩
    · exact ⟨none, s₁, _, _, hsecond, hb₁, nofun⟩

/-- **Step lemma.** -/
theorem blocks_step {a : Act} (hb : Blocks heap s free used) (hok : s.Fits a) :
    ∃ s' free' used', s.step heap a = some s' ∧ Blocks heap s' free' used' := by
  cases a with
  | allocate vars size =>
    obtain ⟨p, s', free', used', hs', hb', -⟩ := blocks_request vars hb hok.2
    exact ⟨s', free', used', by rw [step, hs']; rfl, hb'⟩
  | free ptr =>
    obtain ⟨header, hheader, rfl⟩ := hok.1
    rw [hb.allocated] at hheader
    obtain ⟨r, hr, rfl⟩ := List.mem_map.1 hheader
    obtain ⟨as, bs, rfl⟩ := List.append_of_mem hr
    obtain ⟨s', hs', hb', -⟩ := blocks_free hb
    exact ⟨s', _, _, hs', hb'⟩
  | write i v =>
    obtain ⟨header, hheader, h₁, h₂⟩ := hok.1
    rw [hb.allocated] at hheader
    obtain ⟨r, hr, rfl⟩ := List.mem_map.1 hheader
    have hlen := hb.usedLists.length r hr
    refine ⟨_, free, used, rfl, hb.store hr fun j hj => Function.update_of_ne ?_ ..⟩
    unfold Range.hi at hj
    omega

end State

open State

theorem blocks_reach (harray : 0 < heap ∧ heap + FINSH_HEAP_MAX ≤ 2 ^ 32)
    (hr : Run.Reach (State.Init heap) (fun s a s' => s.step heap a = some s') State.Fits s) :
    ∃ free used, Blocks heap s free used := by
  refine hr.inv (I := fun s => ∃ free used, Blocks heap s free used) (fun s hs => ⟨_, _, blocks_init harray hs⟩) ?_
  rintro s a s' ⟨free, used, hb⟩ hok hs
  obtain ⟨s'', free', used', hs', hb'⟩ := blocks_step hb hok
  rw [hs] at hs'
  cases hs'
  exact ⟨free', used', hb'⟩

/-- **The heap stays well-formed**, each call returns, and a pointer owns what has been asked for. -/
theorem finshHeap_wellFormed (harray : 0 < heap ∧ heap + FINSH_HEAP_MAX ≤ 2 ^ 32)
    (hr : Run.Reach (State.Init heap) (fun s a s' => s.step heap a = some s') State.Fits s) :
    s.WellFormed heap ∧ (∀ a, s.Fits a → (s.step heap a).isSome = true) ∧
      ∀ vars size p s', s.Fits (.allocate vars size) → s.finshHeapAllocate heap vars size = some (some p, s') →
        s'.Owns heap p size := by
  obtain ⟨free, used, hb⟩ := blocks_reach harray hr
  refine ⟨hb.wellFormed, fun a hok => ?_, fun vars size p s' hok hs' => ?_⟩
  · obtain ⟨s', -, -, hs', -⟩ := blocks_step hb hok
    rw [hs']
    rfl
  · obtain ⟨q, s'', -, -, hs'', -, howns⟩ := blocks_request vars hb hok.2
    rw [hs'] at hs''
    cases hs''
    exact howns p rfl

/-- A heap before `finsh_heap_init`. -/
def fresh : State := ⟨none, none, fun _ => 0⟩

theorem fresh_init : (fresh.finshHeapInit 4096).Init 4096 := ⟨fresh, rfl⟩

example : ((fresh.finshHeapInit 4096).finshHeapAllocate 4096 [] 5).map (·.1) = some (some 4104) := by decide

/-- Three blocks, of which variables point at the first; a request that is too large for the rest collects the other
two. -/
theorem finshHeap_wellFormed_collected : ∃ s : State, s.allocated = [4096, 4128] ∧ s.WellFormed 4096 := by
  obtain ⟨s, hr, hs⟩ := Run.Reach.exec_ok (fun s a => s.step 4096 a) State.Fits fresh_init
    [.allocate [] 24, .allocate [4104] 24, .write 4136 65, .allocate [4104] 24, .allocate [4104] 30]
    (fun s => decide (s.allocated = [4096, 4128])) (by decide)
  exact ⟨s, of_decide_eq_true hs, (finshHeap_wellFormed (by decide) hr).1⟩

/-- **The size wraps**: a pointer to no byte. -/
theorem largeSize_notOwned : ¬∀ heap s, 0 < heap ∧ heap + FINSH_HEAP_MAX ≤ 2 ^ 32 →
    Run.Reach (State.Init heap) (fun s a s' => s.step heap a = some s') State.Promised s →
    ∀ vars size p s', s.Promised (.allocate vars size) → s.finshHeapAllocate heap vars size = some (some p, s') →
      s'.Owns heap p size := by
  intro h
  have hrun : ((fresh.finshHeapInit 4096).finshHeapAllocate 4096 [] 0xFFFFFFFD).any
      (fun r => r.1 = some 4104 ∧ ¬r.2.Owns 4096 4104 0xFFFFFFFD) = true := by
    decide
  obtain ⟨⟨p, s'⟩, hrun, hr⟩ := (Option.any_eq_true _ _).1 hrun
  obtain ⟨hp, hnot⟩ := of_decide_eq_true hr
  have hp : p = some 4104 := hp
  rw [hp] at hrun
  exact hnot (h 4096 _ (by decide) (.init fresh_init) [] 0xFFFFFFFD 4104 s' (by decide) hrun)

end RtThread.FinshHeap
