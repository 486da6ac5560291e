import RtThread.Spec.FinshHeap

/-!
# The operations on the block lists of FinSH

* `finshBlockRemove_spec`, `finshBlockInsert_spec`: a block goes out of a list in order, or into it.
* `finshBlockMerge_spec`: **a free block is merged with its neighbours.**
* `Relinks`, `Touches`: an operation changes the headers of these blocks only.
-/

namespace RtThread.FinshHeap

open FreeList Bytes

variable {s s' s'' : State} {l as bs : List Range} {r b c : Range} {x y a i n k heap : ℕ} {v h : Option ℕ} {w : Which}
  {L L' : List ℕ}

/-- Headers that do not overlap. -/
def Apart (x y : ℕ) : Prop := x + headerSize ≤ y ∨ y + headerSize ≤ x

theorem Apart.symm (h : Apart x y) : Apart y x := Or.symm h

namespace State

/-! ## The fields of a header -/

@[simp] theorem list_setLength : (s.setLength x n).list w = s.list w := by cases w <;> rfl

@[simp] theorem list_setNext : (s.setNext x v).list w = s.list w := by cases w <;> rfl

@[simp] theorem list_setList_self : (s.setList v w).list w = v := by cases w <;> rfl

@[simp] theorem mem_setList : (s.setList v w).mem = s.mem := by cases w <;> rfl

theorem list_setList_of_ne {w' : Which} (h : w' ≠ w) : (s.setList v w).list w' = s.list w' := by
  cases w <;> cases w' <;> first | rfl | exact absurd rfl h

theorem length_congr (h : ∀ i, x ≤ i → i < x + 4 → s'.mem i = s.mem i) : s'.length x = s.length x := readLE_congr h

theorem next_congr (h : ∀ i, x + 4 ≤ i → i < x + 8 → s'.mem i = s.mem i) : s'.next x = s.next x := by
  unfold next
  rw [readLE_congr (m := s'.mem) fun i h₁ h₂ => h i h₁ (by omega)]

theorem length_setLength_self (hn : n < 2 ^ 32) : (s.setLength x n).length x = n := readLE_writeLE_same hn

theorem length_setLength (h : Apart x y) : (s.setLength y n).length x = s.length x :=
  length_congr fun i h₁ h₂ => writeLE_out (by unfold Apart headerSize at h; omega)

theorem next_setLength (h : x = y ∨ Apart x y) : (s.setLength y n).next x = s.next x :=
  next_congr fun i h₁ h₂ => writeLE_out (by unfold Apart headerSize at h; omega)

theorem next_setNext_self (hv : ∀ p, v = some p → 0 < p ∧ p < 2 ^ 32) : (s.setNext x v).next x = v := by
  have hlt : v.getD 0 < 256 ^ 4 := by
    cases v with
    | none => exact Nat.pow_pos (by omega)
    | some p => exact (hv p rfl).2
  unfold next setNext
  rw [readLE_writeLE_same hlt]
  cases v with
  | none => rfl
  | some p => exact if_neg (Nat.pos_iff_ne_zero.1 (hv p rfl).1)

theorem next_setNext (h : Apart x y) : (s.setNext y v).next x = s.next x :=
  next_congr fun i h₁ h₂ => writeLE_out (by unfold Apart headerSize at h; omega)

theorem length_setNext (h : x = y ∨ Apart x y) : (s.setNext y v).length x = s.length x :=
  length_congr fun i h₁ h₂ => writeLE_out (by unfold Apart headerSize at h; omega)

/-! ## What an operation touches -/

/-- Only the links of these headers have changed. -/
def Relinks (s s' : State) (L : List ℕ) : Prop :=
  ∀ i, (∀ x ∈ L, i < x + 4 ∨ x + 8 ≤ i) → s'.mem i = s.mem i

theorem Relinks.length (hr : Relinks s s' L) (hx : ∀ y ∈ L, x = y ∨ Apart x y) : s'.length x = s.length x :=
  length_congr fun i h₁ h₂ => hr i fun y hy => by
    have := hx y hy
    unfold Apart headerSize at this
    omega

theorem Relinks.next (hr : Relinks s s' L) (hx : ∀ y ∈ L, Apart x y) : s'.next x = s.next x :=
  next_congr fun i h₁ h₂ => hr i fun y hy => by
    have := hx y hy
    unfold Apart headerSize at this
    omega

theorem Relinks.mono (hr : Relinks s s' L) (hsub : L ⊆ L') : Relinks s s' L' :=
  fun i hi => hr i fun x hx => hi x (hsub hx)

theorem Relinks.trans (hr : Relinks s s' L) (hr' : Relinks s' s'' L) : Relinks s s'' L :=
  fun i hi => (hr' i hi).trans (hr i hi)

theorem relinks_setNext (hx : x ∈ L) : Relinks s (s.setNext x v) L :=
  fun i hi => writeLE_out (by have := hi x hx; omega)

theorem Relinks.setNext (hr : Relinks s s' L) (hx : x ∈ L) : Relinks s (s'.setNext x v) L :=
  hr.trans (relinks_setNext hx)

theorem Relinks.setList (hr : Relinks s s' L) : Relinks s (s'.setList v w) L := by
  intro i hi
  rw [mem_setList]
  exact hr i hi

theorem Relinks.refl : Relinks s s L := fun _ _ => rfl

/-! ## Walks -/

theorem walk_find {stop : ℕ → Bool} {l : List ℕ} (hc : Chain s.next h l) (hk : l.length < k) :
    s.walk stop k h = some (l.find? stop) := by
  induction l generalizing h k with
  | nil =>
    obtain ⟨k, rfl⟩ : ∃ j, k = j + 1 := ⟨k - 1, by omega⟩
    have hnil : h = none := hc
    rw [hnil]
    rfl
  | cons x l ih =>
    obtain ⟨k, rfl⟩ : ∃ j, k = j + 1 := ⟨k - 1, by omega⟩
    obtain ⟨rfl, hc⟩ := hc
    rw [walk, List.find?_cons]
    cases hstop : stop x with
    | true => rfl
    | false =>
      rw [if_neg Bool.false_ne_true]
      exact ih hc (Nat.lt_of_succ_lt_succ hk)

/-! ## Insertion and removal -/

/-- Blocks in order, with room for their headers. -/
def Spaced (l : List Range) : Prop := l.Pairwise fun r t => r.lo + headerSize ≤ t.lo

/-- Addresses of headers. -/
def InMemory (l : List Range) : Prop := ∀ r ∈ l, 0 < r.lo ∧ r.lo < 2 ^ 32

theorem Spaced.nodup (h : Spaced l) : (l.map (·.lo)).Nodup := by
  rw [List.Nodup, List.pairwise_map]
  exact List.Pairwise.imp (fun {r t} hrt heq => by unfold headerSize at hrt; omega) h

theorem Spaced.left (h : Spaced (as ++ r :: bs)) (hb : b ∈ as) : b.lo + headerSize ≤ r.lo :=
  (List.pairwise_append.1 h).2.2 b hb r List.mem_cons_self

theorem Spaced.right (h : Spaced (as ++ r :: bs)) (hb : b ∈ bs) : r.lo + headerSize ≤ b.lo :=
  (List.pairwise_cons.1 (List.pairwise_append.1 h).2.1).1 b hb

theorem Spaced.across (h : Spaced (as ++ r :: bs)) (hb : b ∈ as) (hc : c ∈ bs) : b.lo + headerSize ≤ c.lo :=
  (List.pairwise_append.1 h).2.2 b hb c (List.mem_cons_of_mem _ hc)

theorem Spaced.apart (h : Spaced (as ++ r :: bs)) (hb : b ∈ as ++ bs) : Apart b.lo r.lo := by
  rcases List.mem_append.1 hb with hb | hb
  · exact .inl (h.left hb)
  · exact .inr (h.right hb)

theorem Lists.chain_head {t : Range} (hl : s.Lists h (t :: l)) : h = some t.lo := hl.chain.1

/-- Lists whose lengths are as they were. -/
theorem Lists.relink {h' : Option ℕ} {l' : List Range} (hl : s.Lists h l) (hr : Relinks s s' L)
    (hchain : Chain s'.next h' (l'.map (·.lo))) (hsub : l' ⊆ l) (hL : ∀ r ∈ l', ∀ x ∈ L, r.lo = x ∨ Apart r.lo x) :
    s'.Lists h' l' :=
  ⟨hchain, fun r hr' => by rw [hr.length (hL r hr')]; exact hl.length r (hsub hr')⟩

/-- Two headers of a list in order are the same, or apart. -/
theorem Spaced.eq_or_apart (h : Spaced l) (hb : b ∈ l) (hc : c ∈ l) : b.lo = c.lo ∨ Apart b.lo c.lo := by
  by_cases hbc : b = c
  · exact .inl (by rw [hbc])
  · have hboth : l.Pairwise fun r t => Apart r.lo t.lo := h.imp Or.inl
    have : Std.Symm fun r t : Range => Apart r.lo t.lo := ⟨fun _ _ => Apart.symm⟩
    exact .inr (hboth.forall hb hc hbc)

theorem Spaced.sublist {l' : List Range} (h : Spaced l) (hs : l'.Sublist l) : Spaced l' := List.Pairwise.sublist hs h

/-- A list of which only links have changed. -/
theorem Lists.relinked {h' : Option ℕ} {l' k : List Range} (hl : s.Lists h l) (hr : Relinks s s' (k.map (·.lo)))
    (hchain : Chain s'.next h' (l'.map (·.lo))) (hlk : l ++ k ⊆ k') (hsp : Spaced k') (hsub : l' ⊆ l) : s'.Lists h' l' := by
  refine hl.relink hr hchain hsub fun b hb x hx => ?_
  obtain ⟨c, hc, rfl⟩ := List.mem_map.1 hx
  exact hsp.eq_or_apart (hlk (List.mem_append_left _ (hsub hb))) (hlk (List.mem_append_right _ hc))

/-- **Removal of the first block.** -/
theorem finshBlockRemove_head (hl : s.Lists (s.list w) (r :: bs)) (hsp : Spaced (r :: bs)) :
    ∃ s', s.finshBlockRemove w r.lo = some s' ∧ s'.Lists (s'.list w) bs ∧ (∀ w' ≠ w, s'.list w' = s.list w') ∧
      Relinks s s' ([r].map (·.lo)) := by
  have hhead : s.list w = some r.lo := hl.chain.1
  have hrel : Relinks s ((s.setList (s.next r.lo) w).setNext r.lo none) ([r].map (·.lo)) :=
    Relinks.refl.setList.setNext (by simp)
  have hchain : Chain ((s.setList (s.next r.lo) w).setNext r.lo none).next (s.next r.lo) (bs.map (·.lo)) := by
    refine Chain.congr (fun x hx => hrel.next fun y hy => ?_) hl.chain.2
    obtain ⟨b, hb, rfl⟩ := List.mem_map.1 hx
    rw [List.mem_singleton.1 hy]
    exact .inr ((List.pairwise_cons.1 hsp).1 b hb)
  refine ⟨_, if_pos hhead, ?_, fun w' hw' => ?_, hrel⟩
  · rw [list_setNext, list_setList_self]
    refine hl.relinked hrel hchain ?_ hsp (List.subset_cons_self _ _)
    simp
  · rw [list_setNext, list_setList_of_ne hw']

/-- **Removal of a block behind another.** -/
theorem finshBlockRemove_behind (hl : s.Lists (s.list w) (as ++ b :: r :: bs)) (hsp : Spaced (as ++ b :: r :: bs))
    (hm : InMemory (as ++ b :: r :: bs)) (hk : (as ++ b :: r :: bs).length < rounds) :
    ∃ s', s.finshBlockRemove w r.lo = some s' ∧ s'.Lists (s'.list w) (as ++ b :: bs) ∧
      (∀ w' ≠ w, s'.list w' = s.list w') ∧ Relinks s s' ([b].map (·.lo)) := by
  have hchain := hl.chain
  have hnd := hsp.nodup
  rw [List.map_append, List.map_cons, List.map_cons] at hchain hnd
  have hprev : s.previous w r.lo = some (some b.lo) := by
    rw [previous, walk_find hchain (by simpa using hk), Chain.find_previous hchain hnd]
  have hbr : b.lo + headerSize ≤ r.lo := hsp.right List.mem_cons_self
  have hfirst : s.list w ≠ some r.lo := by
    rw [hl.chain.head_eq]
    cases as with
    | nil =>
      intro heq
      have heq : b.lo = r.lo := Option.some.inj heq
      unfold headerSize at hbr
      omega
    | cons c as =>
      intro heq
      have heq : c.lo = r.lo := Option.some.inj heq
      have hcr := (List.pairwise_cons.1 hsp).1 r (by simp)
      unfold headerSize at hcr
      omega
  have hrel : Relinks s (s.setNext b.lo (s.next r.lo)) ([b].map (·.lo)) := relinks_setNext (by simp)
  have hself : (s.setNext b.lo (s.next r.lo)).next b.lo = s.next r.lo := by
    refine next_setNext_self fun p hp => ?_
    rw [hchain.behind.2.head_eq] at hp
    obtain ⟨c, hc, rfl⟩ := List.mem_map.1 (List.mem_of_mem_head? hp)
    exact hm c (by simp [hc])
  refine ⟨s.setNext b.lo (s.next r.lo), ?_, ?_, fun w' _ => list_setNext, hrel⟩
  · rw [finshBlockRemove, if_neg hfirst, hprev]
    rfl
  · rw [list_setNext]
    refine hl.relinked hrel ?_ ?_ hsp ?_
    · rw [List.map_append, List.map_cons]
      refine hchain.removeAfter hself fun z hz => hrel.next fun y hy => ?_
      rw [← List.map_append] at hz
      obtain ⟨c, hc, rfl⟩ := List.mem_map.1 hz
      rw [List.mem_singleton.1 hy]
      refine hsp.apart ?_
      rcases List.mem_append.1 hc with hc | hc
      · exact List.mem_append_left _ hc
      · exact List.mem_append_right _ (List.mem_cons_of_mem _ hc)
    · exact List.append_subset.2 ⟨List.Subset.refl _, by simp⟩
    · exact (List.Sublist.append_left (.cons_cons b (List.sublist_cons_self r bs)) as).subset

/-- **Removal.** -/
theorem finshBlockRemove_spec (hl : s.Lists (s.list w) (as ++ r :: bs)) (hsp : Spaced (as ++ r :: bs))
    (hm : InMemory (as ++ r :: bs)) (hk : (as ++ r :: bs).length < rounds) :
    ∃ s', s.finshBlockRemove w r.lo = some s' ∧ s'.Lists (s'.list w) (as ++ bs) ∧
      (∀ w' ≠ w, s'.list w' = s.list w') ∧ Relinks s s' ((as ++ [r]).map (·.lo)) := by
  rcases List.eq_nil_or_concat' as with rfl | ⟨as, p, rfl⟩
  · exact finshBlockRemove_head hl hsp
  · have heq : as ++ [p] ++ r :: bs = as ++ p :: r :: bs := by simp
    rw [heq] at hl hsp hm hk
    obtain ⟨s', hs', hl', hlists, hrel⟩ := finshBlockRemove_behind hl hsp hm hk
    exact ⟨s', hs', by simpa using hl', hlists, hrel.mono (by simp)⟩

/-- **Insertion in front of all.** -/
theorem finshBlockInsert_head (hl : s.Lists (s.list w) bs) (hsp : Spaced (r :: bs)) (hm : InMemory (r :: bs))
    (hlen : s.length r.lo + headerSize = r.len) (hlast : bs = [] → s.next r.lo = none) :
    ∃ s', s.finshBlockInsert w r.lo = some s' ∧ s'.Lists (s'.list w) (r :: bs) ∧
      (∀ w' ≠ w, s'.list w' = s.list w') ∧ Relinks s s' ([r].map (·.lo)) := by
  cases bs with
  | nil =>
    have hnil : s.list w = none := hl.chain
    refine ⟨s.setList (some r.lo) w, ?_, ⟨?_, ?_⟩, fun w' hw' => list_setList_of_ne hw', Relinks.refl.setList⟩
    · rw [finshBlockInsert, hnil]
    · refine ⟨list_setList_self, ?_⟩
      have hnext : (s.setList (some r.lo) w).next r.lo = s.next r.lo := next_congr fun i _ _ => by rw [mem_setList]
      exact hnext.trans (hlast rfl)
    · intro t ht
      rw [List.mem_singleton.1 ht, length_congr (s := s) fun i _ _ => by rw [mem_setList]]
      exact hlen
  | cons b bs =>
    have hfirst : s.list w = some b.lo := hl.chain.1
    have hlt : r.lo + headerSize ≤ b.lo := (List.pairwise_cons.1 hsp).1 b List.mem_cons_self
    have hrel : Relinks s ((s.setNext r.lo (some b.lo)).setList (some r.lo) w) ([r].map (·.lo)) :=
      (relinks_setNext (by simp)).setList
    have hself : ((s.setNext r.lo (some b.lo)).setList (some r.lo) w).next r.lo = some b.lo := by
      rw [next_congr (s := s.setNext r.lo (some b.lo)) fun i _ _ => by rw [mem_setList]]
      refine next_setNext_self fun p hp => ?_
      cases hp
      exact hm b (by simp)
    refine ⟨_, ?_, ⟨?_, ?_⟩, fun w' hw' => by rw [list_setList_of_ne hw', list_setNext], hrel⟩
    · rw [finshBlockInsert, hfirst]
      exact if_pos (by unfold headerSize at hlt; omega)
    · refine ⟨list_setList_self, ?_⟩
      rw [hself]
      have hchain := hl.chain
      rw [hfirst] at hchain
      refine Chain.congr (fun x hx => hrel.next fun y hy => ?_) hchain
      obtain ⟨c, hc, rfl⟩ := List.mem_map.1 hx
      rw [List.mem_singleton.1 hy]
      exact .inr ((List.pairwise_cons.1 hsp).1 c hc)
    · intro t ht
      have happ : ∀ y ∈ [r].map (·.lo), t.lo = y ∨ Apart t.lo y := fun y hy => by
        rw [List.mem_singleton.1 hy]
        exact hsp.eq_or_apart ht List.mem_cons_self
      rw [hrel.length happ]
      rcases List.mem_cons.1 ht with rfl | ht
      · exact hlen
      · exact hl.length t ht

/-- Where the search of `finsh_block_insert` ends. -/
theorem find_insertPoint (hl : s.Lists h (as ++ b :: bs)) (hsp : Spaced (as ++ b :: r :: bs)) :
    ((as ++ b :: bs).map (·.lo)).find? (s.isInsertPoint r.lo) = some b.lo := by
  have hchain := hl.chain
  rw [List.map_append, List.map_cons] at hchain ⊢
  refine List.find?_eq_some_iff_append.2 ⟨?_, _, _, rfl, fun z hz => ?_⟩
  · rw [isInsertPoint, hchain.next_eq]
    cases bs with
    | nil => rfl
    | cons c bs =>
      have hsp' : Spaced (as ++ [b] ++ r :: c :: bs) := by simpa using hsp
      have hrc : r.lo + headerSize ≤ c.lo := hsp'.right List.mem_cons_self
      have hlt : r.lo < c.lo := by
        unfold headerSize at hrc
        omega
      exact decide_eq_true hlt
  · obtain ⟨c, hc, rfl⟩ := List.mem_map.1 hz
    obtain ⟨k₁, k₂, rfl⟩ := List.append_of_mem hc
    rw [List.map_append, List.map_cons, List.append_assoc, List.cons_append] at hchain
    -- the block behind `c` is still in front of the new one
    obtain ⟨d, hd, hdmem⟩ : ∃ d, (k₂.map (·.lo) ++ b.lo :: bs.map (·.lo)).head? = some (Range.lo d) ∧ d ∈ k₂ ++ [b] := by
      cases k₂ with
      | nil => exact ⟨b, rfl, List.mem_singleton_self b⟩
      | cons d k₂ => exact ⟨d, rfl, by simp⟩
    have hdr : d.lo + headerSize ≤ r.lo := by
      have hsp' : Spaced (k₁ ++ c :: k₂ ++ [b] ++ r :: bs) := by simpa using hsp
      refine hsp'.left ?_
      simp at hdmem ⊢
      tauto
    rw [isInsertPoint, hchain.next_eq, hd]
    have : ¬d.lo > r.lo := by
      unfold headerSize at hdr
      omega
    simp [this]

/-- **Insertion behind a block.** -/
theorem finshBlockInsert_behind (hl : s.Lists (s.list w) (as ++ b :: bs)) (hsp : Spaced (as ++ b :: r :: bs))
    (hm : InMemory (as ++ b :: r :: bs)) (hk : (as ++ b :: bs).length < rounds)
    (hlen : s.length r.lo + headerSize = r.len) (hlast : bs = [] → s.next r.lo = none) :
    ∃ s', s.finshBlockInsert w r.lo = some s' ∧ s'.Lists (s'.list w) (as ++ b :: r :: bs) ∧
      (∀ w' ≠ w, s'.list w' = s.list w') ∧ Relinks s s' ([b, r].map (·.lo)) := by
  have hchain := hl.chain
  have hfind := find_insertPoint hl hsp
  have hbr : b.lo + headerSize ≤ r.lo := hsp.right List.mem_cons_self
  -- the first block of the list
  obtain ⟨c, hc, hfirst⟩ : ∃ c ∈ as ++ [b], s.list w = some c.lo := by
    rw [hchain.head_eq]
    cases as with
    | nil => exact ⟨b, List.mem_singleton_self b, rfl⟩
    | cons c as => exact ⟨c, by simp, rfl⟩
  have hcr : ¬c.lo > r.lo := by
    have hsp' : Spaced (as ++ [b] ++ r :: bs) := by simpa using hsp
    have := hsp'.left hc
    unfold headerSize at this
    omega
  have hwalk : s.walk (s.isInsertPoint r.lo) rounds (some c.lo) = some (some b.lo) := by
    rw [hfirst] at hchain
    rw [walk_find hchain (by simpa using hk), hfind]
  rw [List.map_append, List.map_cons] at hchain
  have hnext : s.next b.lo = (bs.map (·.lo)).head? := hchain.next_eq
  -- the header links to what is behind
  let s₁ := if s.next b.lo ≠ none then s.setNext r.lo (s.next b.lo) else s
  have hrel₁ : Relinks s s₁ ([b, r].map (·.lo)) := by
    by_cases hn : s.next b.lo ≠ none
    · rw [show s₁ = s.setNext r.lo (s.next b.lo) from if_pos hn]
      exact relinks_setNext (by simp)
    · rw [show s₁ = s from if_neg hn]
      exact Relinks.refl
  have hlist₁ : ∀ w', s₁.list w' = s.list w' := by
    intro w'
    by_cases hn : s.next b.lo ≠ none
    · rw [show s₁ = s.setNext r.lo (s.next b.lo) from if_pos hn, list_setNext]
    · rw [show s₁ = s from if_neg hn]
  have hnext₁ : s₁.next r.lo = s.next b.lo := by
    by_cases hn : s.next b.lo ≠ none
    · rw [show s₁ = s.setNext r.lo (s.next b.lo) from if_pos hn]
      refine next_setNext_self fun p hp => ?_
      rw [hnext] at hp
      obtain ⟨d, hd, rfl⟩ := List.mem_map.1 (List.mem_of_mem_head? hp)
      exact hm d (by simp [hd])
    · rw [show s₁ = s from if_neg hn]
      have hnone : s.next b.lo = none := not_not.1 hn
      rw [hnone]
      refine hlast ?_
      rw [hnext, List.head?_map, Option.map_eq_none_iff] at hnone
      exact List.head?_eq_none_iff.1 hnone
  have hrel : Relinks s (s₁.setNext b.lo (some r.lo)) ([b, r].map (·.lo)) := hrel₁.setNext (by simp)
  have hself : (s₁.setNext b.lo (some r.lo)).next b.lo = some r.lo := by
    refine next_setNext_self fun p hp => ?_
    cases hp
    exact hm r (by simp)
  have hlink : (s₁.setNext b.lo (some r.lo)).next r.lo = s.next b.lo := by
    rw [next_setNext (.inr hbr), hnext₁]
  have happ : ∀ t ∈ as ++ b :: r :: bs, ∀ y ∈ [b, r].map (·.lo), t.lo = y ∨ Apart t.lo y := by
    intro t ht y hy
    obtain ⟨d, hd, rfl⟩ := List.mem_map.1 hy
    refine hsp.eq_or_apart ht (List.mem_append_right _ ?_)
    rcases List.mem_cons.1 hd with rfl | hd
    · exact List.mem_cons_self
    · rw [List.mem_singleton.1 hd]
      exact List.mem_cons_of_mem _ List.mem_cons_self
  refine ⟨s₁.setNext b.lo (some r.lo), ?_, ⟨?_, ?_⟩, fun w' _ => by rw [list_setNext, hlist₁], hrel⟩
  · rw [finshBlockInsert, hfirst]
    dsimp only
    rw [if_neg hcr, hwalk]
    rfl
  · rw [list_setNext, hlist₁, List.map_append, List.map_cons, List.map_cons]
    refine hchain.insertAfter hself hlink fun z hz => hrel.next fun y hy => ?_
    rw [← List.map_append] at hz
    obtain ⟨t, ht, rfl⟩ := List.mem_map.1 hz
    have htb : t ∈ as ++ r :: bs := by
      rcases List.mem_append.1 ht with ht | ht
      · exact List.mem_append_left _ ht
      · exact List.mem_append_right _ (List.mem_cons_of_mem _ ht)
    have htr : t ∈ (as ++ [b]) ++ bs := by
      rcases List.mem_append.1 ht with ht | ht
      · exact List.mem_append_left _ (List.mem_append_left _ ht)
      · exact List.mem_append_right _ ht
    rcases List.mem_cons.1 hy with rfl | hy
    · exact hsp.apart htb
    · rw [List.mem_singleton.1 hy]
      exact Spaced.apart (by simpa using hsp) htr
  · intro t ht
    rw [hrel.length (happ t ht)]
    by_cases htr : t = r
    · rw [htr]
      exact hlen
    · refine hl.length t ?_
      rcases List.mem_append.1 ht with ht | ht
      · exact List.mem_append_left _ ht
      · rcases List.mem_cons.1 ht with rfl | ht
        · exact List.mem_append_right _ List.mem_cons_self
        · exact List.mem_append_right _ (List.mem_cons_of_mem _ (List.mem_of_ne_of_mem htr ht))

/-- **Insertion.** -/
theorem finshBlockInsert_spec (hl : s.Lists (s.list w) (as ++ bs)) (hsp : Spaced (as ++ r :: bs))
    (hm : InMemory (as ++ r :: bs)) (hk : (as ++ bs).length < rounds) (hlen : s.length r.lo + headerSize = r.len)
    (hlast : bs = [] → s.next r.lo = none) :
    ∃ s', s.finshBlockInsert w r.lo = some s' ∧ s'.Lists (s'.list w) (as ++ r :: bs) ∧
      (∀ w' ≠ w, s'.list w' = s.list w') ∧ Relinks s s' ((as ++ [r]).map (·.lo)) := by
  rcases List.eq_nil_or_concat' as with rfl | ⟨as, p, rfl⟩
  · exact finshBlockInsert_head hl hsp hm hlen hlast
  · rw [List.append_assoc, List.singleton_append] at hl hk hsp hm
    obtain ⟨s', hs', hl', hlists, hrel⟩ := finshBlockInsert_behind hl hsp hm hk hlen hlast
    exact ⟨s', hs', by simpa using hl', hlists, hrel.mono (by simp)⟩

/-! ## Merging -/

/-- Only these headers have changed. -/
def Touches (s s' : State) (L : List ℕ) : Prop := ∀ i, (∀ x ∈ L, i < x ∨ x + 8 ≤ i) → s'.mem i = s.mem i

theorem Relinks.touches (h : Relinks s s' L) : Touches s s' L :=
  fun i hi => h i fun x hx => by have := hi x hx; omega

theorem Touches.refl : Touches s s L := fun _ _ => rfl

theorem Touches.trans (h : Touches s s' L) (h' : Touches s' s'' L) : Touches s s'' L :=
  fun i hi => (h' i hi).trans (h i hi)

theorem Touches.mono (h : Touches s s' L) (hsub : L ⊆ L') : Touches s s' L' :=
  fun i hi => h i fun x hx => hi x (hsub hx)

theorem Touches.length (h : Touches s s' L) (hx : ∀ y ∈ L, Apart x y) : s'.length x = s.length x :=
  length_congr fun i h₁ h₂ => h i fun y hy => by
    have := hx y hy
    unfold Apart headerSize at this
    omega

theorem Touches.next (h : Touches s s' L) (hx : ∀ y ∈ L, Apart x y) : s'.next x = s.next x :=
  next_congr fun i h₁ h₂ => h i fun y hy => by
    have := hx y hy
    unfold Apart headerSize at this
    omega

theorem touches_setLength (hx : x ∈ L) : Touches s (s.setLength x n) L :=
  fun i hi => writeLE_out (by have := hi x hx; omega)

theorem touches_setNext (hx : x ∈ L) : Touches s (s.setNext x v) L := (relinks_setNext hx).touches

/-- **A block takes those behind it in.** -/
theorem Lists.merge {q : List Range} (hl : s.Lists h (as ++ b :: (q ++ bs))) (hsp : Spaced (as ++ b :: (q ++ bs)))
    (hm : InMemory (as ++ b :: (q ++ bs))) (hn : n < 2 ^ 32) (hv : v = (bs.map (·.lo)).head?) :
    ((s.setLength b.lo n).setNext b.lo v).Lists h (as ++ ⟨b.lo, n + headerSize⟩ :: bs) := by
  have hmem : ∀ c ∈ as ++ bs, c ∈ as ++ (q ++ bs) := by
    intro c hc
    rcases List.mem_append.1 hc with hc | hc
    · exact List.mem_append_left _ hc
    · exact List.mem_append_right _ (List.mem_append_right _ hc)
  have happ : ∀ c ∈ as ++ bs, Apart c.lo b.lo := fun c hc => hsp.apart (hmem c hc)
  have hself : ((s.setLength b.lo n).setNext b.lo v).next b.lo = v := by
    refine next_setNext_self fun p hp => ?_
    rw [hv] at hp
    obtain ⟨c, hc, rfl⟩ := List.mem_map.1 (List.mem_of_mem_head? hp)
    exact hm c (by simp [hc])
  constructor
  · have hchain := hl.chain
    rw [List.map_append, List.map_cons, List.map_append] at hchain
    rw [List.map_append, List.map_cons]
    refine hchain.removeBetween (hself.trans hv) fun z hz => ?_
    rw [← List.map_append] at hz
    obtain ⟨c, hc, rfl⟩ := List.mem_map.1 hz
    rw [next_setNext (happ c hc), next_setLength (.inr (happ c hc))]
  · intro c hc
    have hother : ∀ d ∈ as ++ bs, ((s.setLength b.lo n).setNext b.lo v).length d.lo + headerSize = d.len := by
      intro d hd
      rw [length_setNext (.inr (happ d hd)), length_setLength (happ d hd)]
      refine hl.length d ?_
      rcases List.mem_append.1 (hmem d hd) with hd | hd
      · exact List.mem_append_left _ hd
      · exact List.mem_append_right _ (List.mem_cons_of_mem _ hd)
    rcases List.mem_append.1 hc with hc | hc
    · exact hother c (List.mem_append_left _ hc)
    · rcases List.mem_cons.1 hc with rfl | hc
      · rw [length_setNext (.inl rfl), length_setLength_self hn]
      · exact hother c (List.mem_append_right _ hc)

theorem meets_some (hx : x + s.length x + headerSize = n) : s.meets (some x) (some y) = decide (n = y) := by
  rw [meets, hx]
  exact Bool.beq_eq_decide_eq n y

/-- The block in front of another. -/
theorem prevNode_eq (hl : s.Lists (s.list w) (as ++ r :: bs)) (hsp : Spaced (as ++ r :: bs))
    (hk : (as ++ r :: bs).length < rounds) :
    s.prevNode w r.lo = some (as.map (·.lo)).getLast? := by
  rw [prevNode]
  have hchain := hl.chain
  rcases List.eq_nil_or_concat' as with rfl | ⟨as, p, rfl⟩
  · exact if_pos hl.chain.1
  · have hnd := hsp.nodup
    rw [List.append_assoc, List.singleton_append] at hchain hnd hk
    rw [List.map_append, List.map_cons, List.map_cons] at hchain hnd
    have hfirst : s.list w ≠ some r.lo := by
      intro heq
      rw [hchain.head_eq] at heq
      have hmem : r.lo ∈ as.map (·.lo) ++ [p.lo] := by
        cases as with
        | nil => exact List.mem_singleton.2 (Option.some.inj heq).symm
        | cons c as => exact List.mem_cons.2 (.inl (Option.some.inj heq).symm)
      rw [← List.singleton_append, ← List.append_assoc] at hnd
      exact (List.nodup_append.1 hnd).2.2 _ hmem _ List.mem_cons_self rfl
    rw [if_neg hfirst, previous, walk_find hchain (by simpa using hk), Chain.find_previous hchain hnd]
    simp

/-- What `finsh_block_merge` sees. -/
theorem finshBlockMerge_eq (hl : s.Lists (s.list w) (as ++ r :: bs)) (hsp : Spaced (as ++ r :: bs))
    (hk : (as ++ r :: bs).length < rounds) :
    s.finshBlockMerge w r.lo =
      match (as.map (·.lo)).getLast?, (bs.map (·.lo)).head?, s.meets (as.map (·.lo)).getLast? (some r.lo),
        s.meets (some r.lo) (bs.map (·.lo)).head? with
      | some p, some c, true, true =>
        some ((s.setLength p (wrap (s.length p + (s.length r.lo + s.length c + 2 * headerSize)))).setNext p
          ((s.setLength p (wrap (s.length p + (s.length r.lo + s.length c + 2 * headerSize)))).next c))
      | some p, _, true, _ => some (s.join p r.lo)
      | _, some c, _, true => some (s.join r.lo c)
      | _, _, _, _ => some s := by
  have hchain := hl.chain
  rw [List.map_append, List.map_cons] at hchain
  rw [finshBlockMerge, prevNode_eq hl hsp hk, hchain.next_eq]
  rfl

/-- A free block that touches nothing in front of it. -/
theorem merge_right (hl : s.Lists (s.list w) (as ++ r :: bs)) (hsp : Spaced (as ++ r :: bs))
    (hm : InMemory (as ++ r :: bs)) (hk : (as ++ r :: bs).length < rounds) (hhi : ∀ b ∈ as ++ r :: bs, b.hi ≤ 2 ^ 32)
    (hlarge : ∀ b ∈ as ++ r :: bs, headerSize ≤ b.len) (has : ∀ b ∈ as, b.hi < r.lo) (hbs : ∀ b ∈ bs, r.hi ≤ b.lo) :
    ∃ s', s.finshBlockMerge w r.lo = some s' ∧ s'.Lists (s'.list w) (FreeList.insert r (as ++ bs)) ∧
      (∀ w', s'.list w' = s.list w') ∧ Touches s s' [r.lo] := by
  have hmeets : s.meets (as.map (·.lo)).getLast? (some r.lo) = false := by
    rcases List.eq_nil_or_concat' as with rfl | ⟨as, p, rfl⟩
    · rfl
    · have hp := has p (by simp)
      have hlen := hl.length p (by simp)
      rw [List.map_append, List.map_singleton, List.getLast?_concat, meets_some (n := p.hi)]
      · exact decide_eq_false (by omega)
      · unfold Range.hi
        omega
  have hrlen := hl.length r (by simp)
  rw [finshBlockMerge_eq hl hsp hk, hmeets, insert_append has]
  cases bs with
  | nil =>
    refine ⟨s, ?_, hl, fun _ => rfl, Touches.refl⟩
    cases (as.map (·.lo)).getLast? <;> rfl
  | cons c bs =>
    have hc := hbs c List.mem_cons_self
    have hclen := hl.length c (by simp)
    have hchi := hhi c (by simp)
    have hrpos := hlarge r (by simp)
    have hcne : c.hi ≠ r.lo := by
      unfold Range.hi headerSize at *
      omega
    have hjoin : s.meets (some r.lo) ((c :: bs).map (·.lo)).head? = decide (r.hi = c.lo) :=
      meets_some (by unfold Range.hi; omega)
    rw [insert_of_ne hcne, hjoin]
    by_cases htouch : r.hi = c.lo
    · have hn : wrap (s.length r.lo + (s.length c.lo + headerSize)) = s.length r.lo + (s.length c.lo + headerSize) := by
        refine Nat.mod_eq_of_lt ?_
        unfold Range.hi headerSize at *
        omega
      have hsum : s.length r.lo + (s.length c.lo + headerSize) + headerSize = r.len + c.len := by omega
      refine ⟨s.join r.lo c.lo, ?_, ?_, fun w' => by rw [join, list_setNext, list_setLength], ?_⟩
      · rw [decide_eq_true htouch]
        cases (as.map (·.lo)).getLast? <;> rfl
      · rw [if_pos htouch, join, list_setNext, list_setLength, hn, ← hsum]
        refine hl.merge (q := [c]) hsp hm ?_ ?_
        · rw [← hn]
          exact Nat.mod_lt _ (by omega)
        · have hchain := hl.chain
          rw [← List.singleton_append, ← List.append_assoc, List.map_append, List.map_cons] at hchain
          exact hchain.next_eq
      · exact (touches_setLength (by simp)).trans (touches_setNext (by simp))
    · refine ⟨s, ?_, ?_, fun _ => rfl, Touches.refl⟩
      · rw [decide_eq_false htouch]
        cases (as.map (·.lo)).getLast? <;> rfl
      · rw [if_neg htouch, if_pos (by omega)]
        exact hl

/-- A free block that touches the one in front of it. -/
theorem merge_left (hl : s.Lists (s.list w) (as ++ b :: r :: bs)) (hsp : Spaced (as ++ b :: r :: bs))
    (hm : InMemory (as ++ b :: r :: bs)) (hk : (as ++ b :: r :: bs).length < rounds)
    (hhi : ∀ c ∈ as ++ b :: r :: bs, c.hi ≤ 2 ^ 32) (htouch : b.hi = r.lo) :
    ∃ s', s.finshBlockMerge w r.lo = some s' ∧ s'.Lists (s'.list w) (as ++ FreeList.insert r (b :: bs)) ∧
      (∀ w', s'.list w' = s.list w') ∧ Touches s s' [b.lo] := by
  have hblen := hl.length b (by simp)
  have hrlen := hl.length r (by simp)
  have hrhi := hhi r (by simp)
  have hlast : ((as ++ [b]).map (·.lo)).getLast? = some b.lo := by simp
  have hmeets : s.meets (some b.lo) (some r.lo) = true := by
    rw [meets_some (n := b.hi)]
    · exact decide_eq_true htouch
    · unfold Range.hi
      omega
  have happend : as ++ b :: r :: bs = as ++ [b] ++ r :: bs := List.append_cons as b (r :: bs)
  have heq := finshBlockMerge_eq (happend ▸ hl) (happend ▸ hsp) (happend ▸ hk)
  rw [hlast, hmeets] at heq
  have hnext : s.next r.lo = (bs.map (·.lo)).head? := by
    have hchain := hl.chain
    rw [List.map_append, List.map_cons, List.map_cons] at hchain
    exact hchain.behind.2.head_eq
  -- the merge with the block in front only
  have hjoin : (s.join b.lo r.lo).Lists (s.list w) (as ++ ⟨b.lo, b.len + r.len⟩ :: bs) := by
    have hn : wrap (s.length b.lo + (s.length r.lo + headerSize)) = s.length b.lo + (s.length r.lo + headerSize) := by
      refine Nat.mod_eq_of_lt ?_
      unfold Range.hi headerSize at *
      omega
    have hsum : s.length b.lo + (s.length r.lo + headerSize) + headerSize = b.len + r.len := by omega
    rw [join, hn, ← hsum]
    refine hl.merge (q := [r]) hsp hm ?_ hnext
    rw [← hn]
    exact Nat.mod_lt _ (by omega)
  have hjoinTouches : Touches s (s.join b.lo r.lo) [b.lo] :=
    (touches_setLength (by simp)).trans (touches_setNext (by simp))
  have hjoinList : ∀ w', (s.join b.lo r.lo).list w' = s.list w' := fun w' => by
    rw [join, list_setNext, list_setLength]
  cases bs with
  | nil =>
    rw [FreeList.insert, if_pos htouch]
    exact ⟨_, heq, by rw [hjoinList]; exact hjoin, hjoinList, hjoinTouches⟩
  | cons c bs =>
    have hmeets' : s.meets (some r.lo) ((c :: bs).map (·.lo)).head? = decide (r.hi = c.lo) :=
      meets_some (by unfold Range.hi; omega)
    rw [hmeets'] at heq
    rw [FreeList.insert, if_pos htouch]
    by_cases htouch' : r.hi = c.lo
    · have hclen := hl.length c (by simp)
      have hchi := hhi c (by simp)
      have happ : Apart c.lo b.lo := hsp.apart (by simp)
      have hn : wrap (s.length b.lo + (s.length r.lo + s.length c.lo + 2 * headerSize)) =
          s.length b.lo + (s.length r.lo + s.length c.lo + 2 * headerSize) := by
        refine Nat.mod_eq_of_lt ?_
        unfold Range.hi headerSize at *
        omega
      have hsum : s.length b.lo + (s.length r.lo + s.length c.lo + 2 * headerSize) + headerSize =
          b.len + r.len + c.len := by omega
      rw [decide_eq_true htouch'] at heq
      rw [if_pos htouch']
      refine ⟨_, heq, ?_, fun w' => by rw [list_setNext, list_setLength], ?_⟩
      · rw [list_setNext, list_setLength, next_setLength (.inr happ), hn, ← hsum]
        refine hl.merge (q := [r, c]) hsp hm ?_ ?_
        · rw [← hn]
          exact Nat.mod_lt _ (by omega)
        · have hchain := hl.chain
          rw [List.map_append, List.map_cons, List.map_cons] at hchain
          exact hchain.behind.2.2.head_eq
      · exact (touches_setLength (by simp)).trans (touches_setNext (by simp))
    · rw [decide_eq_false htouch'] at heq
      rw [if_neg htouch']
      exact ⟨_, heq, by rw [hjoinList]; exact hjoin, hjoinList, hjoinTouches⟩

/-- **Merging.** -/
theorem finshBlockMerge_spec (hl : s.Lists (s.list w) (as ++ r :: bs)) (hsp : Spaced (as ++ r :: bs))
    (hm : InMemory (as ++ r :: bs)) (hk : (as ++ r :: bs).length < rounds) (hhi : ∀ b ∈ as ++ r :: bs, b.hi ≤ 2 ^ 32)
    (hlarge : ∀ b ∈ as ++ r :: bs, headerSize ≤ b.len) (hc : Coalesced (as ++ bs)) (has : ∀ b ∈ as, b.hi ≤ r.lo)
    (hbs : ∀ b ∈ bs, r.hi ≤ b.lo) :
    ∃ s', s.finshBlockMerge w r.lo = some s' ∧ s'.Lists (s'.list w) (FreeList.insert r (as ++ bs)) ∧
      (∀ w', s'.list w' = s.list w') ∧ Touches s s' ((as ++ [r]).map (·.lo)) := by
  by_cases htouch : ∀ b ∈ as, b.hi < r.lo
  · obtain ⟨s', hs', hl', hlists, ht⟩ := merge_right hl hsp hm hk hhi hlarge htouch hbs
    exact ⟨s', hs', hl', hlists, ht.mono (by simp)⟩
  rcases List.eq_nil_or_concat' as with rfl | ⟨as, p, rfl⟩
  · exact absurd nofun htouch
  · rw [List.append_assoc, List.singleton_append] at hl hsp hm hk hhi hc
    -- only the last block in front can touch
    have hapart : ∀ b ∈ as, b.hi < p.lo := fun b hb => (List.pairwise_append.1 hc.apart).2.2 b hb p List.mem_cons_self
    have hp := has p (by simp)
    have hpr : p.hi = r.lo := by
      by_contra hne
      refine htouch fun b hb => ?_
      rcases List.mem_append.1 hb with hb | hb
      · have := hapart b hb
        have : p.lo ≤ p.hi := Nat.le_add_right _ _
        omega
      · rw [List.mem_singleton.1 hb]
        omega
    have hins : FreeList.insert r (as ++ [p] ++ bs) = as ++ FreeList.insert r (p :: bs) := by
      rw [List.append_assoc, List.singleton_append, insert_append]
      intro b hb
      have := hapart b hb
      have : p.lo ≤ p.hi := Nat.le_add_right _ _
      omega
    obtain ⟨s', hs', hl', hlists, ht⟩ := merge_left hl hsp hm hk hhi hpr
    exact ⟨s', hs', by rw [hins]; exact hl', hlists, ht.mono (by simp)⟩

end State

end RtThread.FinshHeap
