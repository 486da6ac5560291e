import RtThread.Lib.Layout
import RtThread.Spec.Memheap

/-!
# The lists of a memory heap

`Pool c s bs fl`: the items of the pool are those of the layout `bs`, linked to a circle, and the items `fl` are
linked to the free list. The functions of `memheap.c` are made of a few changes of these lists: each has a lemma
that says which members change (`newItem_get`, ...), and one that says what becomes of the pool (`Pool.split`,
`Pool.join`, `Pool.insertFree`, `Pool.removeFree`, `Pool.setMagic`).
-/

namespace RtThread.Memheap

open Bytes Layout

variable {c : Config}

/-! ## Members -/

theorem Field.end_le (f : Field) : f.offset + 4 ≤ 24 := by
  cases f <;> decide

theorem Field.disj {f g : Field} (h : f ≠ g) : f.offset + 4 ≤ g.offset ∨ g.offset + 4 ≤ f.offset := by
  cases f <;> cases g <;> first | exact absurd rfl h | decide

theorem get_set_same {m : Mem} {p v : ℕ} {f : Field} (hv : v < 2 ^ 32) : get (set m p f v) p f = v :=
  readLE_writeLE_same hv

theorem get_set_ne {m : Mem} {p v : ℕ} {f g : Field} (h : f ≠ g) : get (set m p g v) p f = get m p f := by
  have := Field.disj h
  exact readLE_writeLE_disj (by omega)

theorem get_set_disj {m : Mem} {p q v : ℕ} {f g : Field} (h : p + 24 ≤ q ∨ q + 24 ≤ p) :
    get (set m q g v) p f = get m p f := by
  have h1 := f.end_le
  have h2 := g.end_le
  exact readLE_writeLE_disj (by omega)

theorem get_congr {m m' : Mem} {p : ℕ} {f : Field} (h : ∀ i, p ≤ i → i < p + 24 → m i = m' i) :
    get m p f = get m' p f := by
  have h1 := f.end_le
  exact readLE_congr fun i h2 h3 => h i (by omega) (by omega)

@[simp] theorem set_self (s : Heap) (p : ℕ) (f : Field) (v : ℕ) : (s.set p f v).self = s.self := rfl

@[simp] theorem set_startAddr (s : Heap) (p : ℕ) (f : Field) (v : ℕ) : (s.set p f v).startAddr = s.startAddr := rfl

@[simp] theorem set_freeList (s : Heap) (p : ℕ) (f : Field) (v : ℕ) : (s.set p f v).freeList = s.freeList := rfl

/-- Addresses where structs lie, none of them over another. -/
structure Slots (A : List ℕ) : Prop where
  apart : ∀ p ∈ A, ∀ q ∈ A, p ≠ q → p + 24 ≤ q ∨ q + 24 ≤ p
  lt : ∀ p ∈ A, p < 2 ^ 32

/-- **An assignment** changes one member of one struct. -/
theorem Slots.get_set {A : List ℕ} (hA : Slots A) {s : Heap} {y p v : ℕ} {f g : Field} (hy : y ∈ A) (hp : p ∈ A)
    (hv : v < 2 ^ 32) : (s.set p g v).get y f = if y = p ∧ f = g then v else s.get y f := by
  show get (set s.mem p g v) y f = _
  by_cases hyp : y = p
  · subst hyp
    by_cases hfg : f = g
    · rw [hfg, if_pos ⟨rfl, rfl⟩]
      exact get_set_same hv
    · rw [if_neg (fun h => hfg h.2)]
      exact get_set_ne hfg
  · rw [if_neg (fun h => hyp h.1)]
    exact get_set_disj (hA.apart y hy p hp hyp)

/-! ## Changes of the lists -/

/-- The members of the structs, as a function. -/
abbrev View := ℕ → Field → ℕ

/-- `x` goes to the front of the free list with the header at `free`. -/
def inserted (free x : ℕ) (g : View) : View := fun y f =>
  if y = free ∧ f = .nextFree then x
  else if y = g free .nextFree ∧ f = .prevFree then x
  else if y = x ∧ f = .prevFree then free
  else if y = x ∧ f = .nextFree then g free .nextFree
  else g y f

/-- `x` leaves the free list. -/
def removed (x : ℕ) (g : View) : View := fun y f =>
  if y = g x .prevFree ∧ f = .nextFree then g x .nextFree
  else if y = g x .nextFree ∧ f = .prevFree then g x .prevFree
  else g y f

/-- `new` goes behind `header` in the block list of `heap`. -/
def divided (heap header new : ℕ) (g : View) : View := fun y f =>
  if y = header ∧ f = .next then new
  else if y = g header .next ∧ f = .prev then new
  else if y = new ∧ f = .next then g header .next
  else if y = new ∧ f = .prev then header
  else if y = new ∧ f = .poolPtr then heap
  else if y = new ∧ f = .magic then memheapMagic
  else g y f

/-- `x`, which is behind `header`, leaves the block list. -/
def merged (header x : ℕ) (g : View) : View := fun y f =>
  if y = header ∧ f = .next then g x .next
  else if y = g x .next ∧ f = .prev then header
  else g y f

/-- One member changes. -/
def assigned (x : ℕ) (h : Field) (v : ℕ) (g : View) : View := fun y f => if y = x ∧ f = h then v else g y f

/-- The two lists do not share a member. -/
theorem removed_merged (header x z : ℕ) (g : View) :
    removed z (merged header x g) = merged header x (removed z g) := by
  funext y f
  unfold removed merged
  cases f <;> simp

section Changes

variable {A : List ℕ} {s : Heap} {x y header new : ℕ}

theorem insertFree_get (hA : Slots A) (hx : x ∈ A) (hl : s.freeList ∈ A) (hb : s.get s.freeList .nextFree ∈ A)
    (hxl : x ≠ s.freeList) (hy : y ∈ A) (f : Field) : (insertFree s x).get y f = inserted s.freeList x s.get y f := by
  have hfirst : ((s.set x .nextFree (s.get s.freeList .nextFree)).set x .prevFree s.freeList).get s.freeList
      .nextFree = s.get s.freeList .nextFree := by
    rw [hA.get_set hl hx (hA.lt _ hl), if_neg (by simp), hA.get_set hl hx (hA.lt _ hb),
      if_neg (fun h => hxl h.1.symm)]
  unfold insertFree inserted
  simp only [set_freeList, hfirst]
  rw [hA.get_set hy hl (hA.lt _ hx), hA.get_set hy hb (hA.lt _ hx), hA.get_set hy hx (hA.lt _ hl),
    hA.get_set hy hx (hA.lt _ hb)]

theorem removeFree_get (hA : Slots A) (hx : x ∈ A) (ha : s.get x .prevFree ∈ A) (hb : s.get x .nextFree ∈ A)
    (hy : y ∈ A) (f : Field) : (removeFree s x).get y f = removed x s.get y f := by
  have hprev : (s.set (s.get x .nextFree) .prevFree (s.get x .prevFree)).get x .prevFree = s.get x .prevFree := by
    rw [hA.get_set hx hb (hA.lt _ ha), ite_eq_right_iff]
    exact fun _ => rfl
  have hnext : (s.set (s.get x .nextFree) .prevFree (s.get x .prevFree)).get x .nextFree = s.get x .nextFree := by
    rw [hA.get_set hx hb (hA.lt _ ha), if_neg (by simp)]
  unfold removeFree removed
  simp only [hprev, hnext]
  rw [hA.get_set hy ha (hA.lt _ hb), hA.get_set hy hb (hA.lt _ ha)]

theorem newItem_get (hA : Slots A) (hn : new ∈ A) (hh : header ∈ A) (hb : s.get header .next ∈ A)
    (hnh : new ≠ header) (hself : s.self < 2 ^ 32) (hy : y ∈ A) (f : Field) :
    (newItem s header new).get y f = divided s.self header new s.get y f := by
  have hmagic : memheapMagic < 2 ^ 32 := by decide
  have h₁ : (((s.set new .magic memheapMagic).set new .poolPtr s.self).set new .prev header).get header .next =
      s.get header .next := by
    rw [hA.get_set hh hn (hA.lt _ hh), if_neg (by simp), hA.get_set hh hn hself, if_neg (by simp),
      hA.get_set hh hn hmagic, if_neg (by simp)]
  have h₂ : ((((s.set new .magic memheapMagic).set new .poolPtr s.self).set new .prev header).set new .next
      (s.get header .next)).get header .next = s.get header .next := by
    rw [hA.get_set hh hn (hA.lt _ hb), if_neg (fun h => hnh h.1.symm), h₁]
  unfold newItem divided
  simp only [set_self, h₁, h₂]
  rw [hA.get_set hy hh (hA.lt _ hn), hA.get_set hy hb (hA.lt _ hn), hA.get_set hy hn (hA.lt _ hb),
    hA.get_set hy hn (hA.lt _ hh), hA.get_set hy hn hself, hA.get_set hy hn hmagic]

end Changes

/-! ## Pools -/

theorem Config.memheapSize_bounds : 24 ≤ c.memheapSize ∧ c.memheapSize < 2 ^ 29 := by
  have hpow : 2 ^ c.alignLog ≤ 2 ^ 28 := Nat.pow_le_pow_right (by decide) c.alignLog_le
  have hlog := c.alignLog_le
  have hb := Word.alignUp_bounds (w := 32) (k := c.alignLog) (n := 24) (by omega) (by omega)
  unfold Config.memheapSize Config.rtAlign Config.sizeofItem
  omega

/-- The `magic` of an item. -/
def magicOf (used : Bool) : ℕ := if used then memheapMagic ||| memheapUsed else memheapMagic

theorem magicOf_lt (u : Bool) : magicOf u < 2 ^ 32 := by
  cases u <;> decide

/-- **A pool** at `a`, as the members `g` of its items show it: it has the layout `bs`, and the free list with
the header at `free` has the items `fl`. -/
structure Pool (c : Config) (heap a free : ℕ) (g : View) (bs : List Blk) (fl : List ℕ) : Prop where
  size : ∀ b ∈ bs, c.memheapSize ≤ b.size
  bound : a + total bs ≤ 2 ^ 32
  apart : free + 24 ≤ a ∨ a + total bs ≤ free
  free_lt : free < 2 ^ 32
  heap_lt : heap < 2 ^ 32
  magic : ∀ u x k, (x, k) ∈ blocksAt u a bs → g x .magic = magicOf u
  poolPtr : ∀ x ∈ starts a bs, g x .poolPtr = heap
  blocks : Circular (fun x => g x .next) (fun x => g x .prev) (starts a bs)
  frees : Circular (fun x => g x .nextFree) (fun x => g x .prevFree) (free :: fl)
  nodup : fl.Nodup
  sub : ∀ y ∈ fl, y ∈ starts a bs

/-- The items of a layout, and the header of the free list. -/
theorem slots_of {a free : ℕ} {bs : List Blk} (hsize : ∀ b ∈ bs, c.memheapSize ≤ b.size)
    (hbound : a + total bs ≤ 2 ^ 32) (hapart : free + 24 ≤ a ∨ a + total bs ≤ free) (hfree : free < 2 ^ 32) :
    Slots (free :: starts a bs) := by
  have hH := c.memheapSize_bounds.1
  obtain ⟨hp, hm⟩ := starts_sorted hsize a
  refine ⟨fun p hpA q hqA hne => ?_, fun p hpA => ?_⟩
  · rcases List.mem_cons.1 hpA with rfl | hp'
    · rcases List.mem_cons.1 hqA with rfl | hq'
      · exact absurd rfl hne
      · have := hm q hq'
        omega
    · have hpb := hm p hp'
      rcases List.mem_cons.1 hqA with rfl | hq'
      · omega
      · have hor : (starts a bs).Pairwise fun x y => x + c.memheapSize ≤ y ∨ y + c.memheapSize ≤ x :=
          hp.imp fun h => .inl h
        have hsymm : Std.Symm fun x y => x + c.memheapSize ≤ y ∨ y + c.memheapSize ≤ x := ⟨fun _ _ h => h.symm⟩
        have := hor.forall hp' hq' hne
        omega
  · rcases List.mem_cons.1 hpA with rfl | hp'
    · exact hfree
    · have := hm p hp'
      omega

namespace Pool

variable {heap a free : ℕ} {g g' : View} {bs l r : List Blk} {b b' : Blk} {fl : List ℕ} {u v : Bool}
  {k n j x : ℕ}

theorem slots (h : Pool c heap a free g bs fl) : Slots (free :: starts a bs) :=
  slots_of h.size h.bound h.apart h.free_lt

theorem starts_nodup (h : Pool c heap a free g bs fl) : (starts a bs).Nodup :=
  Layout.starts_nodup (Nat.lt_of_lt_of_le (by decide) c.memheapSize_bounds.1) h.size _

theorem free_notMem (h : Pool c heap a free g bs fl) : free ∉ starts a bs := by
  intro hmem
  have := (starts_sorted h.size a).2 _ hmem
  have := c.memheapSize_bounds.1
  have := h.apart
  omega

theorem nodup_free (h : Pool c heap a free g bs fl) : (free :: fl).Nodup :=
  List.nodup_cons.2 ⟨fun hmem => h.free_notMem (h.sub _ hmem), h.nodup⟩

theorem free_slots (h : Pool c heap a free g bs fl) : ∀ y ∈ free :: fl, y ∈ free :: starts a bs := by
  intro y hy
  rcases List.mem_cons.1 hy with rfl | hy
  · exact List.mem_cons_self
  · exact List.mem_cons_of_mem _ (h.sub y hy)

/-- Two items in a row. -/
theorem link (h : Pool c heap a free g (l ++ b :: b' :: r) fl) :
    g (a + total l) .next = a + total l + b.size ∧ g (a + total l + b.size) .prev = a + total l := by
  have hb := h.blocks
  rw [starts_mid] at hb
  exact hb.link

theorem next_mem (h : Pool c heap a free g bs fl) (hx : x ∈ starts a bs) : g x .next ∈ starts a bs :=
  h.blocks.next_mem hx

/-- A pool depends on the members of its items. -/
theorem congr (h : Pool c heap a free g bs fl) (hg : ∀ y ∈ free :: starts a bs, ∀ f, g' y f = g y f) :
    Pool c heap a free g' bs fl := by
  have hitem : ∀ y ∈ starts a bs, ∀ f, g' y f = g y f := fun y hy => hg y (List.mem_cons_of_mem _ hy)
  refine ⟨h.size, h.bound, h.apart, h.free_lt, h.heap_lt, fun u x k hx => ?_, fun x hx => ?_, ?_, ?_, h.nodup, h.sub⟩
  · rw [hitem x (mem_starts_of_blocksAt hx)]
    exact h.magic u x k hx
  · rw [hitem x hx]
    exact h.poolPtr x hx
  · exact h.blocks.congr (fun y hy => hitem y hy _) fun y hy => hitem y hy _
  · exact h.frees.congr (fun y hy => hg y (h.free_slots y hy) _) fun y hy => hg y (h.free_slots y hy) _

/-- **A block is split** at `n` bytes: the rest is a new item, which is not in the free list yet. -/
theorem split (h : Pool c heap a free g (l ++ ⟨u, k⟩ :: r) fl) (hn : c.memheapSize ≤ n)
    (hk : n + c.memheapSize ≤ k) : Pool c heap a free (divided heap (a + total l) (a + total l + n) g)
      (l ++ ⟨u, n⟩ :: ⟨false, k - n⟩ :: r) fl := by
  have hH := c.memheapSize_bounds.1
  have htot : total (l ++ ⟨u, n⟩ :: ⟨false, k - n⟩ :: r) = total (l ++ ⟨u, k⟩ :: r) := by
    simp only [total_append, total_cons]
    omega
  have hrest : a + total l + n + (k - n) = a + total l + k := by omega
  have hsize : ∀ b ∈ l ++ ⟨u, n⟩ :: ⟨false, k - n⟩ :: r, c.memheapSize ≤ b.size := by
    intro b hb
    have hold := h.size b
    simp only [List.mem_append, List.mem_cons] at hb hold
    rcases hb with hb | rfl | rfl | hb
    · exact hold (.inl hb)
    · exact hn
    · show c.memheapSize ≤ k - n
      omega
    · exact hold (.inr (.inr hb))
  have hold : starts a (l ++ ⟨u, k⟩ :: r) = starts a l ++ (a + total l) :: starts (a + total l + k) r :=
    starts_mid _ _ _ _
  have hnew : starts a (l ++ ⟨u, n⟩ :: ⟨false, k - n⟩ :: r) =
      starts a l ++ (a + total l) :: (a + total l + n) :: starts (a + total l + k) r := by
    rw [starts_mid, ← hrest]
    rfl
  have hnd := Layout.starts_nodup (by omega) hsize a
  rw [hnew] at hnd
  -- the old items are other items than the new one
  have hother : ∀ y ∈ starts a (l ++ ⟨u, k⟩ :: r), y ≠ a + total l + n := by
    rintro y hy rfl
    rw [hold] at hy
    simp only [List.nodup_append', List.nodup_cons, List.mem_cons, List.disjoint_cons_right] at hnd
    simp only [List.mem_append, List.mem_cons] at hy
    have : a + total l + n ≠ a + total l := by omega
    tauto
  have hsub : ∀ y ∈ starts a (l ++ ⟨u, k⟩ :: r), y ∈ starts a (l ++ ⟨u, n⟩ :: ⟨false, k - n⟩ :: r) := by
    intro y hy
    rw [hold] at hy
    rw [hnew]
    simp only [List.mem_cons, List.mem_append] at hy ⊢
    tauto
  have hheader : a + total l ∈ starts a (l ++ ⟨u, k⟩ :: r) := by
    rw [hold]
    simp
  have hbn := hother _ (h.next_mem hheader)
  -- members of the old items that the change leaves alone
  have hkeep : ∀ y ∈ starts a (l ++ ⟨u, k⟩ :: r), ∀ f, f ≠ .next → f ≠ .prev →
      divided heap (a + total l) (a + total l + n) g y f = g y f := by
    intro y hy f hfn hfp
    simp [divided, hfn, hfp, hother y hy]
  refine ⟨hsize, htot ▸ h.bound, htot ▸ h.apart, h.free_lt, h.heap_lt, ?_, ?_, ?_, ?_, h.nodup,
    fun y hy => hsub y (h.sub y hy)⟩
  · intro w y i hy
    have hmid : (y, i) ∈ blocksAt w a l ∨ y = a + total l ∧ u = w ∨ y = a + total l + n ∧ w = false ∨
        (y, i) ∈ blocksAt w (a + total l + k) r := by
      simp only [blocksAt_append, List.mem_append, mem_blocksAt_cons, Prod.mk.injEq, hrest] at hy
      tauto
    have hblocks := fun x => h.magic w y x
    simp only [blocksAt_append, List.mem_append, mem_blocksAt_cons, Prod.mk.injEq] at hblocks
    have hmem := fun x => @mem_starts_of_blocksAt w a y x (l ++ ⟨u, k⟩ :: r)
    simp only [blocksAt_append, List.mem_append, mem_blocksAt_cons, Prod.mk.injEq] at hmem
    rcases hmid with hy | ⟨rfl, rfl⟩ | ⟨rfl, rfl⟩ | hy
    · rw [hkeep y (hmem i (.inl hy)) .magic (by decide) (by decide)]
      exact hblocks i (.inl hy)
    · rw [hkeep _ hheader .magic (by decide) (by decide)]
      exact hblocks k (.inr (.inl ⟨⟨rfl, rfl⟩, rfl⟩))
    · simp [divided, magicOf]
    · rw [hkeep y (hmem i (.inr (.inr hy))) .magic (by decide) (by decide)]
      exact hblocks i (.inr (.inr hy))
  · intro y hy
    by_cases hyn : y = a + total l + n
    · simp [divided, hyn]
    · have hyold : y ∈ starts a (l ++ ⟨u, k⟩ :: r) := by
        rw [hnew] at hy
        rw [hold]
        simp only [List.mem_append, List.mem_cons] at hy ⊢
        tauto
      rw [hkeep y hyold .poolPtr (by decide) (by decide)]
      exact h.poolPtr y hyold
  · have hblocks := h.blocks
    have hndold := h.starts_nodup
    rw [hold] at hblocks hndold hother
    rw [hnew]
    refine hblocks.insert hndold ?_ ?_ ?_ ?_ (fun y hy hya => ?_) fun y hy hyb => ?_
    · simp [divided]
    · simp [divided, hbn.symm]
    · simp [divided, show n ≠ 0 by omega]
    · simp [divided]
    · simp [divided, hya, hother y hy]
    · simp [divided, hyb, hother y hy]
  · exact h.frees.congr (fun y _ => by simp [divided]) fun y _ => by simp [divided]

/-- Joined blocks lie where blocks have been. -/
theorem join_slots (y : ℕ) (hy : y ∈ free :: starts a (l ++ ⟨u, k + j⟩ :: r)) :
    y ∈ free :: starts a (l ++ ⟨u, k⟩ :: ⟨v, j⟩ :: r) := by
  rw [starts_mid] at hy ⊢
  simp only [starts, List.mem_cons, List.mem_append, ← Nat.add_assoc] at hy ⊢
  tauto

/-- **Two blocks are joined**: the second one, which is not in the free list, is no item any more. -/
theorem join (h : Pool c heap a free g (l ++ ⟨u, k⟩ :: ⟨v, j⟩ :: r) fl) (hx : a + total l + k ∉ fl) :
    Pool c heap a free (merged (a + total l) (a + total l + k) g) (l ++ ⟨u, k + j⟩ :: r) fl := by
  have htot : total (l ++ ⟨u, k + j⟩ :: r) = total (l ++ ⟨u, k⟩ :: ⟨v, j⟩ :: r) := by
    simp only [total_append, total_cons]
    omega
  have hold : starts a (l ++ ⟨u, k⟩ :: ⟨v, j⟩ :: r) =
      starts a l ++ (a + total l) :: (a + total l + k) :: starts (a + total l + k + j) r := starts_mid _ _ _ _
  have hnew : starts a (l ++ ⟨u, k + j⟩ :: r) = starts a l ++ (a + total l) :: starts (a + total l + k + j) r := by
    rw [starts_mid]
    show _ ++ _ :: starts (a + total l + (k + j)) r = _
    rw [← Nat.add_assoc]
  have hsub : ∀ y ∈ starts a (l ++ ⟨u, k + j⟩ :: r), y ∈ starts a (l ++ ⟨u, k⟩ :: ⟨v, j⟩ :: r) := by
    intro y hy
    rw [hnew] at hy
    rw [hold]
    simp only [List.mem_append, List.mem_cons] at hy ⊢
    tauto
  have hkeep : ∀ y f, f ≠ .next → f ≠ .prev → merged (a + total l) (a + total l + k) g y f = g y f := by
    intro y f hfn hfp
    simp [merged, hfn, hfp]
  refine ⟨?_, htot ▸ h.bound, htot ▸ h.apart, h.free_lt, h.heap_lt, ?_, ?_, ?_, ?_, h.nodup, ?_⟩
  · intro b hb
    have hsize := h.size
    simp only [List.mem_append, List.mem_cons] at hb hsize
    rcases hb with hb | rfl | hb
    · exact hsize b (.inl hb)
    · exact Nat.le_trans (hsize ⟨u, k⟩ (.inr (.inl rfl))) (Nat.le_add_right k j)
    · exact hsize b (.inr (.inr (.inr hb)))
  · intro w y i hy
    rw [hkeep y .magic (by decide) (by decide)]
    have hblocks := fun x => h.magic w y x
    simp only [blocksAt_append, List.mem_append, mem_blocksAt_cons, Prod.mk.injEq, ← Nat.add_assoc] at hy hblocks
    rcases hy with hy | ⟨⟨rfl, rfl⟩, rfl⟩ | hy
    · exact hblocks i (.inl hy)
    · exact hblocks k (.inr (.inl ⟨⟨rfl, rfl⟩, rfl⟩))
    · exact hblocks i (.inr (.inr (.inr hy)))
  · intro y hy
    rw [hkeep y .poolPtr (by decide) (by decide)]
    exact h.poolPtr y (hsub y hy)
  · have hblocks := h.blocks
    have hnd := h.starts_nodup
    rw [hold] at hblocks hnd
    rw [hnew]
    refine hblocks.remove hnd ?_ ?_ (fun y hy hya => ?_) fun y hy hyb => ?_
    · simp [merged]
    · simp [merged]
    · simp [merged, hya]
    · simp [merged, hyb]
  · exact h.frees.congr (fun y _ => by simp [merged]) fun y _ => by simp [merged]
  · intro y hy
    have hyold := h.sub y hy
    rw [hold] at hyold
    rw [hnew]
    have hne : y ≠ a + total l + k := by
      rintro rfl
      exact hx hy
    simp only [List.mem_append, List.mem_cons] at hyold ⊢
    tauto

/-- **An item goes to the free list.** -/
theorem insertFree (h : Pool c heap a free g bs fl) (hx : x ∈ starts a bs) (hxf : x ∉ fl) :
    Pool c heap a free (inserted free x g) bs (x :: fl) := by
  have hxl : x ≠ free := by
    rintro rfl
    exact h.free_notMem hx
  have hfirst : g free .nextFree ≠ x := by
    have hmem := h.frees.next_mem List.mem_cons_self
    rintro rfl
    rcases List.mem_cons.1 hmem with hmem | hmem
    · exact hxl hmem
    · exact hxf hmem
  have hkeep : ∀ y f, f ≠ .nextFree → f ≠ .prevFree → inserted free x g y f = g y f := by
    intro y f hfn hfp
    simp [inserted, hfn, hfp]
  refine ⟨h.size, h.bound, h.apart, h.free_lt, h.heap_lt, fun u y k hy => ?_, fun y hy => ?_, ?_, ?_,
    List.nodup_cons.2 ⟨hxf, h.nodup⟩, ?_⟩
  · rw [hkeep y .magic (by decide) (by decide)]
    exact h.magic u y k hy
  · rw [hkeep y .poolPtr (by decide) (by decide)]
    exact h.poolPtr y hy
  · exact h.blocks.congr (fun y _ => by simp [inserted]) fun y _ => by simp [inserted]
  · have hother : ∀ y ∈ free :: fl, y ≠ x := by
      rintro y hy rfl
      rcases List.mem_cons.1 hy with hy | hy
      · exact hxl hy
      · exact hxf hy
    refine Circular.insert (l := []) h.frees h.nodup_free ?_ ?_ ?_ ?_ (fun y hy hya => ?_) fun y hy hyb => ?_
    · simp [inserted]
    · simp [inserted, hfirst.symm]
    · simp [inserted, hxl]
    · simp [inserted]
    · simp [inserted, hya, hother y hy]
    · simp [inserted, hyb, hother y hy]
  · intro y hy
    rcases List.mem_cons.1 hy with rfl | hy
    · exact hx
    · exact h.sub y hy

/-- **An item leaves the free list.** -/
theorem removeFree (h : Pool c heap a free g bs fl) (hx : x ∈ fl) :
    Pool c heap a free (removed x g) bs (fl.erase x) := by
  have hkeep : ∀ y f, f ≠ .nextFree → f ≠ .prevFree → removed x g y f = g y f := by
    intro y f hfn hfp
    simp [removed, hfn, hfp]
  refine ⟨h.size, h.bound, h.apart, h.free_lt, h.heap_lt, fun u y k hy => ?_, fun y hy => ?_, ?_, ?_,
    h.nodup.erase x, fun y hy => h.sub y (List.mem_of_mem_erase hy)⟩
  · rw [hkeep y .magic (by decide) (by decide)]
    exact h.magic u y k hy
  · rw [hkeep y .poolPtr (by decide) (by decide)]
    exact h.poolPtr y hy
  · exact h.blocks.congr (fun y _ => by simp [removed]) fun y _ => by simp [removed]
  · obtain ⟨f₁, f₂, rfl⟩ := List.append_of_mem hx
    have hnd := h.nodup_free
    have hfrees := h.frees
    have hx₁ : x ∉ f₁ := fun h₁ => (List.nodup_append'.1 h.nodup).2.2 h₁ List.mem_cons_self
    rw [List.erase_append_right _ hx₁, List.erase_cons_head]
    -- the node before `x`: an item, or the header
    obtain ⟨p, z, hp⟩ : ∃ p z, free :: f₁ = p ++ [z] := by
      refine ⟨(free :: f₁).dropLast, (free :: f₁).getLast (by simp), ?_⟩
      exact (List.dropLast_append_getLast _).symm
    have hsplit : ∀ q, free :: (f₁ ++ q) = p ++ z :: q := by
      intro q
      rw [← List.cons_append, hp, List.append_assoc]
      rfl
    rw [hsplit] at hnd hfrees
    rw [hsplit]
    have hz : g x .prevFree = z := hfrees.link.2
    refine hfrees.remove hnd ?_ ?_ (fun y hy hya => ?_) fun y hy hyb => ?_
    · simp [removed, hz]
    · simp [removed, hz]
    · simp [removed, hz, hya]
    · simp [removed, hyb]

/-- **An item is marked.** -/
theorem setMagic (h : Pool c heap a free g (l ++ ⟨u, k⟩ :: r) fl) (v : Bool) :
    Pool c heap a free (assigned (a + total l) .magic (magicOf v) g) (l ++ ⟨v, k⟩ :: r) fl := by
  have hnd := h.starts_nodup
  have hsame : starts a (l ++ ⟨v, k⟩ :: r) = starts a (l ++ ⟨u, k⟩ :: r) := by rw [starts_mid, starts_mid]
  have htot : total (l ++ ⟨v, k⟩ :: r) = total (l ++ ⟨u, k⟩ :: r) := by simp
  have hkeep : ∀ y f, f ≠ .magic → assigned (a + total l) .magic (magicOf v) g y f = g y f := by
    intro y f hf
    simp [assigned, hf]
  refine ⟨?_, htot ▸ h.bound, htot ▸ h.apart, h.free_lt, h.heap_lt, ?_, ?_, ?_, ?_, h.nodup, hsame ▸ h.sub⟩
  · intro b hb
    have hsize := h.size
    simp only [List.mem_append, List.mem_cons] at hb hsize
    rcases hb with hb | rfl | hb
    · exact hsize b (.inl hb)
    · exact hsize ⟨u, k⟩ (.inr (.inl rfl))
    · exact hsize b (.inr (.inr hb))
  · intro w y i hy
    have hblocks := fun x => h.magic w y x
    rw [starts_mid] at hnd
    simp only [List.nodup_append', List.nodup_cons, List.disjoint_cons_right] at hnd
    simp only [blocksAt_append, List.mem_append, mem_blocksAt_cons, Prod.mk.injEq] at hy hblocks
    rcases hy with hy | ⟨⟨rfl, rfl⟩, rfl⟩ | hy
    · have hne : y ≠ a + total l := by
        rintro rfl
        exact hnd.2.2.1 (mem_starts_of_blocksAt hy)
      simp only [assigned, hne, false_and, if_false]
      exact hblocks i (.inl hy)
    · simp [assigned]
    · have hne : y ≠ a + total l := by
        rintro rfl
        exact hnd.2.1.1 (mem_starts_of_blocksAt hy)
      simp only [assigned, hne, false_and, if_false]
      exact hblocks i (.inr (.inr hy))
  · intro y hy
    rw [hkeep y .poolPtr (by decide)]
    exact h.poolPtr y (hsame ▸ hy)
  · rw [hsame]
    exact h.blocks.congr (fun y _ => hkeep y _ (by decide)) fun y _ => hkeep y _ (by decide)
  · exact h.frees.congr (fun y _ => hkeep y _ (by decide)) fun y _ => hkeep y _ (by decide)

/-- The free-list links of an item that is not in the free list do not matter. -/
theorem clear (h : Pool c heap a free g bs fl) (hx : x ∈ starts a bs) (hxf : x ∉ fl) {f : Field}
    (hf : f = .nextFree ∨ f = .prevFree) (w : ℕ) : Pool c heap a free (assigned x f w g) bs fl := by
  have hkeep : ∀ y e, (y ∈ free :: fl ∨ e ≠ .nextFree ∧ e ≠ .prevFree) → assigned x f w g y e = g y e := by
    intro y e hye
    refine if_neg ?_
    rintro ⟨rfl, rfl⟩
    rcases hye with hye | hye
    · rcases List.mem_cons.1 hye with rfl | hye
      · exact h.free_notMem hx
      · exact hxf hye
    · rcases hf with rfl | rfl
      · exact hye.1 rfl
      · exact hye.2 rfl
  refine ⟨h.size, h.bound, h.apart, h.free_lt, h.heap_lt, fun u y k hy => ?_, fun y hy => ?_, ?_, ?_, h.nodup, h.sub⟩
  · rw [hkeep y .magic (.inr (by decide))]
    exact h.magic u y k hy
  · rw [hkeep y .poolPtr (.inr (by decide))]
    exact h.poolPtr y hy
  · exact h.blocks.congr (fun y _ => hkeep y _ (.inr (by decide))) fun y _ => hkeep y _ (.inr (by decide))
  · exact h.frees.congr (fun y hy => hkeep y _ (.inl hy)) fun y hy => hkeep y _ (.inl hy)

end Pool

end RtThread.Memheap
