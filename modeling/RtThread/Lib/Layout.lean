import Mathlib.Data.List.Chain
import Mathlib.Tactic.Linarith

/-!
# Block layouts

A run of memory cut into consecutive blocks, each used or unused. This is what a
heap with boundary headers is for: taking a block splits it (`cut`), giving it
back joins it with its unused neighbours (`plug`).

* `mem_blocksAt`: the blocks of a layout with their offsets.
* `blocksAt_sorted`: the blocks lie one behind the other.
* `isChain_offsets`, `starts_sorted`: what a walk from block to block meets.
* `noAdj_plug`, `total_plug`, `usedTotal_plug`, `used_plug`, `mem_plug`: joining keeps the length
  and the used blocks, and leaves no two unused neighbours.
* `Owned`: the pointers to the used blocks, with a lemma for each change of the layout.
* `atFree_plug`, `atLowest_plug`, `atFree_replace`, `atLowest_cut`: how a pointer
  to an unused block, or to the lowest one, has to follow.
-/

namespace Layout

/-- A block: its state, and the bytes from its header to the next one. -/
structure Blk where
  used : Bool
  size : ℕ
  deriving DecidableEq

/-- The length of a layout. -/
def total : List Blk → ℕ
  | [] => 0
  | b :: bs => b.size + total bs

/-- The offset of the last block of a layout at `a`, or `p` for the empty one. -/
def lastOff : ℕ → ℕ → List Blk → ℕ
  | _, p, [] => p
  | a, _, b :: bs => lastOff (a + b.size) a bs

/-- No two neighbours are both unused. -/
def NoAdj (bs : List Blk) : Prop := bs.IsChain fun a b => a.used = true ∨ b.used = true

/-- The blocks in state `u` of a layout at `a`: their offsets and sizes. -/
def blocksAt (u : Bool) : ℕ → List Blk → List (ℕ × ℕ)
  | _, [] => []
  | a, b :: bs =>
    if b.used = u then (a, b.size) :: blocksAt u (a + b.size) bs else blocksAt u (a + b.size) bs

/-- The offsets of the blocks of a layout at `a`, and of its end. -/
def offsets : ℕ → List Blk → List ℕ
  | a, [] => [a]
  | a, b :: bs => a :: offsets (a + b.size) bs

/-- The addresses of the blocks of a layout at `a`. -/
def starts : ℕ → List Blk → List ℕ
  | _, [] => []
  | a, b :: bs => a :: starts (a + b.size) bs

/-- The room in the unused blocks of a layout, behind headers of `d` bytes. -/
def freeRoom (d : ℕ) : List Blk → ℕ
  | [] => 0
  | b :: bs => (if b.used then 0 else b.size - d) + freeRoom d bs

/-- The length of the used blocks of a layout. -/
def usedTotal : List Blk → ℕ
  | [] => 0
  | b :: bs => (if b.used then b.size else 0) + usedTotal bs

@[simp] theorem total_nil : total [] = 0 := rfl

@[simp] theorem total_cons (b : Blk) (bs : List Blk) : total (b :: bs) = b.size + total bs := rfl

@[simp] theorem total_append (l r : List Blk) : total (l ++ r) = total l + total r := by
  induction l with
  | nil => simp
  | cons b l ih => simp [ih]; omega

@[simp] theorem total_reverse (l : List Blk) : total l.reverse = total l := by
  induction l with
  | nil => rfl
  | cons b l ih => simp [ih]; omega

@[simp] theorem usedTotal_append (l r : List Blk) : usedTotal (l ++ r) = usedTotal l + usedTotal r := by
  induction l with
  | nil => simp [usedTotal]
  | cons b l ih => simp [usedTotal, ih]; omega

/-- A block in the middle counts if it is used. -/
theorem usedTotal_mid (l : List Blk) (b : Blk) (r : List Blk) :
    usedTotal (l ++ b :: r) = usedTotal l + (if b.used then b.size else 0) + usedTotal r := by
  rw [usedTotal_append, usedTotal, Nat.add_assoc]

theorem usedTotal_le (bs : List Blk) : usedTotal bs ≤ total bs := by
  induction bs with
  | nil => exact le_rfl
  | cons b bs ih =>
    rw [usedTotal, total_cons]
    split <;> omega

@[simp] theorem lastOff_nil (a p : ℕ) : lastOff a p [] = p := rfl

@[simp] theorem lastOff_concat (a p : ℕ) (l : List Blk) (b : Blk) :
    lastOff a p (l ++ [b]) = a + total l := by
  induction l generalizing a p with
  | nil => simp [lastOff]
  | cons x l ih => simp [lastOff, ih]; omega

/-- A block in the middle ends the offset search of what is before it. -/
theorem lastOff_append_cons (a p : ℕ) (l : List Blk) (b : Blk) :
    ∀ r, lastOff a p (l ++ b :: r) = lastOff (a + total l + b.size) (a + total l) r := by
  induction l generalizing a p with
  | nil => intro r; simp [lastOff]
  | cons x l ih => intro r; simp only [List.cons_append, lastOff, ih, total_cons, Nat.add_assoc]

@[simp] theorem blocksAt_nil (u : Bool) (a : ℕ) : blocksAt u a [] = [] := rfl

theorem blocksAt_append (u : Bool) (a : ℕ) (l r : List Blk) :
    blocksAt u a (l ++ r) = blocksAt u a l ++ blocksAt u (a + total l) r := by
  induction l generalizing a with
  | nil => simp
  | cons b l ih =>
    simp only [List.cons_append, blocksAt, ih, total_cons, Nat.add_assoc]
    split <;> simp

/-- **The blocks with their offsets**: each one with the layout before it. -/
theorem mem_blocksAt {u : Bool} {a o k : ℕ} {bs : List Blk} :
    (o, k) ∈ blocksAt u a bs ↔ ∃ l r, bs = l ++ ⟨u, k⟩ :: r ∧ o = a + total l := by
  constructor
  · intro h
    induction bs generalizing a with
    | nil => simp at h
    | cons b bs ih =>
      have tail : (o, k) ∈ blocksAt u (a + b.size) bs →
          ∃ l r, b :: bs = l ++ ⟨u, k⟩ :: r ∧ o = a + total l := by
        intro h
        obtain ⟨l, r, rfl, rfl⟩ := ih h
        exact ⟨b :: l, r, rfl, by simp; omega⟩
      unfold blocksAt at h
      split at h
      · rename_i hu
        rcases List.mem_cons.1 h with h | h
        · obtain ⟨rfl, rfl⟩ := Prod.mk.inj h
          exact ⟨[], bs, by rw [← hu]; rfl, by simp⟩
        · exact tail h
      · exact tail h
  · rintro ⟨l, r, rfl, rfl⟩
    rw [blocksAt_append]
    simp [blocksAt]

theorem mem_blocksAt_cons {u : Bool} {a : ℕ} {x : ℕ × ℕ} {b : Blk} {r : List Blk} :
    x ∈ blocksAt u a (b :: r) ↔ x = (a, b.size) ∧ b.used = u ∨ x ∈ blocksAt u (a + b.size) r := by
  show x ∈ ite _ _ _ ↔ _
  split
  · rename_i hu
    rw [List.mem_cons]
    simp [hu]
  · rename_i hu
    simp [hu]

/-- **The blocks lie one behind the other**, inside the layout. -/
theorem blocksAt_sorted (u : Bool) (a : ℕ) (bs : List Blk) :
    (blocksAt u a bs).Pairwise (fun x y => x.1 + x.2 ≤ y.1) ∧
      ∀ x ∈ blocksAt u a bs, a ≤ x.1 ∧ x.1 + x.2 ≤ a + total bs := by
  induction bs generalizing a with
  | nil => simp
  | cons b bs ih =>
    obtain ⟨h1, h2⟩ := ih (a + b.size)
    unfold blocksAt
    rw [total_cons]
    have h2' : ∀ x ∈ blocksAt u (a + b.size) bs, a ≤ x.1 ∧ x.1 + x.2 ≤ a + (b.size + total bs) :=
      fun x hx => by have := h2 x hx; omega
    split
    · refine ⟨List.pairwise_cons.2 ⟨fun x hx => (h2 x hx).1, h1⟩, fun x hx => ?_⟩
      rcases List.mem_cons.1 hx with rfl | hx
      · exact ⟨le_rfl, by simp⟩
      · exact h2' x hx
    · exact ⟨h1, h2'⟩

theorem le_total_of_mem {b : Blk} {bs : List Blk} (h : b ∈ bs) : b.size ≤ total bs := by
  induction bs with
  | nil => simp at h
  | cons x bs ih =>
    rw [total_cons]
    rcases List.mem_cons.1 h with rfl | h
    · omega
    · have := ih h; omega

/-- All blocks as long as `d` and multiples of `k`: then so is the layout's length. -/
theorem dvd_total {k : ℕ} {bs : List Blk} (h : ∀ b ∈ bs, k ∣ b.size) : k ∣ total bs := by
  induction bs with
  | nil => simp
  | cons b bs ih =>
    exact Nat.dvd_add (h b List.mem_cons_self) (ih fun x hx => h x (List.mem_cons_of_mem _ hx))

/-! ## Offsets -/

theorem head_offsets (a : ℕ) (bs : List Blk) : (offsets a bs).head? = some a := by
  cases bs <;> rfl

theorem getLast_offsets (a : ℕ) (bs : List Blk) :
    (offsets a bs).getLast? = some (a + total bs) := by
  induction bs generalizing a with
  | nil => rfl
  | cons b bs ih =>
    have hne : offsets (a + b.size) bs ≠ [] := by cases bs <;> simp [offsets]
    rw [offsets, List.getLast?_cons_of_ne_nil hne, ih, total_cons, Nat.add_assoc]

theorem mem_offsets {a o : ℕ} {bs : List Blk} :
    o ∈ offsets a bs ↔ ∃ l r, bs = l ++ r ∧ o = a + total l := by
  constructor
  · intro h
    induction bs generalizing a with
    | nil => exact ⟨[], [], rfl, by simpa [offsets] using h⟩
    | cons b bs ih =>
      rcases List.mem_cons.1 h with rfl | h
      · exact ⟨[], b :: bs, rfl, rfl⟩
      · obtain ⟨l, r, rfl, rfl⟩ := ih h
        exact ⟨b :: l, r, rfl, by simp; omega⟩
  · rintro ⟨l, r, rfl, rfl⟩
    induction l generalizing a with
    | nil => cases r <;> simp [offsets]
    | cons b l ih =>
      rw [total_cons, ← Nat.add_assoc]
      exact List.mem_cons_of_mem _ ih

/-- **Consecutive offsets** are those of a block and of what is behind it. -/
theorem isChain_offsets {R : ℕ → ℕ → Prop} {a : ℕ} {bs : List Blk}
    (h : ∀ l b r, bs = l ++ b :: r → R (a + total l) (a + total l + b.size)) :
    (offsets a bs).IsChain R := by
  induction bs generalizing a with
  | nil => exact List.isChain_singleton _
  | cons b bs ih =>
    rw [offsets, List.isChain_cons]
    refine ⟨fun y hy => ?_, ih fun l x r hl => ?_⟩
    · rw [head_offsets, Option.mem_some_iff] at hy
      exact hy ▸ h [] b bs rfl
    · have := h (b :: l) x r (by rw [hl]; rfl)
      rwa [total_cons, ← Nat.add_assoc] at this

/-! ## Addresses -/

theorem starts_append (a : ℕ) (l r : List Blk) : starts a (l ++ r) = starts a l ++ starts (a + total l) r := by
  induction l generalizing a with
  | nil => rfl
  | cons b l ih =>
    show a :: starts (a + b.size) (l ++ r) = _
    rw [ih, total_cons, Nat.add_assoc]
    rfl

theorem starts_mid (a : ℕ) (l : List Blk) (b : Blk) (r : List Blk) :
    starts a (l ++ b :: r) = starts a l ++ (a + total l) :: starts (a + total l + b.size) r := starts_append a l _

theorem mid_mem_starts (a : ℕ) (l : List Blk) (b : Blk) (r : List Blk) : a + total l ∈ starts a (l ++ b :: r) := by
  rw [starts_mid]
  simp

/-- Blocks as long as `d` lie at addresses `d` apart, inside the layout. -/
theorem starts_sorted {d : ℕ} {bs : List Blk} (hd : ∀ b ∈ bs, d ≤ b.size) (a : ℕ) :
    (starts a bs).Pairwise (fun x y => x + d ≤ y) ∧ ∀ x ∈ starts a bs, a ≤ x ∧ x + d ≤ a + total bs := by
  induction bs generalizing a with
  | nil => exact ⟨.nil, by simp [starts]⟩
  | cons b bs ih =>
    obtain ⟨hp, hm⟩ := ih (fun x hx => hd x (List.mem_cons_of_mem _ hx)) (a + b.size)
    have hb := hd b List.mem_cons_self
    rw [total_cons]
    refine ⟨List.pairwise_cons.2 ⟨fun y hy => ?_, hp⟩, fun x hx => ?_⟩
    · have := hm y hy
      omega
    · rcases List.mem_cons.1 hx with rfl | hx
      · omega
      · have := hm x hx
        omega

theorem starts_nodup {d : ℕ} {bs : List Blk} (h0 : 0 < d) (hd : ∀ b ∈ bs, d ≤ b.size) (a : ℕ) :
    (starts a bs).Nodup := (starts_sorted hd a).1.imp fun h => by omega

/-- The blocks in a state are blocks. -/
theorem mem_starts_of_blocksAt {u : Bool} {a x k : ℕ} {bs : List Blk} (h : (x, k) ∈ blocksAt u a bs) :
    x ∈ starts a bs := by
  obtain ⟨l, r, rfl, rfl⟩ := mem_blocksAt.1 h
  rw [starts_mid]
  simp

/-- **A walk from block to block**, without the end. -/
theorem isChain_starts {R : ℕ → ℕ → Prop} {a : ℕ} {bs : List Blk}
    (h : ∀ l b b' r, bs = l ++ b :: b' :: r → R (a + total l) (a + total l + b.size)) : (starts a bs).IsChain R := by
  induction bs generalizing a with
  | nil => exact .nil
  | cons b bs ih =>
    cases bs with
    | nil => exact List.isChain_singleton _
    | cons b' bs =>
      refine List.IsChain.cons_cons (h [] b b' bs rfl) (ih fun l x y r hl => ?_)
      have hstep := h (b :: l) x y r (by rw [hl]; rfl)
      rwa [total_cons, ← Nat.add_assoc] at hstep

theorem mem_starts {a x : ℕ} {bs : List Blk} : x ∈ starts a bs ↔ ∃ u k, (x, k) ∈ blocksAt u a bs := by
  refine ⟨fun h => ?_, fun ⟨u, k, h⟩ => mem_starts_of_blocksAt h⟩
  induction bs generalizing a with
  | nil => cases h
  | cons b bs ih =>
    rcases List.mem_cons.1 h with rfl | h
    · exact ⟨b.used, b.size, by simp [blocksAt]⟩
    · obtain ⟨u, k, h⟩ := ih h
      refine ⟨u, k, ?_⟩
      unfold blocksAt
      split
      · exact List.mem_cons_of_mem _ h
      · exact h

@[simp] theorem freeRoom_append (d : ℕ) (l r : List Blk) : freeRoom d (l ++ r) = freeRoom d l + freeRoom d r := by
  induction l with
  | nil => simp [freeRoom]
  | cons b l ih => simp [freeRoom, ih]; omega

/-- The room is what the unused blocks add up to. -/
theorem sum_blocksAt (d a : ℕ) (bs : List Blk) :
    ((blocksAt false a bs).map fun x => x.2 - d).sum = freeRoom d bs := by
  induction bs generalizing a with
  | nil => rfl
  | cons b bs ih =>
    unfold blocksAt freeRoom
    cases hb : b.used
    · simp [ih]
    · simp [ih]

/-! ## Unused neighbours -/

theorem NoAdj.left {l r : List Blk} (h : NoAdj (l ++ r)) : NoAdj l := List.IsChain.left_of_append h

theorem NoAdj.right {l r : List Blk} (h : NoAdj (l ++ r)) : NoAdj r := List.IsChain.right_of_append h

theorem noAdj_append {l r : List Blk} : NoAdj (l ++ r) ↔ NoAdj l ∧ NoAdj r ∧
    ∀ x ∈ l.getLast?, ∀ y ∈ r.head?, x.used = true ∨ y.used = true := List.isChain_append

theorem noAdj_cons {b : Blk} {r : List Blk} : NoAdj (b :: r) ↔
    (∀ y ∈ r.head?, b.used = true ∨ y.used = true) ∧ NoAdj r := List.isChain_cons

/-- A used block may stand anywhere. -/
theorem noAdj_used {l r : List Blk} {k : ℕ} :
    NoAdj (l ++ ⟨true, k⟩ :: r) ↔ NoAdj l ∧ NoAdj r := by
  rw [noAdj_append, noAdj_cons]
  simp

/-- The neighbours of an unused block are used. -/
theorem noAdj_unused {l r : List Blk} {k : ℕ} (h : NoAdj (l ++ ⟨false, k⟩ :: r)) :
    (∀ x ∈ l.getLast?, x.used = true) ∧ ∀ y ∈ r.head?, y.used = true := by
  rw [noAdj_append, noAdj_cons] at h
  obtain ⟨-, ⟨h1, -⟩, h2⟩ := h
  exact ⟨fun x hx => by simpa using h2 x hx, fun y hy => by simpa using h1 y hy⟩

/-- The size of the first block if it is unused (else 0), and the blocks behind it. -/
def headFree : List Blk → ℕ × List Blk
  | ⟨false, k⟩ :: r => (k, r)
  | r => (0, r)

/-- The size of the last block if it is unused (else 0), and the blocks before it. -/
def lastFree (l : List Blk) : ℕ × List Blk :=
  ((headFree l.reverse).1, (headFree l.reverse).2.reverse)

/-- **Give a block back**: an unused block of size `k` between `l` and `r`, joined
with its unused neighbours. -/
def plug (l : List Blk) (k : ℕ) (r : List Blk) : List Blk :=
  (lastFree l).2 ++ ⟨false, (lastFree l).1 + k + (headFree r).1⟩ :: (headFree r).2

/-- The bytes taken of a block of size `k`: `n`, or all if the rest is below `d`. -/
def taken (d n k : ℕ) : ℕ := if n + d ≤ k then n else k

/-- **Take `n` bytes of a block** of size `k`: the rest stays unused if it holds a
block of at least `d` bytes, else the whole block is taken. -/
def cut (d n k : ℕ) : List Blk :=
  if n + d ≤ k then [⟨true, n⟩, ⟨false, k - n⟩] else [⟨true, k⟩]

/-- The offset of the first unused block of a layout at `a`, or the end. -/
def lowest : ℕ → List Blk → ℕ
  | a, [] => a
  | a, b :: bs => if b.used then lowest (a + b.size) bs else a

/-- `o` is the offset of an unused block, or the end. -/
def AtFree (bs : List Blk) (o : ℕ) : Prop := o = total bs ∨ ∃ k, (o, k) ∈ blocksAt false 0 bs

/-- `o` is the offset of the lowest unused block, or the end if there is none. -/
def AtLowest (bs : List Blk) (o : ℕ) : Prop := AtFree bs o ∧ ∀ x ∈ blocksAt false 0 bs, o ≤ x.1

theorem headFree_cases (r : List Blk) :
    (∃ k r', r = ⟨false, k⟩ :: r' ∧ headFree r = (k, r')) ∨
      (headFree r = (0, r) ∧ ∀ y ∈ r.head?, y.used = true) := by
  rcases r with _ | ⟨⟨u, k⟩, r⟩
  · exact .inr ⟨rfl, by simp⟩
  · cases u
    · exact .inl ⟨k, r, rfl, rfl⟩
    · exact .inr ⟨rfl, by simp⟩

theorem lastFree_cases (l : List Blk) :
    (∃ k l', l = l' ++ [⟨false, k⟩] ∧ lastFree l = (k, l')) ∨
      (lastFree l = (0, l) ∧ ∀ x ∈ l.getLast?, x.used = true) := by
  rcases headFree_cases l.reverse with ⟨k, r', h, h'⟩ | ⟨h, h'⟩
  · refine .inl ⟨k, r'.reverse, ?_, by simp [lastFree, h']⟩
    rw [← List.reverse_reverse l, h, List.reverse_cons]
  · exact .inr ⟨by simp [lastFree, h], by simpa using h'⟩

theorem total_plug (l : List Blk) (k : ℕ) (r : List Blk) :
    total (plug l k r) = total l + k + total r := by
  unfold plug
  rcases lastFree_cases l with ⟨kl, l', rfl, hl⟩ | ⟨hl, -⟩ <;>
    rcases headFree_cases r with ⟨kr, r', rfl, hr⟩ | ⟨hr, -⟩ <;>
    simp [hl, hr] <;> omega

/-- **Joining leaves no two unused neighbours.** -/
theorem noAdj_plug {l r : List Blk} (hl : NoAdj l) (hr : NoAdj r) (k : ℕ) :
    NoAdj (plug l k r) := by
  unfold plug
  have hl' : NoAdj (lastFree l).2 ∧ ∀ x ∈ (lastFree l).2.getLast?, x.used = true := by
    rcases lastFree_cases l with ⟨kl, l', rfl, h⟩ | ⟨h, h'⟩
    · rw [h]; exact ⟨hl.left, (noAdj_unused hl).1⟩
    · rw [h]; exact ⟨hl, h'⟩
  have hr' : NoAdj (headFree r).2 ∧ ∀ y ∈ (headFree r).2.head?, y.used = true := by
    rcases headFree_cases r with ⟨kr, r', rfl, h⟩ | ⟨h, h'⟩
    · rw [h]; exact ⟨(noAdj_cons.1 hr).2, (noAdj_unused (l := []) hr).2⟩
    · rw [h]; exact ⟨hr, h'⟩
  rw [noAdj_append, noAdj_cons]
  refine ⟨hl'.1, ⟨fun y hy => .inr (hr'.2 y hy), hr'.1⟩, fun x hx y _ => .inl (hl'.2 x hx)⟩

/-- Joining keeps the used blocks where they are. -/
theorem used_plug (a : ℕ) (l : List Blk) (k : ℕ) (r : List Blk) :
    blocksAt true a (plug l k r) = blocksAt true a l ++ blocksAt true (a + total l + k) r := by
  unfold plug
  rcases lastFree_cases l with ⟨kl, l', rfl, hl⟩ | ⟨hl, -⟩ <;>
    rcases headFree_cases r with ⟨kr, r', rfl, hr⟩ | ⟨hr, -⟩ <;>
    simp [hl, hr, blocksAt_append, blocksAt, Nat.add_assoc]

/-- The blocks after joining: old ones, and the joined one. -/
theorem mem_plug {l r : List Blk} {k : ℕ} {b : Blk} (h : b ∈ plug l k r) :
    b ∈ l ∨ b ∈ r ∨ b = ⟨false, (lastFree l).1 + k + (headFree r).1⟩ := by
  unfold plug at h
  rcases List.mem_append.1 h with h | h
  · rcases lastFree_cases l with ⟨kl, l', rfl, hl⟩ | ⟨hl, -⟩
    · rw [hl] at h; exact .inl (List.mem_append_left _ h)
    · rw [hl] at h; exact .inl h
  · rcases List.mem_cons.1 h with h | h
    · exact .inr (.inr h)
    · rcases headFree_cases r with ⟨kr, r', rfl, hr⟩ | ⟨hr, -⟩
      · rw [hr] at h; exact .inr (.inl (List.mem_cons_of_mem _ h))
      · rw [hr] at h; exact .inr (.inl h)

/-- Joining keeps the length of the used blocks. -/
theorem usedTotal_plug (l : List Blk) (k : ℕ) (r : List Blk) :
    usedTotal (plug l k r) = usedTotal l + usedTotal r := by
  unfold plug
  rcases lastFree_cases l with ⟨kl, l', rfl, hl⟩ | ⟨hl, -⟩ <;>
    rcases headFree_cases r with ⟨kr, r', rfl, hr⟩ | ⟨hr, -⟩ <;>
    simp [hl, hr, usedTotal]

theorem usedTotal_cut (d n k : ℕ) : usedTotal (cut d n k) = taken d n k := by
  unfold cut taken
  split <;> simp [usedTotal]

theorem total_cut (d n k : ℕ) : total (cut d n k) = k := by
  unfold cut; split <;> simp; omega

/-- Cutting a block takes its first bytes. -/
theorem cut_cases (d n k : ℕ) : ∃ l, cut d n k = ⟨true, taken d n k⟩ :: l ∧
    (l = [] ∨ l = [⟨false, k - n⟩] ∧ n + d ≤ k) := by
  unfold cut taken
  split
  · exact ⟨_, rfl, .inr ⟨rfl, by assumption⟩⟩
  · exact ⟨[], rfl, .inl rfl⟩

theorem noAdj_cut {l r : List Blk} {d n k : ℕ} (h : NoAdj (l ++ ⟨false, k⟩ :: r)) :
    NoAdj (l ++ cut d n k ++ r) := by
  have hr : NoAdj r := (noAdj_cons.1 h.right).2
  have hused := (noAdj_unused h).2
  obtain ⟨t, ht, rfl | ⟨rfl, -⟩⟩ := cut_cases d n k
  · rw [ht, List.append_assoc, List.singleton_append, noAdj_used]
    exact ⟨h.left, hr⟩
  · rw [ht, List.append_assoc, List.cons_append, noAdj_used, List.singleton_append, noAdj_cons]
    exact ⟨h.left, fun y hy => .inr (hused y hy), hr⟩

theorem used_cut (a d n k : ℕ) (l r : List Blk) :
    blocksAt true a (l ++ cut d n k ++ r) =
      blocksAt true a l ++ (a + total l, taken d n k) :: blocksAt true (a + total l + k) r := by
  obtain ⟨t, ht, rfl | ⟨rfl, hle⟩⟩ := cut_cases d n k
  · have hk := total_cut d n k
    rw [ht] at hk
    simp only [total_cons, total_nil, Nat.add_zero] at hk
    rw [ht, List.append_assoc, blocksAt_append]
    simp [blocksAt, hk]
  · have hk := total_cut d n k
    rw [ht] at hk
    simp only [total_cons, total_nil, Nat.add_zero] at hk
    rw [ht, List.append_assoc, blocksAt_append]
    simp [blocksAt, Nat.add_assoc, hk]

/-! ## Pointers to used blocks -/

/-- `live` has a pointer `f x` to each used block of a layout at `a`, where `x` is its address. -/
def Owned (f : ℕ → ℕ) (a : ℕ) (bs : List Blk) (live : List ℕ) : Prop :=
  live.Perm ((blocksAt true a bs).map fun x => f x.1)

section Owned

variable {f : ℕ → ℕ} {a k n m : ℕ} {bs l r : List Blk} {live : List ℕ}

theorem Owned.mem (ho : Owned f a (l ++ ⟨true, k⟩ :: r) live) : f (a + total l) ∈ live :=
  ho.mem_iff.2 (List.mem_map.2 ⟨(a + total l, k), mem_blocksAt.2 ⟨l, r, rfl, rfl⟩, rfl⟩)

theorem Owned.split {p : ℕ} (ho : Owned f a bs live) (hp : p ∈ live) :
    ∃ l k r, bs = l ++ ⟨true, k⟩ :: r ∧ p = f (a + total l) := by
  obtain ⟨⟨o, k⟩, hx, rfl⟩ := List.mem_map.1 (ho.mem_iff.1 hp)
  obtain ⟨l, r, rfl, rfl⟩ := mem_blocksAt.1 hx
  exact ⟨l, k, r, rfl, rfl⟩

/-- Taking a block adds its pointer. -/
theorem Owned.taken (ho : Owned f a (l ++ ⟨false, k⟩ :: r) live) :
    Owned f a (l ++ cut m n k ++ r) (f (a + total l) :: live) := by
  unfold Owned at ho ⊢
  rw [blocksAt_append, blocksAt, if_neg (by simp), List.map_append] at ho
  rw [used_cut, List.map_append, List.map_cons]
  exact (ho.cons _).trans List.perm_middle.symm

/-- Giving a block back removes its pointer. -/
theorem Owned.plugged (ho : Owned f a (l ++ ⟨true, k⟩ :: r) live) :
    Owned f a (plug l k r) (live.erase (f (a + total l))) := by
  unfold Owned at ho ⊢
  rw [blocksAt_append, blocksAt, if_pos rfl, List.map_append, List.map_cons] at ho
  have hback := (ho.trans List.perm_middle).erase (f (a + total l))
  rw [List.erase_cons_head, ← List.map_append] at hback
  rw [used_plug]
  exact hback

/-- The first `n` bytes of a block are kept. -/
theorem Owned.shrunk (ho : Owned f a (l ++ ⟨true, k⟩ :: r) live) (hn : n ≤ k) :
    Owned f a (plug (l ++ [⟨true, n⟩]) (k - n) r) live := by
  have hend : a + total (l ++ [⟨true, n⟩]) + (k - n) = a + total l + k := by
    simp only [total_append, total_cons, total_nil]
    omega
  unfold Owned at ho ⊢
  rw [blocksAt_append, blocksAt, if_pos rfl] at ho
  rw [used_plug, blocksAt_append, hend]
  simpa [blocksAt] using ho

/-- A block grows into the unused one behind it. -/
theorem Owned.grown {j : ℕ} (ho : Owned f a (l ++ ⟨true, k⟩ :: ⟨false, j⟩ :: r) live) (hn : n ≤ k + j) :
    Owned f a (l ++ ⟨true, n⟩ :: ⟨false, k + j - n⟩ :: r) live := by
  have hend : a + total l + n + (k + j - n) = a + total l + k + j := by omega
  unfold Owned at ho ⊢
  simpa [blocksAt_append, blocksAt, hend] using ho

end Owned

/-! ## Pointers to unused blocks -/

theorem lowest_ge (a : ℕ) (bs : List Blk) : a ≤ lowest a bs := by
  induction bs generalizing a with
  | nil => exact le_rfl
  | cons b bs ih =>
    unfold lowest; split
    · exact le_trans (Nat.le_add_right _ _) (ih _)
    · exact le_rfl

/-- No unused block lies before `lowest`. -/
theorem lowest_le {a : ℕ} {bs : List Blk} : ∀ x ∈ blocksAt false a bs, lowest a bs ≤ x.1 := by
  induction bs generalizing a with
  | nil => simp
  | cons b bs ih =>
    intro x hx
    unfold blocksAt at hx
    unfold lowest
    cases hu : b.used
    · rw [if_neg (by simp)]
      have := ((blocksAt_sorted false a (b :: bs)).2 x (by unfold blocksAt; exact hx)).1
      exact this
    · rw [if_neg (by simp [hu])] at hx
      rw [if_pos rfl]
      exact ih x hx

/-- `lowest` finds an unused block, or the end. -/
theorem lowest_spec (a : ℕ) (bs : List Blk) :
    lowest a bs = a + total bs ∨ ∃ k, (lowest a bs, k) ∈ blocksAt false a bs := by
  induction bs generalizing a with
  | nil => exact .inl rfl
  | cons b bs ih =>
    unfold lowest blocksAt
    cases hu : b.used
    · exact .inr ⟨b.size, by simp⟩
    · simp only [if_true, Bool.true_eq_false, if_false, total_cons, ← Nat.add_assoc]
      exact ih _

/-- The next unused block behind `l`. -/
theorem atFree_lowest (l r : List Blk) : AtFree (l ++ r) (lowest (total l) r) := by
  rcases lowest_spec (total l) r with h | ⟨k, h⟩
  · exact .inl (by rw [h, total_append])
  · refine .inr ⟨k, ?_⟩
    rw [blocksAt_append, Nat.zero_add]
    exact List.mem_append_right _ h

theorem mem_blocksAt_mid {u : Bool} {a : ℕ} {x : ℕ × ℕ} {l m r : List Blk} :
    x ∈ blocksAt u a (l ++ m ++ r) ↔ x ∈ blocksAt u a l ∨ x ∈ blocksAt u (a + total l) m ∨
      x ∈ blocksAt u (a + total l + total m) r := by
  rw [List.append_assoc, blocksAt_append, blocksAt_append, List.mem_append, List.mem_append]

/-- A pointer to another block survives a change in the middle. -/
theorem atFree_replace {l r new : List Blk} {b : Blk} {o : ℕ} (h : AtFree (l ++ b :: r) o)
    (hne : o ≠ total l) (ht : total new = b.size) : AtFree (l ++ new ++ r) o := by
  rw [show l ++ b :: r = l ++ [b] ++ r by simp] at h
  rcases h with h | ⟨k, h⟩
  · exact .inl (by simp [h, ht])
  · refine .inr ⟨k, ?_⟩
    rw [mem_blocksAt_mid, Nat.zero_add] at h ⊢
    rw [ht]
    rcases h with h | h | h
    · exact .inl h
    · simp only [blocksAt] at h
      split at h <;> simp at h
      exact absurd h.1 hne
    · exact .inr (.inr (by simpa using h))

/-- The unused blocks after joining. -/
theorem mem_free_plug {a : ℕ} {x : ℕ × ℕ} {l r : List Blk} {k : ℕ} :
    x ∈ blocksAt false a (plug l k r) ↔ x ∈ blocksAt false a (lastFree l).2 ∨
      x = (a + total (lastFree l).2, (lastFree l).1 + k + (headFree r).1) ∨
      x ∈ blocksAt false (a + total l + k + (headFree r).1) (headFree r).2 := by
  unfold plug
  have ht : total l = total (lastFree l).2 + (lastFree l).1 := by
    rcases lastFree_cases l with ⟨kl, l', rfl, hl⟩ | ⟨hl, -⟩ <;> simp [hl]
  rw [blocksAt_append, List.mem_append]
  simp only [blocksAt, if_true, List.mem_cons]
  rw [show a + total (lastFree l).2 + ((lastFree l).1 + k + (headFree r).1) =
    a + total l + k + (headFree r).1 by omega]

theorem mem_free_left {a : ℕ} {x : ℕ × ℕ} {l : List Blk} :
    x ∈ blocksAt false a l ↔ x ∈ blocksAt false a (lastFree l).2 ∨
      x = (a + total (lastFree l).2, (lastFree l).1) ∧ (lastFree l).2.length < l.length := by
  rcases lastFree_cases l with ⟨kl, l', rfl, hl⟩ | ⟨hl, -⟩
  · rw [blocksAt_append, List.mem_append, hl]
    simp [blocksAt]
  · simp [hl]

theorem mem_free_right {a : ℕ} {x : ℕ × ℕ} {r : List Blk} :
    x ∈ blocksAt false a r ↔ x ∈ blocksAt false (a + (headFree r).1) (headFree r).2 ∨
      x = (a, (headFree r).1) ∧ r.head?.map Blk.used = some false := by
  rcases headFree_cases r with ⟨kr, r', rfl, hr⟩ | ⟨hr, hu⟩
  · rw [hr]; simp [blocksAt, or_comm]
  · rw [hr]
    rcases r with _ | ⟨y, r⟩
    · simp
    · simp [hu y (by simp)]

/-- Where a pointer at `o` has to go when the block between `l` and `r` is joined with
its neighbours. -/
def joined (l : List Blk) (k : ℕ) (r : List Blk) (o : ℕ) : ℕ :=
  if o = total l ∨ (r.head?.map Blk.used = some false ∧ o = total l + k) then total (lastFree l).2
  else o

/-- **A pointer to an unused block** before or behind the joined one stays good. -/
theorem atFree_plug {l r : List Blk} {k o : ℕ}
    (h : o = total l ∨ o = total l + k + total r ∨ (∃ j, (o, j) ∈ blocksAt false 0 l) ∨
      ∃ j, (o, j) ∈ blocksAt false (total l + k) r) : AtFree (plug l k r) (joined l k r o) := by
  unfold joined
  split
  · exact .inr ⟨_, mem_free_plug.2 (.inr (.inl (by rw [Nat.zero_add])))⟩
  · rename_i hn
    push Not at hn
    rcases h with h | h | ⟨j, h⟩ | ⟨j, h⟩
    · exact absurd h hn.1
    · exact .inl (by rw [total_plug, h])
    · rcases mem_free_left.1 h with h | ⟨h, -⟩
      · exact .inr ⟨j, mem_free_plug.2 (.inl h)⟩
      · simp only [Prod.mk.injEq, Nat.zero_add] at h
        exact .inr ⟨_, mem_free_plug.2 (.inr (.inl (by rw [h.1, Nat.zero_add])))⟩
    · rcases mem_free_right.1 h with h | ⟨h, hu⟩
      · exact .inr ⟨j, mem_free_plug.2 (.inr (.inr (by rwa [Nat.zero_add])))⟩
      · simp only [Prod.mk.injEq] at h
        exact absurd h.1 (hn.2 hu)

/-- **The lowest unused block after joining**: `o` is at most every unused block and the
joined one. -/
theorem atLowest_plug {l r : List Blk} {k o : ℕ}
    (h : o = total l ∨ o = total l + k + total r ∨ (∃ j, (o, j) ∈ blocksAt false 0 l) ∨
      ∃ j, (o, j) ∈ blocksAt false (total l + k) r)
    (hl : ∀ x ∈ blocksAt false 0 l, o ≤ x.1) (hr : ∀ x ∈ blocksAt false (total l + k) r, o ≤ x.1)
    (hmid : o ≤ total l ∨ (r.head?.map Blk.used = some false ∧ o = total l + k)) :
    AtLowest (plug l k r) (joined l k r o) := by
  refine ⟨atFree_plug h, fun x hx => ?_⟩
  have htl : total (lastFree l).2 ≤ total l := by
    rcases lastFree_cases l with ⟨kl, l', rfl, hl⟩ | ⟨hl, -⟩ <;> simp [hl]
  have hright : ∀ x ∈ blocksAt false (0 + total l + k + (headFree r).1) (headFree r).2, total l ≤ x.1 := by
    intro x hx
    have := (blocksAt_sorted _ _ _).2 x hx
    omega
  unfold joined
  split
  · -- the pointer moves to the joined block: `o` was not before it
    rename_i hc
    have hge : total l ≤ o := by rcases hc with hc | hc <;> omega
    rcases mem_free_plug.1 hx with hx | rfl | hx
    · have := hl x (mem_free_left.2 (.inl hx)); omega
    · simp
    · have := hright x hx; omega
  · -- the pointer stays: `o` is before the joined block
    rename_i hc
    have hlt : o ≤ total l := by rcases hmid with h | h <;> tauto
    rcases mem_free_plug.1 hx with hx | rfl | hx
    · exact hl x (mem_free_left.2 (.inl hx))
    · simp only [Nat.zero_add]
      rcases lastFree_cases l with ⟨kl, l', rfl, hl'⟩ | ⟨hl', -⟩
      · rw [hl']
        exact hl (total l', kl) (by rw [blocksAt_append]; simp [blocksAt])
      · rw [hl']; exact hlt
    · have := hright x hx; omega

/-- **The lowest unused block after cutting** one at or behind `o`. -/
theorem atLowest_cut {l r : List Blk} {d n k o : ℕ} (h : AtLowest (l ++ ⟨false, k⟩ :: r) o)
    (hpos : ∀ b ∈ l, 0 < b.size) :
    AtLowest (l ++ cut d n k ++ r)
      (if o = total l then lowest (total l) (cut d n k ++ r) else o) := by
  have hold : ∀ x, x ∈ blocksAt false 0 l ∨ x ∈ blocksAt false (total l + k) r → o ≤ x.1 := by
    intro x hx
    apply h.2
    rw [show l ++ ⟨false, k⟩ :: r = l ++ [⟨false, k⟩] ++ r by simp, mem_blocksAt_mid]
    simp only [total_cons, total_nil, Nat.zero_add, Nat.add_zero]
    tauto
  have hle : o ≤ total l := h.2 (total l, k) (mem_blocksAt.2 ⟨l, r, rfl, by simp⟩)
  split
  · rename_i ho
    refine ⟨by rw [List.append_assoc]; exact atFree_lowest _ _, fun x hx => ?_⟩
    rw [List.append_assoc, blocksAt_append, List.mem_append, Nat.zero_add] at hx
    rcases hx with hx | hx
    · -- an unused block of `l` would lie before `o`
      have h1 := hold x (.inl hx)
      have h2 := (blocksAt_sorted false 0 l).2 x hx
      obtain ⟨l₁, l₂, rfl, -⟩ := mem_blocksAt.1 hx
      have h3 : 0 < x.2 := hpos ⟨false, x.2⟩ (by simp)
      omega
    · exact lowest_le x hx
  · rename_i ho
    refine ⟨atFree_replace h.1 ho (total_cut _ _ _), fun x hx => ?_⟩
    rw [mem_blocksAt_mid, total_cut, Nat.zero_add] at hx
    rcases hx with hx | hx | hx
    · exact hold x (.inl hx)
    · have := (blocksAt_sorted _ _ _).2 x hx; omega
    · exact hold x (.inr hx)

end Layout
