import Mathlib.Algebra.GroupWithZero.Nat
import Mathlib.Data.List.Pairwise
import Mathlib.Data.List.Perm.Subperm
import Mathlib.Tactic.Common

/-!
# Lists of free ranges

Ranges of numbers in ascending order, none of which touches another. A request takes the lower end of the first range
that fits; a range that is given back is merged with its neighbours.

* `cover_takeFirst`, `takeFirst_none`: what a request takes, and when it is refused.
* `cover_insert`: what is given back is free again, and nothing else changes.
* `Coalesced.takeFirst`, `Coalesced.insert`: **the ranges stay ordered and apart.**
* `Partition`: each number of a pool lies in one of some ranges, and no other number does.
-/

namespace FreeList

/-- The numbers from `lo` on, `len` of them. -/
structure Range where
  lo : ℕ
  len : ℕ
  deriving DecidableEq

namespace Range

def hi (r : Range) : ℕ := r.lo + r.len

def Has (r : Range) (p : ℕ) : Prop := r.lo ≤ p ∧ p < r.hi

instance (r : Range) (p : ℕ) : Decidable (r.Has p) := inferInstanceAs (Decidable (_ ∧ _))

/-- How often `p` lies in the range. -/
def count (r : Range) (p : ℕ) : ℕ := if r.lo ≤ p ∧ p < r.hi then 1 else 0

variable {r : Range} {a m n p : ℕ}

theorem count_le : r.count p ≤ 1 := by
  unfold count
  split <;> omega

theorem count_pos : 0 < r.count p ↔ r.Has p := by
  unfold count Has
  split <;> simp [*]

theorem count_eq_zero : r.count p = 0 ↔ ¬r.Has p := by
  rw [← count_pos]
  omega

@[simp] theorem count_zero : (⟨a, 0⟩ : Range).count p = 0 := by
  unfold count hi
  rw [if_neg]
  dsimp only
  omega

/-- Two ranges, one behind the other. -/
theorem count_add : (⟨a, m + n⟩ : Range).count p = (⟨a, m⟩ : Range).count p + (⟨a + m, n⟩ : Range).count p := by
  unfold count hi
  dsimp only
  split_ifs <;> omega

/-- A range and the one behind it. -/
theorem count_merge {b : Range} (h : b.hi = r.lo) : b.count p + r.count p = (⟨b.lo, b.len + r.len⟩ : Range).count p := by
  rw [count_add, show b.lo + b.len = r.lo from h]

end Range

open Range

variable {l l' live : List Range} {r b : Range} {fits : Range → Bool} {n p lo hi : ℕ}

/-! ## How often a number is covered -/

def cover (p : ℕ) (l : List Range) : ℕ := (l.map (·.count p)).sum

@[simp] theorem cover_nil : cover p [] = 0 := rfl

@[simp] theorem cover_cons : cover p (r :: l) = r.count p + cover p l := List.sum_cons

@[simp] theorem cover_append : cover p (l ++ l') = cover p l + cover p l' := by
  simp [cover]

theorem cover_eq_zero : cover p l = 0 ↔ ∀ r ∈ l, ¬r.Has p := by
  induction l with
  | nil => simp
  | cons r l ih => rw [cover_cons, Nat.add_eq_zero_iff, ih, count_eq_zero, List.forall_mem_cons]

theorem cover_pos : 0 < cover p l ↔ ∃ r ∈ l, r.Has p := by
  rw [Nat.pos_iff_ne_zero, Ne, cover_eq_zero]
  push Not
  rfl

/-! ## Taking the first range that fits -/

/-- What remains of a range behind its first `n` numbers. -/
def cut (b : Range) (n : ℕ) : List Range := if n < b.len then [⟨b.lo + n, b.len - n⟩] else []

def takeFirst (fits : Range → Bool) (n : ℕ) : List Range → Option (ℕ × List Range)
  | [] => none
  | b :: l =>
    if fits b then some (b.lo, cut b n ++ l)
    else (takeFirst fits n l).map fun (a, l') => (a, b :: l')

theorem cover_cut (hn : n ≤ b.len) : b.count p = (⟨b.lo, n⟩ : Range).count p + cover p (cut b n) := by
  have hb : b = ⟨b.lo, n + (b.len - n)⟩ := by
    rw [Nat.add_sub_cancel' hn]
  rw [cut]
  split
  · rw [cover_cons, cover_nil, Nat.add_zero, ← count_add, ← hb]
  · have hlen : n = b.len := by omega
    rw [cover_nil, Nat.add_zero, hlen]

/-- **A request is refused** when no range fits. -/
theorem takeFirst_none : takeFirst fits n l = none ↔ ∀ b ∈ l, fits b = false := by
  induction l with
  | nil => simp [takeFirst]
  | cons b l ih =>
    rw [takeFirst, List.forall_mem_cons]
    cases hb : fits b with
    | true => simp
    | false => simpa using ih

/-- The request takes the first range that fits. -/
theorem takeFirst_append {as bs : List Range} (has : ∀ c ∈ as, fits c = false) (hb : fits b = true) :
    takeFirst fits n (as ++ b :: bs) = some (b.lo, as ++ (cut b n ++ bs)) := by
  induction as with
  | nil => rw [List.nil_append, takeFirst, if_pos hb, List.nil_append]
  | cons c as ih =>
    have hc : ¬fits c = true := by rw [has c List.mem_cons_self]; exact Bool.false_ne_true
    rw [List.cons_append, takeFirst, if_neg hc, ih fun d hd => has d (List.mem_cons_of_mem _ hd)]
    rfl

/-- **A request takes `n` numbers**, and no others. -/
theorem cover_takeFirst {a : ℕ} (hfits : ∀ b ∈ l, fits b = true → n ≤ b.len) (h : takeFirst fits n l = some (a, l')) :
    cover p l = (⟨a, n⟩ : Range).count p + cover p l' := by
  induction l generalizing a l' with
  | nil => cases h
  | cons b l ih =>
    rw [takeFirst] at h
    split at h
    · rename_i hb
      cases h
      rw [cover_cons, cover_append, cover_cut (hfits b List.mem_cons_self hb), Nat.add_assoc]
    · obtain ⟨⟨a', l''⟩, hl, heq⟩ := Option.map_eq_some_iff.1 h
      cases heq
      rw [cover_cons, cover_cons, ih (fun b hb => hfits b (List.mem_cons_of_mem _ hb)) hl]
      omega

/-- A request takes from one range. -/
theorem takeFirst_mem {a : ℕ} (h : takeFirst fits n l = some (a, l')) : ∃ b ∈ l, fits b = true ∧ a = b.lo := by
  induction l generalizing a l' with
  | nil => cases h
  | cons b l ih =>
    rw [takeFirst] at h
    split at h
    · rename_i hb
      cases h
      exact ⟨b, List.mem_cons_self, hb, rfl⟩
    · obtain ⟨⟨a', l''⟩, hl, heq⟩ := Option.map_eq_some_iff.1 h
      cases heq
      obtain ⟨c, hc, hfits, rfl⟩ := ih hl
      exact ⟨c, List.mem_cons_of_mem _ hc, hfits, rfl⟩

/-! ## Giving a range back -/

def insert (r : Range) : List Range → List Range
  | [] => [r]
  | b :: l =>
    if b.hi = r.lo then
      match l with
      | c :: l' => if r.hi = c.lo then ⟨b.lo, b.len + r.len + c.len⟩ :: l' else ⟨b.lo, b.len + r.len⟩ :: c :: l'
      | [] => [⟨b.lo, b.len + r.len⟩]
    else if r.hi = b.lo then ⟨r.lo, r.len + b.len⟩ :: l
    else if r.hi < b.lo then r :: b :: l
    else b :: insert r l

theorem insert_of_ne (h : b.hi ≠ r.lo) : insert r (b :: l) =
    if r.hi = b.lo then ⟨r.lo, r.len + b.len⟩ :: l else if r.hi < b.lo then r :: b :: l else b :: insert r l := by
  rw [insert.eq_def]
  exact if_neg h

/-- Ranges in front of the one that is given back, and apart from it. -/
theorem insert_append {as : List Range} (has : ∀ c ∈ as, c.hi < r.lo) : insert r (as ++ l) = as ++ insert r l := by
  induction as with
  | nil => rfl
  | cons c as ih =>
    have hc := has c List.mem_cons_self
    have hle : c.lo ≤ c.hi ∧ r.lo ≤ r.hi := ⟨Nat.le_add_right _ _, Nat.le_add_right _ _⟩
    rw [List.cons_append, insert_of_ne (by omega), if_neg (by omega), if_neg (by omega),
      ih fun d hd => has d (List.mem_cons_of_mem _ hd)]
    rfl

/-- **What is given back** is free again, and nothing else changes. -/
theorem cover_insert : cover p (insert r l) = r.count p + cover p l := by
  fun_induction insert r l with
  | case1 => rfl
  | case2 b h c l hc =>
    have h₁ := count_merge (p := p) h
    have h₂ : (⟨b.lo, b.len + r.len + c.len⟩ : Range).count p =
        (⟨b.lo, b.len + r.len⟩ : Range).count p + c.count p :=
      (count_merge (b := ⟨b.lo, b.len + r.len⟩) (by unfold hi at h hc ⊢; dsimp only; omega)).symm
    simp only [cover_cons]
    omega
  | case3 b h c l hc =>
    have h₁ := count_merge (p := p) h
    simp only [cover_cons]
    omega
  | case4 b h =>
    have h₁ := count_merge (p := p) h
    simp only [cover_cons]
    omega
  | case5 b l hb hr =>
    have h₁ := count_merge (p := p) hr
    simp only [cover_cons]
    omega
  | case6 b l hb hr hlt => rfl
  | case7 b l hb hr hlt ih =>
    simp only [cover_cons]
    omega

/-! ## Order -/

/-- In ascending order, not empty, and apart. -/
structure Coalesced (l : List Range) : Prop where
  pos : ∀ r ∈ l, 0 < r.len
  apart : l.Pairwise fun r s => r.hi < s.lo

namespace Coalesced

theorem nil : Coalesced [] := ⟨nofun, .nil⟩

theorem cons (h : Coalesced l) (hpos : 0 < b.len) (hb : ∀ c ∈ l, b.hi < c.lo) : Coalesced (b :: l) :=
  ⟨List.forall_mem_cons.2 ⟨hpos, h.pos⟩, .cons hb h.apart⟩

theorem head (h : Coalesced (b :: l)) : 0 < b.len ∧ ∀ c ∈ l, b.hi < c.lo :=
  ⟨h.pos b List.mem_cons_self, (List.pairwise_cons.1 h.apart).1⟩

theorem tail (h : Coalesced (b :: l)) : Coalesced l :=
  ⟨fun r hr => h.pos r (List.mem_cons_of_mem _ hr), (List.pairwise_cons.1 h.apart).2⟩

end Coalesced

theorem takeFirst_lo {a : ℕ} {s : Range} (h : takeFirst fits n l = some (a, l')) (hs : s ∈ l') :
    ∃ c ∈ l, c.lo ≤ s.lo := by
  induction l generalizing a l' with
  | nil => cases h
  | cons b l ih =>
    rw [takeFirst] at h
    split at h
    · cases h
      rcases List.mem_append.1 hs with hs | hs
      · unfold cut at hs
        split at hs
        · rw [List.mem_singleton.1 hs]
          exact ⟨b, List.mem_cons_self, Nat.le_add_right _ _⟩
        · cases hs
      · exact ⟨s, List.mem_cons_of_mem _ hs, Nat.le_refl _⟩
    · obtain ⟨⟨a', l''⟩, hl, heq⟩ := Option.map_eq_some_iff.1 h
      cases heq
      rcases List.mem_cons.1 hs with rfl | hs
      · exact ⟨s, List.mem_cons_self, Nat.le_refl _⟩
      · obtain ⟨c, hc, hle⟩ := ih hl hs
        exact ⟨c, List.mem_cons_of_mem _ hc, hle⟩

/-- **A request keeps the order.** -/
theorem Coalesced.takeFirst {a : ℕ} (hc : Coalesced l) (h : takeFirst fits n l = some (a, l')) : Coalesced l' := by
  induction l generalizing a l' with
  | nil => cases h
  | cons b l ih =>
    rw [FreeList.takeFirst] at h
    split at h
    · cases h
      unfold cut
      split
      · rename_i hlt
        refine hc.tail.cons (Nat.sub_pos_of_lt hlt) fun c hmem => ?_
        have hbehind := hc.head.2 c hmem
        unfold hi at hbehind ⊢
        dsimp only
        omega
      · exact hc.tail
    · obtain ⟨⟨a', l''⟩, hl, heq⟩ := Option.map_eq_some_iff.1 h
      cases heq
      refine (ih hc.tail hl).cons hc.head.1 fun s hs => ?_
      obtain ⟨c, hmem, hle⟩ := takeFirst_lo hl hs
      exact Nat.lt_of_lt_of_le (hc.head.2 c hmem) hle

theorem insert_lo {s : Range} (h : s ∈ insert r l) : s.lo = r.lo ∨ ∃ c ∈ l, s.lo = c.lo := by
  fun_induction insert r l with
  | case1 => exact .inl (by rw [List.mem_singleton.1 h])
  | case2 b _ c l =>
    rcases List.mem_cons.1 h with rfl | h
    · exact .inr ⟨b, List.mem_cons_self, rfl⟩
    · exact .inr ⟨s, by simp [h], rfl⟩
  | case3 b _ c l =>
    rcases List.mem_cons.1 h with rfl | h
    · exact .inr ⟨b, List.mem_cons_self, rfl⟩
    · exact .inr ⟨s, List.mem_cons_of_mem _ h, rfl⟩
  | case4 b =>
    rw [List.mem_singleton.1 h]
    exact .inr ⟨b, List.mem_cons_self, rfl⟩
  | case5 b l =>
    rcases List.mem_cons.1 h with rfl | h
    · exact .inl rfl
    · exact .inr ⟨s, List.mem_cons_of_mem _ h, rfl⟩
  | case6 b l =>
    rcases List.mem_cons.1 h with rfl | h
    · exact .inl rfl
    · exact .inr ⟨s, h, rfl⟩
  | case7 b l _ _ _ ih =>
    rcases List.mem_cons.1 h with rfl | h
    · exact .inr ⟨s, List.mem_cons_self, rfl⟩
    · refine (ih h).imp_right ?_
      rintro ⟨c, hc, heq⟩
      exact ⟨c, List.mem_cons_of_mem _ hc, heq⟩

theorem insert_large {k : ℕ} (hl : ∀ b ∈ l, k ≤ b.len) (hr : k ≤ r.len) : ∀ b ∈ insert r l, k ≤ b.len := by
  fun_induction insert r l with
  | case1 => exact List.forall_mem_singleton.2 hr
  | case2 b _ c l =>
    have hb := hl b List.mem_cons_self
    exact List.forall_mem_cons.2 ⟨by dsimp only; omega, fun d hd => hl d (by simp [hd])⟩
  | case3 b _ c l =>
    have hb := hl b List.mem_cons_self
    exact List.forall_mem_cons.2 ⟨by dsimp only; omega, fun d hd => hl d (List.mem_cons_of_mem _ hd)⟩
  | case4 b =>
    have hb := hl b List.mem_cons_self
    exact List.forall_mem_singleton.2 (by dsimp only; omega)
  | case5 b l =>
    have hb := hl b List.mem_cons_self
    exact List.forall_mem_cons.2 ⟨by dsimp only; omega, fun d hd => hl d (List.mem_cons_of_mem _ hd)⟩
  | case6 b l => exact List.forall_mem_cons.2 ⟨hr, hl⟩
  | case7 b l _ _ _ ih =>
    exact List.forall_mem_cons.2 ⟨hl b List.mem_cons_self, ih fun d hd => hl d (List.mem_cons_of_mem _ hd)⟩

/-- **A range that is given back** lies apart from the free ones, or is merged with them. -/
theorem Coalesced.insert (hc : Coalesced l) (hpos : 0 < r.len) (hfree : ∀ b ∈ l, b.hi ≤ r.lo ∨ r.hi ≤ b.lo) :
    Coalesced (insert r l) := by
  fun_induction FreeList.insert r l with
  | case1 => exact nil.cons hpos nofun
  | case2 b h c l hmeet =>
    refine hc.tail.tail.cons (Nat.add_pos_right _ hc.tail.head.1) fun s hs => ?_
    have := hc.tail.head.2 s hs
    unfold hi at *
    dsimp only
    omega
  | case3 b h c l hmeet =>
    refine hc.tail.cons (Nat.add_pos_right _ hpos) fun s hs => ?_
    have hside := hfree c (by simp)
    have hb := hc.head.2 c List.mem_cons_self
    have hcpos := hc.tail.head.1
    rcases List.mem_cons.1 hs with rfl | hs
    · unfold hi at *
      dsimp only
      omega
    · have := hc.tail.head.2 s hs
      unfold hi at *
      dsimp only
      omega
  | case4 b h => exact nil.cons (Nat.add_pos_right _ hpos) nofun
  | case5 b l h hmeet =>
    refine hc.tail.cons (Nat.add_pos_left hpos _) fun s hs => ?_
    have := hc.head.2 s hs
    unfold hi at *
    dsimp only
    omega
  | case6 b l h hmeet hlt =>
    refine hc.cons hpos fun s hs => ?_
    rcases List.mem_cons.1 hs with rfl | hs
    · exact hlt
    · have := hc.head.2 s hs
      have := hc.head.1
      unfold hi at *
      omega
  | case7 b l h hmeet hlt ih =>
    refine (ih hc.tail fun c hmem => hfree c (List.mem_cons_of_mem _ hmem)).cons hc.head.1 fun s hs => ?_
    -- the range lies behind `b`, and does not touch it
    have hbehind : b.hi < r.lo := by
      have := hfree b List.mem_cons_self
      omega
    rcases insert_lo hs with heq | ⟨c, hmem, heq⟩
    · rw [heq]
      exact hbehind
    · rw [heq]
      exact hc.head.2 c hmem

/-! ## Ranges in use -/

/-- A range goes in where the order puts it. -/
def place (r : Range) : List Range → List Range
  | [] => [r]
  | b :: l => if b.hi ≤ r.lo then b :: place r l else r :: b :: l

theorem mem_place {c : Range} : c ∈ place r l ↔ c = r ∨ c ∈ l := by
  induction l with
  | nil => simp [place]
  | cons b l ih =>
    rw [place]
    split
    · rw [List.mem_cons, ih, List.mem_cons, or_left_comm]
    · rw [List.mem_cons]

/-- Behind the ranges in front of it, and in front of those behind it. -/
theorem place_append {as bs : List Range} (has : ∀ b ∈ as, b.hi ≤ r.lo) (hbs : ∀ b ∈ bs, r.hi ≤ b.lo)
    (hr : 0 < r.len) : place r (as ++ bs) = as ++ r :: bs := by
  induction as with
  | nil =>
    cases bs with
    | nil => rfl
    | cons b bs =>
      refine if_neg fun hle => ?_
      have := hbs b List.mem_cons_self
      unfold hi at *
      omega
  | cons b as ih =>
    rw [List.cons_append, place, if_pos (has b List.mem_cons_self), ih fun c hc => has c (List.mem_cons_of_mem _ hc)]
    rfl

/-- The numbers from `lo` to `hi`, if there are any. -/
def between (lo hi : ℕ) : List Range := if lo < hi then [⟨lo, hi - lo⟩] else []

/-- What remains of a range without another. -/
def Range.minus (b r : Range) : List Range := between b.lo (min b.hi r.lo) ++ between (max b.lo r.hi) b.hi

theorem cover_between : cover p (between lo hi) = if lo ≤ p ∧ p < hi then 1 else 0 := by
  unfold between
  split
  · rename_i h
    rw [cover_cons, cover_nil, Nat.add_zero, count, Range.hi]
    dsimp only
    rw [Nat.add_sub_cancel' (Nat.le_of_lt h)]
  · rename_i h
    rw [cover_nil, if_neg]
    omega

theorem cover_minus : cover p (b.minus r) = if r.Has p then 0 else b.count p := by
  rw [Range.minus, cover_append, cover_between, cover_between, count]
  have hr : r.lo ≤ r.hi := Nat.le_add_right _ _
  split_ifs with h₁ h₂ h₃ h₄ h₅ <;> unfold Has at * <;> omega

/-- Taking a range away from all. -/
def without (l : List Range) (r : Range) : List Range := l.flatMap (·.minus r)

theorem cover_without : cover p (without l r) = if r.Has p then 0 else cover p l := by
  induction l with
  | nil => simp [without]
  | cons b l ih =>
    rw [without, List.flatMap_cons, cover_append, cover_minus, ← without, ih, cover_cons]
    split <;> rfl

/-- **Each number of the pool lies in one of the ranges**, and no other number in any. -/
def Partition (pool : Range) (l : List Range) : Prop := ∀ p, cover p l = pool.count p

/-- What is in use is not free. -/
theorem Partition.apart {pool : Range} (h : Partition pool (l ++ live)) (hl : ∀ b ∈ l, 0 < b.len) (hr : 0 < r.len)
    (hlive : ∀ p, r.Has p → 0 < cover p live) : ∀ b ∈ l, b.hi ≤ r.lo ∨ r.hi ≤ b.lo := by
  intro b hb
  by_contra hmeet
  have hpos := hl b hb
  have hrHas : r.Has (max b.lo r.lo) := by
    unfold Has hi at *
    omega
  have hbHas : b.Has (max b.lo r.lo) := by
    unfold Has hi at *
    omega
  have hfree : 0 < cover (max b.lo r.lo) l := cover_pos.2 ⟨b, hb, hbHas⟩
  have hused := hlive _ hrHas
  have hle := count_le (r := pool) (p := max b.lo r.lo)
  rw [← h, cover_append] at hle
  omega

/-- There are at most as many ranges as numbers. -/
theorem Partition.length_le {pool : Range} {k : List Range} (h : Partition pool k) (hsub : l ⊆ k)
    (hpos : ∀ r ∈ l, 0 < r.len) (hapart : l.Pairwise fun r s => r.hi ≤ s.lo) : l.length ≤ pool.len := by
  have hnd : (l.map (·.lo)).Nodup := by
    rw [List.Nodup, List.pairwise_map]
    refine hapart.imp_of_mem fun {r s} hr _ hrs heq => ?_
    have := hpos r hr
    unfold hi at hrs
    omega
  have hin : l.map (·.lo) ⊆ List.range' pool.lo pool.len := by
    intro p hp
    obtain ⟨r, hr, rfl⟩ := List.mem_map.1 hp
    have hcover : 0 < cover r.lo k := cover_pos.2 ⟨r, hsub hr, Nat.le_refl _, Nat.lt_add_of_pos_right (hpos r hr)⟩
    rw [h, count_pos] at hcover
    exact List.mem_range'_1.2 hcover
  have := (hnd.subperm hin).length_le
  rwa [List.length_map, List.length_range'] at this

/-- A request. -/
theorem Partition.takeFirst {pool : Range} {a : ℕ} (h : Partition pool (l ++ live))
    (hfits : ∀ b ∈ l, fits b = true → n ≤ b.len) (htake : takeFirst fits n l = some (a, l')) :
    Partition pool (l' ++ ⟨a, n⟩ :: live) := by
  intro p
  rw [← h, cover_append, cover_append, cover_cons, cover_takeFirst hfits htake]
  omega

/-- A range is given back. -/
theorem Partition.insert {pool : Range} (h : Partition pool (l ++ live)) (hlive : ∀ p, r.Has p → 0 < cover p live) :
    Partition pool (insert r l ++ without live r) := by
  intro p
  have hp := h p
  have hle := count_le (r := pool) (p := p)
  rw [cover_append] at hp
  rw [cover_append, cover_insert, cover_without]
  by_cases hr : r.Has p
  · have hone : r.count p = 1 := if_pos hr
    have hused := hlive p hr
    rw [if_pos hr]
    omega
  · rw [if_neg hr, count_eq_zero.2 hr]
    omega

/-- The ranges in front of another, and those behind it. -/
theorem exists_split (hl : l.Pairwise fun r t => r.hi ≤ t.lo) (happ : ∀ b ∈ l, b.hi ≤ r.lo ∨ r.hi ≤ b.lo) :
    ∃ as bs, l = as ++ bs ∧ (∀ b ∈ as, b.hi ≤ r.lo) ∧ ∀ b ∈ bs, r.hi ≤ b.lo := by
  induction l with
  | nil => exact ⟨[], [], rfl, nofun, nofun⟩
  | cons b l ih =>
    obtain ⟨hb, hl⟩ := List.pairwise_cons.1 hl
    obtain ⟨as, bs, rfl, has, hbs⟩ := ih hl fun c hc => happ c (List.mem_cons_of_mem _ hc)
    rcases happ b List.mem_cons_self with h | h
    · exact ⟨b :: as, bs, rfl, List.forall_mem_cons.2 ⟨h, has⟩, hbs⟩
    · refine ⟨[], b :: (as ++ bs), rfl, nofun, List.forall_mem_cons.2 ⟨h, fun c hc => ?_⟩⟩
      have := hb c hc
      have : b.lo ≤ b.hi := Nat.le_add_right _ _
      omega

/-- Each range lies in the pool. -/
theorem Partition.within {pool : Range} (h : Partition pool l) (hr : r ∈ l) (hpos : 0 < r.len) :
    pool.lo ≤ r.lo ∧ r.hi ≤ pool.hi := by
  have hin : ∀ p, r.Has p → pool.Has p := fun p hp => by
    rw [← count_pos, ← h]
    exact cover_pos.2 ⟨r, hr, hp⟩
  have hfirst := hin r.lo ⟨Nat.le_refl _, Nat.lt_add_of_pos_right hpos⟩
  have hlast := hin (r.hi - 1) (by unfold Has hi; omega)
  unfold Has hi at *
  omega

end FreeList
