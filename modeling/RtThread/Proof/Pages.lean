import RtThread.Spec.Pages

/-!
# The page allocator keeps its list

* `allocLoop_takeFirst`, `freeLoop_insert`: **the loops do what the operations on lists of ranges do.**
* `pages_wellFormed`: the free ranges stay ordered and apart, and with the allocations they are the pages of the pool.
-/

namespace RtThread.Pages

open FreeList

variable {pool r : Range} {s s' : State} {l l' : List Range} {prev : Place} {b m n : ℕ} {v : Option ℕ}

namespace State

variable {rounds : ℕ}

/-! ## What an assignment changes -/

@[simp] theorem deref_assign_self : (s.assign v prev).deref prev = v := by
  cases prev with
  | pageList => rfl
  | next b => exact Function.update_self ..

theorem deref_assign_of_ne {q : Place} (h : q ≠ prev) : (s.assign v prev).deref q = s.deref q := by
  cases prev with
  | pageList =>
    cases q with
    | pageList => exact absurd rfl h
    | next c => rfl
  | next b =>
    cases q with
    | pageList => rfl
    | next c => exact Function.update_of_ne (fun heq => h (by rw [heq])) ..

@[simp] theorem page_assign : (s.assign v prev).page = s.page := by
  cases prev <;> rfl

@[simp] theorem deref_setPage {q : Place} : (s.setPage b n).deref q = s.deref q := by
  cases q <;> rfl

@[simp] theorem page_setPage_self : (s.setPage b n).page b = n := Function.update_self ..

theorem page_setPage_of_ne {c : ℕ} (h : c ≠ b) : (s.setPage b n).page c = s.page c := Function.update_of_ne h ..

@[simp] theorem page_setNext : (s.setNext b v).page = s.page := rfl

@[simp] theorem deref_setNext_self : (s.setNext b v).deref (.next b) = v := deref_assign_self

theorem deref_setNext_of_ne {q : Place} (h : q ≠ .next b) : (s.setNext b v).deref q = s.deref q :=
  deref_assign_of_ne h

/-! ## The ranges from a place on -/

/-- The heads from the place on are those of the ranges. -/
def From (s : State) : Place → List Range → Prop
  | prev, [] => s.deref prev = none
  | prev, r :: l => s.deref prev = some r.lo ∧ s.page r.lo = r.len ∧ s.From (.next r.lo) l

theorem from_iff : s.From prev l ↔ Chain s.next (s.deref prev) (l.map (·.lo)) ∧ ∀ r ∈ l, s.page r.lo = r.len := by
  induction l generalizing prev with
  | nil => simp [From]
  | cons r l ih =>
    rw [From, ih, List.map_cons, Chain.cons, List.forall_mem_cons]
    simp only [deref]
    tauto

theorem lists_iff : s.Lists l ↔ s.From .pageList l := by
  rw [from_iff]
  exact ⟨fun h => ⟨h.chain, h.page⟩, fun h => ⟨h.1, h.2⟩⟩

/-- The ranges from another place on, where the heads are the same. -/
theorem From.congr {q : Place} (h : s.From prev l) (hq : s'.deref q = s.deref prev)
    (hsame : ∀ r ∈ l, s'.deref (.next r.lo) = s.deref (.next r.lo) ∧ s'.page r.lo = s.page r.lo) : s'.From q l := by
  induction l generalizing prev q with
  | nil => exact hq.trans h
  | cons r l ih =>
    obtain ⟨hdr, hpage, htail⟩ := h
    obtain ⟨hnext, hpage'⟩ := hsame r List.mem_cons_self
    exact ⟨hq.trans hdr, hpage'.trans hpage, ih htail hnext fun r hr => hsame r (List.mem_cons_of_mem _ hr)⟩

theorem next_ne {c : ℕ} (h : b ≠ c) : Place.next b ≠ .next c := fun heq => h (Place.next.inj heq)

/-- A place in front of `m`. -/
def Below (m : ℕ) : Place → Prop
  | .pageList => True
  | .next b => b < m

theorem Below.mono {q : Place} (h : Below m q) (hmn : m ≤ n) : Below n q := by
  cases q with
  | pageList => trivial
  | next b => exact Nat.lt_of_lt_of_le h hmn

theorem Below.ne (h : Below m prev) (hb : m ≤ b) : prev ≠ .next b := by
  rintro rfl
  exact absurd h (Nat.not_lt.2 hb)

/-- The heads in front of `m` are as they were, but for the place `prev`. -/
structure Frame (m : ℕ) (prev : Place) (s s' : State) : Prop where
  deref : ∀ q, q ≠ prev → Below m q → s'.deref q = s.deref q
  page : ∀ b < m, s'.page b = s.page b

/-- The head in front of what has changed. -/
theorem From.cons_frame (hs : s.From prev (r :: l)) (hprev : Below r.lo prev) (hpos : 0 < r.len)
    (h : s'.From (.next r.lo) l') (hf : Frame r.hi (.next r.lo) s s') : s'.From prev (r :: l') := by
  have hlt : r.lo < r.hi := Nat.lt_add_of_pos_right hpos
  refine ⟨?_, ?_, h⟩
  · rw [hf.deref prev (hprev.ne (Nat.le_refl _)) (hprev.mono (Nat.le_of_lt hlt))]
    exact hs.1
  · rw [hf.page r.lo hlt]
    exact hs.2.1

theorem Frame.mono {q : Place} (hf : Frame n q s s') (hmn : m ≤ n) (hq : ¬Below m q) : Frame m prev s s' where
  deref q' _ hbelow := hf.deref q' (fun heq => hq (heq ▸ hbelow)) (hbelow.mono hmn)
  page b hb := hf.page b (Nat.lt_of_lt_of_le hb hmn)

/-! ## The loops -/

/-- The range is large enough. -/
def fits (npages : ℕ) (b : Range) : Bool := npages ≤ b.len

/-- **The split of a range.** -/
theorem split_from {N k : ℕ} (hs : s.From prev (r :: l)) (hlt : r.lo < N) (hprev : Below r.lo prev)
    (hbehind : ∀ c ∈ l, N < c.lo) :
    (((s.setNext N (s.next r.lo)).setPage N k).assign (some N) prev).From prev (⟨N, k⟩ :: l) := by
  have hne : prev ≠ .next N := hprev.ne (Nat.le_of_lt hlt)
  refine ⟨deref_assign_self, by simp, hs.2.2.congr ?_ fun c hc => ⟨?_, ?_⟩⟩
  · rw [deref_assign_of_ne hne.symm, deref_setPage, deref_setNext_self]
    rfl
  · have hc := hbehind c hc
    have hprev' : prev ≠ .next c.lo := hprev.ne (by omega)
    have hnext : Place.next c.lo ≠ .next N := next_ne (by omega)
    rw [deref_assign_of_ne hprev'.symm, deref_setPage, deref_setNext_of_ne hnext]
  · have hc := hbehind c hc
    rw [page_assign, page_setPage_of_ne (by omega), page_setNext]

/-- **The loop of `rt_page_alloc`** takes the first range that fits. -/
theorem allocLoop_takeFirst (hn : 0 < n) (hl : Coalesced l) (hs : s.From prev l) (hrounds : l.length < rounds)
    (hprev : ∀ r ∈ l, Below r.lo prev) :
    match takeFirst (fits n) n l with
    | none => s.allocLoop n rounds prev = some (none, s)
    | some (a, l') => ∃ s', s.allocLoop n rounds prev = some (some a, s') ∧ s'.From prev l' ∧
        ∀ m, Below m prev → (∀ r ∈ l, m ≤ r.lo) → Frame m prev s s' := by
  induction l generalizing rounds prev with
  | nil =>
    obtain ⟨k, rfl⟩ := Nat.exists_eq_add_of_lt hrounds
    have hnil : s.deref prev = none := hs
    simp [takeFirst, allocLoop, hnil]
  | cons b l ih =>
    obtain ⟨k, rfl⟩ : ∃ k, rounds = k + 1 := ⟨rounds - 1, by omega⟩
    have hb : Below b.lo prev := hprev b List.mem_cons_self
    obtain ⟨hdr, hpage, htail⟩ := id hs
    have hbehind := hl.head.2
    by_cases hlt : n < b.len
    · -- the pages are split
      have hfit : fits n b = true := decide_eq_true (Nat.le_of_lt hlt)
      rw [takeFirst, if_pos hfit, cut, if_pos hlt]
      have hloop : s.allocLoop n (k + 1) prev =
          some (some b.lo, ((s.setNext (b.lo + n) (s.next b.lo)).setPage (b.lo + n) (b.len - n)).assign
            (some (b.lo + n)) prev) := by
        simp only [allocLoop, hdr, hpage]
        rw [if_pos hlt, page_setNext, hpage]
      refine ⟨_, hloop, split_from hs (by omega) hb fun c hc => ?_, fun m hm hmb => ?_⟩
      · have := hbehind c hc
        unfold Range.hi at this
        omega
      · have hmb := hmb b List.mem_cons_self
        refine ⟨fun q hq hqm => ?_, fun c hc => ?_⟩
        · rw [deref_assign_of_ne hq, deref_setPage, deref_setNext_of_ne (hqm.ne (by omega))]
        · rw [page_assign, page_setPage_of_ne (by omega), page_setNext]
    by_cases heq : b.len = n
    · -- the node fits, and leaves the list
      have hfit : fits n b = true := decide_eq_true (Nat.le_of_eq heq.symm)
      rw [takeFirst, if_pos hfit, cut, if_neg hlt, List.nil_append]
      have hloop : s.allocLoop n (k + 1) prev = some (some b.lo, s.assign (s.next b.lo) prev) := by
        simp only [allocLoop, hdr, hpage]
        rw [if_neg hlt, if_pos heq]
      refine ⟨_, hloop, htail.congr deref_assign_self fun c hc => ⟨?_, by rw [page_assign]⟩, fun m _ _ =>
        ⟨fun q hq _ => deref_assign_of_ne hq, fun c _ => by rw [page_assign]⟩⟩
      have := hbehind c hc
      unfold Range.hi at this
      have hne : prev ≠ .next c.lo := hb.ne (by omega)
      exact deref_assign_of_ne hne.symm
    · -- the next one
      have hfit : ¬fits n b = true := by
        rw [fits, decide_eq_true_eq]
        omega
      have hin : ∀ c ∈ l, Below c.lo (.next b.lo) := fun c hc =>
        Nat.lt_of_le_of_lt (Nat.le_add_right _ _) (hbehind c hc)
      have hrec := ih hl.tail htail (Nat.lt_of_succ_lt_succ hrounds) hin
      have hnext : s.allocLoop n (k + 1) prev = s.allocLoop n k (.next b.lo) := by
        simp only [allocLoop, hdr, hpage]
        rw [if_neg hlt, if_neg heq]
      rw [takeFirst, if_neg hfit, hnext]
      cases htake : takeFirst (fits n) n l with
      | none =>
        rw [htake] at hrec
        exact hrec
      | some p =>
        obtain ⟨a, l'⟩ := p
        rw [htake] at hrec
        obtain ⟨s', hloop, hfrom, hframe⟩ := hrec
        have hlo : b.lo < b.hi := Nat.lt_add_of_pos_right hl.head.1
        have hf : Frame b.hi (.next b.lo) s s' := hframe b.hi hlo fun c hc => Nat.le_of_lt (hbehind c hc)
        refine ⟨s', hloop, hs.cons_frame hb hl.head.1 hfrom hf, fun m hm hmb => ?_⟩
        have hmb := hmb b List.mem_cons_self
        exact hf.mono (by omega) (Nat.not_lt.2 hmb)

/-- **A head of its own.** -/
theorem linkIn_from (hs : s.From prev l) (hprev : Below n prev) (hbehind : ∀ c ∈ l, n < c.lo) :
    (s.linkIn n m (s.deref prev) prev).From prev (⟨n, m⟩ :: l) := by
  have hne : prev ≠ .next n := hprev.ne (Nat.le_refl _)
  refine ⟨deref_assign_self, by simp [linkIn], hs.congr ?_ fun c hc => ⟨?_, ?_⟩⟩
  · rw [linkIn, deref_assign_of_ne hne.symm, deref_setNext_self]
  · have hc := hbehind c hc
    have hprev' : prev ≠ .next c.lo := hprev.ne (by omega)
    have hnext : Place.next c.lo ≠ .next n := next_ne (by omega)
    rw [linkIn, deref_assign_of_ne hprev'.symm, deref_setNext_of_ne hnext, deref_setPage]
  · have hc := hbehind c hc
    rw [linkIn, page_assign, page_setNext, page_setPage_of_ne (by omega)]

theorem linkIn_frame {k : ℕ} (hk : k ≤ n) : Frame k prev s (s.linkIn n m v prev) where
  deref q hq hqk := by rw [linkIn, deref_assign_of_ne hq, deref_setNext_of_ne (hqk.ne hk), deref_setPage]
  page c hc := by rw [linkIn, page_assign, page_setNext, page_setPage_of_ne (by omega)]

/-- **The left neighbour grows**, and takes the range behind it in when they meet. -/
theorem mergeLeft_from {b : Range} (hl : Coalesced (b :: l)) (hs : s.From prev (b :: l)) (hprev : Below b.lo prev)
    (hmeet : b.hi = r.lo) : (s.mergeLeft b.lo r.len).From prev (FreeList.insert r (b :: l)) := by
  obtain ⟨hdr, hpage, htail⟩ := hs
  have hne : prev ≠ .next b.lo := hprev.ne (Nat.le_refl _)
  have hbehind := hl.head.2
  cases l with
  | nil =>
    have hnext : s.next b.lo = none := htail
    have hmerge : s.mergeLeft b.lo r.len = s.setPage b.lo (b.len + r.len) := by
      rw [mergeLeft, hpage]
      simp only [show (s.setPage b.lo (b.len + r.len)).next b.lo = none from hnext]
    rw [FreeList.insert, if_pos hmeet, hmerge]
    exact ⟨by rw [deref_setPage]; exact hdr, page_setPage_self, by rw [From, deref_setPage]; exact hnext⟩
  | cons c l =>
    obtain ⟨hnext, hpagec, hrest⟩ := htail
    have hnext : s.next b.lo = some c.lo := hnext
    have hbc := hbehind c List.mem_cons_self
    have hcb : c.lo ≠ b.lo := by
      unfold Range.hi at hbc
      omega
    rw [FreeList.insert, if_pos hmeet]
    by_cases hc : r.hi = c.lo
    · have hmerge : s.mergeLeft b.lo r.len =
          ((s.setPage b.lo (b.len + r.len)).setPage b.lo (b.len + r.len + c.len)).setNext b.lo (s.next c.lo) := by
        have hsum : b.lo + (b.len + r.len) = c.lo := by
          unfold Range.hi at hmeet hc
          omega
        rw [mergeLeft, hpage]
        simp only [show (s.setPage b.lo (b.len + r.len)).next b.lo = some c.lo from hnext]
        rw [page_setPage_self, if_pos hsum, page_setPage_of_ne hcb, hpagec]
        rfl
      rw [if_pos hc, hmerge]
      refine ⟨?_, by rw [page_setNext, page_setPage_self], hrest.congr deref_setNext_self fun d hd => ⟨?_, ?_⟩⟩
      · rw [deref_setNext_of_ne hne, deref_setPage, deref_setPage]
        exact hdr
      · have hbd := hbehind d (List.mem_cons_of_mem _ hd)
        unfold Range.hi at hbd
        have hdne : Place.next d.lo ≠ .next b.lo := next_ne (by omega)
        rw [deref_setNext_of_ne hdne, deref_setPage, deref_setPage]
      · have hbd := hbehind d (List.mem_cons_of_mem _ hd)
        unfold Range.hi at hbd
        rw [page_setNext, page_setPage_of_ne (by omega), page_setPage_of_ne (by omega)]
    · have hmerge : s.mergeLeft b.lo r.len = s.setPage b.lo (b.len + r.len) := by
        have hsum : b.lo + (b.len + r.len) ≠ c.lo := by
          unfold Range.hi at hmeet hc
          omega
        rw [mergeLeft, hpage]
        simp only [show (s.setPage b.lo (b.len + r.len)).next b.lo = some c.lo from hnext]
        rw [page_setPage_self, if_neg hsum]
      rw [if_neg hc, hmerge]
      have htail : s.From (.next b.lo) (c :: l) := ⟨hnext, hpagec, hrest⟩
      refine ⟨by rw [deref_setPage]; exact hdr, page_setPage_self,
        htail.congr (by rw [deref_setPage]) fun d hd => ⟨by rw [deref_setPage], page_setPage_of_ne ?_⟩⟩
      have hbd := hbehind d hd
      unfold Range.hi at hbd
      omega

theorem mergeLeft_frame {c k : ℕ} (hk : k ≤ c) : Frame k prev s (s.mergeLeft c n) where
  deref q _ hqk := by
    rw [mergeLeft]
    split
    · split
      · rw [deref_setNext_of_ne (hqk.ne hk), deref_setPage, deref_setPage]
      · rw [deref_setPage]
    · rw [deref_setPage]
  page d hd := by
    rw [mergeLeft]
    split
    · split
      · rw [page_setNext, page_setPage_of_ne (by omega), page_setPage_of_ne (by omega)]
      · rw [page_setPage_of_ne (by omega)]
    · rw [page_setPage_of_ne (by omega)]

/-- **The loop of `rt_page_free`** merges the range with its neighbours. -/
theorem freeLoop_insert (hpos : 0 < r.len) (hl : Coalesced l) (hfree : ∀ b ∈ l, b.hi ≤ r.lo ∨ r.hi ≤ b.lo)
    (hs : s.From prev l) (hrounds : l.length < rounds) (hprev : ∀ b ∈ l, Below b.lo prev) (hr : Below r.lo prev) :
    ∃ s', s.freeLoop r.lo r.len rounds prev = some s' ∧ s'.From prev (FreeList.insert r l) ∧
      ∀ m, Below m prev → (∀ b ∈ l, m ≤ b.lo) → m ≤ r.lo → Frame m prev s s' := by
  induction l generalizing rounds prev with
  | nil =>
    obtain ⟨k, rfl⟩ : ∃ k, rounds = k + 1 := ⟨rounds - 1, by omega⟩
    have hnil : s.deref prev = none := hs
    have hloop : s.freeLoop r.lo r.len (k + 1) prev = some (s.linkIn r.lo r.len (s.deref prev) prev) := by
      simp only [freeLoop, hnil]
    exact ⟨_, hloop, linkIn_from hs hr nofun, fun m _ _ hm => linkIn_frame hm⟩
  | cons b l ih =>
    obtain ⟨k, rfl⟩ : ∃ k, rounds = k + 1 := ⟨rounds - 1, by omega⟩
    have hb : Below b.lo prev := hprev b List.mem_cons_self
    obtain ⟨hdr, hpage, htail⟩ := id hs
    have hbehind := hl.head.2
    have hbpos := hl.head.1
    have hside := hfree b List.mem_cons_self
    have hguard : s.page b.lo > 0 ∧ (b.lo > r.lo ∨ b.lo + s.page b.lo ≤ r.lo) := by
      rw [hpage]
      unfold Range.hi at hside
      omega
    by_cases hmeet : b.hi = r.lo
    · -- a left neighbour
      have hloop : s.freeLoop r.lo r.len (k + 1) prev = some (s.mergeLeft b.lo r.len) := by
        simp only [freeLoop, hdr]
        rw [if_pos hguard, hpage, if_pos (show b.lo + b.len = r.lo from hmeet)]
      exact ⟨_, hloop, mergeLeft_from hl hs hb hmeet, fun m _ hm _ => mergeLeft_frame (hm b List.mem_cons_self)⟩
    have hnot : ¬b.lo + b.len = r.lo := hmeet
    by_cases hright : r.hi = b.lo
    · -- a right neighbour
      have hloop : s.freeLoop r.lo r.len (k + 1) prev =
          some (((s.setPage r.lo (r.len + b.len)).setNext r.lo (s.next b.lo)).assign (some r.lo) prev) := by
        simp only [freeLoop, hdr]
        rw [if_pos hguard, hpage, if_neg hnot, if_pos (show b.lo = r.lo + r.len from hright.symm), Nat.add_comm b.len]
      have hlt : r.lo < b.lo := by
        rw [← hright]
        exact Nat.lt_add_of_pos_right hpos
      have hne : prev ≠ .next r.lo := hr.ne (Nat.le_refl _)
      rw [insert_of_ne hmeet, if_pos hright]
      refine ⟨_, hloop, ⟨deref_assign_self, by simp, htail.congr ?_ fun c hc => ⟨?_, ?_⟩⟩, fun m hm hmb hmr => ⟨?_, ?_⟩⟩
      · rw [deref_assign_of_ne hne.symm, deref_setNext_self]
        rfl
      · have hc := hbehind c hc
        unfold Range.hi at hc
        have hprev' : prev ≠ .next c.lo := hb.ne (by omega)
        have hnext : Place.next c.lo ≠ .next r.lo := next_ne (by omega)
        rw [deref_assign_of_ne hprev'.symm, deref_setNext_of_ne hnext, deref_setPage]
      · have hc := hbehind c hc
        unfold Range.hi at hc
        rw [page_assign, page_setNext, page_setPage_of_ne (by omega)]
      · intro q hq hqm
        rw [deref_assign_of_ne hq, deref_setNext_of_ne (hqm.ne hmr), deref_setPage]
      · intro c hc
        rw [page_assign, page_setNext, page_setPage_of_ne (by omega)]
    have hnright : ¬b.lo = r.lo + r.len := fun heq => hright heq.symm
    by_cases hlt : r.hi < b.lo
    · -- in front of `b`, apart
      have hloop : s.freeLoop r.lo r.len (k + 1) prev = some (s.linkIn r.lo r.len (s.deref prev) prev) := by
        simp only [freeLoop, hdr]
        rw [if_pos hguard, hpage, if_neg hnot, if_neg hnright, if_pos (show b.lo > r.lo + r.len from hlt)]
      rw [insert_of_ne hmeet, if_neg hright, if_pos hlt]
      refine ⟨_, hloop, linkIn_from hs hr fun c hc => ?_, fun m _ _ hm => linkIn_frame hm⟩
      have hrb : r.lo < b.lo := Nat.lt_of_le_of_lt (Nat.le_add_right _ _) hlt
      rcases List.mem_cons.1 hc with rfl | hc
      · exact hrb
      · have := hbehind c hc
        unfold Range.hi at this
        omega
    · -- behind `b`
      have hloop : s.freeLoop r.lo r.len (k + 1) prev = s.freeLoop r.lo r.len k (.next b.lo) := by
        simp only [freeLoop, hdr]
        rw [if_pos hguard, hpage, if_neg hnot, if_neg hnright, if_neg (show ¬b.lo > r.lo + r.len from hlt)]
      have hlo : b.lo < b.hi := Nat.lt_add_of_pos_right hbpos
      have hbr : b.hi ≤ r.lo := by omega
      have hin : ∀ c ∈ l, Below c.lo (.next b.lo) := fun c hc =>
        Nat.lt_of_le_of_lt (Nat.le_add_right _ _) (hbehind c hc)
      obtain ⟨s', hloop', hfrom, hframe⟩ := ih hl.tail (fun c hc => hfree c (List.mem_cons_of_mem _ hc)) htail
        (Nat.lt_of_succ_lt_succ hrounds) hin (Nat.lt_of_lt_of_le hlo hbr)
      have hf : Frame b.hi (.next b.lo) s s' := hframe b.hi hlo (fun c hc => Nat.le_of_lt (hbehind c hc)) hbr
      rw [insert_of_ne hmeet, if_neg hright, if_neg hlt, hloop]
      refine ⟨s', hloop', hs.cons_frame hb hbpos hfrom hf, fun m hm hmb _ => ?_⟩
      have hmb := hmb b List.mem_cons_self
      exact hf.mono (by omega) (Nat.not_lt.2 hmb)

/-! ## The calls -/

theorem rtPageAlloc_takeFirst (hn : 0 < n) (hl : Coalesced l) (hs : s.Lists l) (hrounds : l.length < rounds) :
    match takeFirst (fits n) n l with
    | none => s.rtPageAlloc rounds n = some (none, s)
    | some (a, l') => ∃ s', s.rtPageAlloc rounds n = some (some a, s') ∧ s'.Lists l' := by
  have hloop := allocLoop_takeFirst hn hl (lists_iff.1 hs) hrounds fun _ _ => trivial
  rw [rtPageAlloc, if_neg (by omega)]
  split at hloop
  · exact hloop
  · obtain ⟨s', hs', hfrom, -⟩ := hloop
    exact ⟨s', hs', lists_iff.2 hfrom⟩

theorem rtPageFree_insert (hr : 0 < r.lo) (hpos : 0 < r.len) (hl : Coalesced l)
    (hfree : ∀ b ∈ l, b.hi ≤ r.lo ∨ r.hi ≤ b.lo) (hs : s.Lists l) (hrounds : l.length < rounds) :
    ∃ s', s.rtPageFree rounds r.lo r.len = some s' ∧ s'.Lists (FreeList.insert r l) := by
  obtain ⟨s', hloop, hfrom, -⟩ :=
    freeLoop_insert hpos hl hfree (lists_iff.1 hs) hrounds (fun _ _ => trivial) trivial
  refine ⟨s', ?_, lists_iff.2 hfrom⟩
  rw [rtPageFree, if_pos ⟨by omega, by omega⟩]
  exact hloop

theorem From.unique (h : s.From prev l) (h' : s.From prev l') : l = l' := by
  induction l generalizing prev l' with
  | nil =>
    cases l' with
    | nil => rfl
    | cons r' l' => exact absurd (h.symm.trans h'.1) nofun
  | cons r l ih =>
    cases l' with
    | nil => exact absurd (h'.symm.trans h.1) nofun
    | cons r' l' =>
      have hlo : r.lo = r'.lo := Option.some.inj (h.1.symm.trans h'.1)
      have hlen : r.len = r'.len := by rw [← h.2.1, ← h'.2.1, hlo]
      have hr : r = r' := by
        cases r
        cases r'
        cases hlo
        cases hlen
        rfl
      subst hr
      rw [ih h.2.2 h'.2.2]

/-- A list has its ranges only. -/
theorem Lists.unique (h : s.Lists l) (h' : s.Lists l') : l = l' := (lists_iff.1 h).unique (lists_iff.1 h')

/-- **A request for no page** is refused, any other one only when no range has as many pages. -/
theorem servesAll (hn : n ≠ 0) (hl : Coalesced l) (hs : s.Lists l) (hrounds : l.length < rounds) :
    s.ServesAll rounds n := by
  rintro k hk ⟨s', hs'⟩
  rw [hk.unique hs]
  have hspec := rtPageAlloc_takeFirst (Nat.pos_of_ne_zero hn) hl hs hrounds
  cases htake : takeFirst (fits n) n l with
  | none =>
    intro r hr
    have := takeFirst_none.1 htake r hr
    rw [fits, decide_eq_false_iff_not] at this
    omega
  | some q =>
    rw [htake] at hspec
    obtain ⟨s'', hsome, -⟩ := hspec
    rw [hs'] at hsome
    cases hsome

end State

open State

/-! ## Runs -/

variable {h h' : Heap} {a : Act}

theorem fits_le {b : Range} (hb : fits n b = true) : n ≤ b.len := of_decide_eq_true hb

/-- A walk along the list comes to its end. -/
theorem lists_rounds {k : List Range} (hl : Coalesced l) (hpart : Partition pool (l ++ k)) : l.length < rounds pool :=
  Nat.lt_succ_of_le (hpart.length_le (List.subset_append_left _ _) hl.pos (hl.apart.imp Nat.le_of_lt))

/-- `rt_page_init` leaves one range. -/
theorem wellFormed_init (h0 : h.Init pool) : 0 < pool.lo ∧ h.WellFormed pool := by
  obtain ⟨hlive, s, hinit⟩ := h0
  unfold rtPageInit at hinit
  split at hinit
  · rename_i hpos
    have hlists : ({ s with pageList := none } : State).Lists [] := ⟨rfl, nofun⟩
    have hrounds : ([] : List Range).length < rounds pool := Nat.succ_pos _
    obtain ⟨s', hfree, hs'⟩ := rtPageFree_insert (r := pool) (by omega) (by omega) .nil nofun hlists hrounds
    rw [hfree] at hinit
    cases hinit
    refine ⟨by omega, _, hs', Coalesced.nil.insert (by omega) nofun, fun p => ?_⟩
    rw [hlive, cover_append, cover_insert, cover_nil, Nat.add_zero]
  · cases hinit

/-- **Step lemma**: the step is possible, and keeps the heap well-formed. -/
theorem wellFormed_step (hlo : 0 < pool.lo) (hw : h.WellFormed pool) (hok : h.Promised a) :
    ∃ h', h.step pool a = some h' ∧ h'.WellFormed pool := by
  obtain ⟨l, hs, hl, hpart⟩ := hw
  have hrounds := lists_rounds hl hpart
  cases a with
  | alloc n =>
    by_cases hn : n = 0
    · refine ⟨h, ?_, l, hs, hl, hpart⟩
      simp [Heap.step, rtPageAlloc, hn]
    · have hspec := rtPageAlloc_takeFirst (Nat.pos_of_ne_zero hn) hl hs hrounds
      cases htake : takeFirst (fits n) n l with
      | none =>
        rw [htake] at hspec
        have hspec : h.pages.rtPageAlloc (rounds pool) n = some (none, h.pages) := hspec
        refine ⟨h, ?_, l, hs, hl, hpart⟩
        simp [Heap.step, hspec]
      | some q =>
        obtain ⟨b, l'⟩ := q
        rw [htake] at hspec
        obtain ⟨s', hsome, hs'⟩ := hspec
        refine ⟨⟨s', ⟨b, n⟩ :: h.live⟩, ?_, l', hs', hl.takeFirst htake, hpart.takeFirst (fun _ _ => fits_le) htake⟩
        simp [Heap.step, hsome]
  | free r =>
    obtain ⟨hpos, hlive⟩ := hok
    have hlive : ∀ p, r.Has p → 0 < cover p h.live := fun p hp => hlive p hp.2 hp.1
    have hfree := hpart.apart hl.pos hpos hlive
    -- an allocated page lies in the pool
    have hr : 0 < r.lo := by
      have hused := hlive r.lo ⟨Nat.le_refl _, Nat.lt_add_of_pos_right hpos⟩
      have hin : 0 < pool.count r.lo := by
        rw [← hpart, cover_append]
        omega
      have := (Range.count_pos.1 hin).1
      omega
    obtain ⟨s', hfree', hs'⟩ := rtPageFree_insert hr hpos hl hfree hs hrounds
    refine ⟨⟨s', without h.live r⟩, ?_, _, hs', hl.insert hpos hfree, hpart.insert hlive⟩
    simp [Heap.step, hfree']
  | write b v n =>
    refine ⟨_, rfl, l, ?_, hl, hpart⟩
    -- the page is not a head
    have hne : ∀ r ∈ l, r.lo ≠ b := by
      rintro r hr rfl
      have hfree : 0 < cover r.lo l := cover_pos.2 ⟨r, hr, Nat.le_refl _, Nat.lt_add_of_pos_right (hl.pos r hr)⟩
      have hused : 0 < cover r.lo h.live := hok
      have hle := Range.count_le (r := pool) (p := r.lo)
      rw [← hpart, cover_append] at hle
      omega
    rw [lists_iff] at hs ⊢
    refine hs.congr ?_ fun r hr => ⟨?_, ?_⟩
    · rw [deref_setPage, deref_setNext_of_ne Place.noConfusion]
    · rw [deref_setPage, deref_setNext_of_ne (next_ne (hne r hr))]
    · rw [page_setPage_of_ne (hne r hr), page_setNext]

/-- A pool of eight pages. -/
def eightPages : Heap := ⟨(⟨none, fun _ => none, fun _ => 0⟩ : State).linkIn 1 8 none .pageList, []⟩

theorem eightPages_init : eightPages.Init ⟨1, 8⟩ := ⟨rfl, ⟨none, fun _ => none, fun _ => 0⟩, rfl⟩

end RtThread.Pages
