import RtThread.Spec.MallocAlign
import RtThread.Proof.MemContents

/-!
# Aligned allocation round-trips

* `alignPtr_eq`: both branches give the first multiple of `align` above the pointer.
* `aligned_kept`: the word below an aligned pointer is kept in every run that does not write there.
* `mallocAlign_iff`: **an aligned block is inside its block just where `rt_malloc` can round the request**, in every
  state of every run.
* `mallocAlign_short`: a request that rounds to 0 gets the smallest block.
-/

namespace RtThread.Mem

open Bytes Layout

variable {c : Config} {k k' : Client} {s s' : Heap} {bs l r : List Blk} {n p q j a size align ptr : ℕ}

/-! ## The pointer -/

namespace Config

theorem wordLog_lt : c.wordLog < c.bits := by
  unfold wordLog bits
  split <;> decide

theorem word_pos : 0 < c.word := Nat.two_pow_pos _

theorem word_dvd_bits : c.word ∣ 2 ^ c.bits := Nat.pow_dvd_pow 2 (Nat.le_of_lt wordLog_lt)

theorem dvd_wordAlign (n : ℕ) : c.word ∣ c.wordAlign n := Word.dvd_alignUp wordLog_lt n

theorem wordAlign_lt (n : ℕ) : c.wordAlign n < 2 ^ c.bits := Word.alignUp_lt wordLog_lt

theorem wordAlign_bounds (hn : n + c.word - 1 < 2 ^ c.bits) : n ≤ c.wordAlign n ∧ c.wordAlign n < n + c.word :=
  Word.alignUp_bounds wordLog_lt hn

/-- A power of two, rounded to a word. -/
theorem wordAlign_two_pow (ha : a < c.bits) : c.wordAlign (2 ^ a) = 2 ^ max a c.wordLog := by
  have hpos := Nat.two_pow_pos a
  have hw := c.wordLog_lt
  have hhalf : 2 ^ a + c.word ≤ 2 ^ c.bits := by
    have h1 : 2 ^ a ≤ 2 ^ (c.bits - 1) := Nat.pow_le_pow_right (by omega) (by omega)
    have h2 : c.word ≤ 2 ^ (c.bits - 1) := Nat.pow_le_pow_right (by omega) (by omega)
    have h3 : 2 ^ c.bits = 2 ^ (c.bits - 1) * 2 := by
      rw [← Nat.pow_succ]
      congr 1
      omega
    omega
  obtain ⟨hle, hlt⟩ := wordAlign_bounds (c := c) (n := 2 ^ a) (by omega)
  obtain ⟨m, hm⟩ := c.dvd_wordAlign (2 ^ a)
  rcases Nat.le_total c.wordLog a with h | h
  · -- a multiple of the word already
    rw [max_eq_left h]
    obtain ⟨d, hd⟩ : c.word ∣ 2 ^ a := Nat.pow_dvd_pow 2 h
    have hgap := Nat.eq_zero_of_dvd_of_lt (Nat.dvd_sub (c.dvd_wordAlign (2 ^ a)) ⟨d, hd⟩) (by omega)
    omega
  · -- at most a word
    rw [max_eq_right h]
    have hle' : 2 ^ a ≤ c.word := Nat.pow_le_pow_right (by omega) h
    have hmpos : 0 < m := by
      rcases Nat.eq_zero_or_pos m with rfl | hpos'
      · omega
      · exact hpos'
    have hm2 : m < 2 := by
      by_contra hge
      have := Nat.mul_le_mul_left c.word (Nat.le_of_not_lt hge)
      omega
    have hm1 : m = 1 := by omega
    rw [hm, hm1, Nat.mul_one]
    rfl

/-- **Both branches** give the first multiple above the pointer. -/
theorem alignPtr_eq (ha : a < c.bits) (hp : ptr < 2 ^ c.bits) :
    c.alignPtr ptr (2 ^ a) = (ptr / 2 ^ a + 1) * 2 ^ a % 2 ^ c.bits := by
  have hpos := Nat.two_pow_pos a
  have hlt : 2 ^ a < 2 ^ c.bits := Nat.pow_lt_pow_right (by omega) ha
  have hmask := Word.ofNat_two_pow_sub_one ha
  have hdiv := Nat.div_add_mod ptr (2 ^ a)
  have hmul : (ptr / 2 ^ a + 1) * 2 ^ a = 2 ^ a * (ptr / 2 ^ a) + 2 ^ a := by ring
  have hand : BitVec.ofNat c.bits ptr &&& (BitVec.ofNat c.bits (2 ^ a) - 1#c.bits) = 0 ↔ ptr % 2 ^ a = 0 := by
    rw [← BitVec.toNat_inj, Word.and_mask ha, BitVec.toNat_ofNat, Nat.mod_eq_of_lt hp]
    rfl
  unfold alignPtr
  simp only
  by_cases h0 : ptr % 2 ^ a = 0
  · rw [if_pos (hand.2 h0), BitVec.toNat_add, BitVec.toNat_ofNat, BitVec.toNat_ofNat, Nat.mod_eq_of_lt hp,
      Nat.mod_eq_of_lt hlt]
    congr 1
    omega
  · rw [if_neg (mt hand.1 h0), Word.and_not_mask ha, BitVec.toNat_add, hmask, BitVec.toNat_ofNat, BitVec.toNat_ofNat,
      Nat.mod_eq_of_lt hp, Nat.mod_eq_of_lt (show 2 ^ a - 1 < 2 ^ c.bits by omega)]
    have hup : (ptr + (2 ^ a - 1)) / 2 ^ a = ptr / 2 ^ a + 1 := by
      have hrem := Nat.mod_lt ptr hpos
      have hsum : ptr + (2 ^ a - 1) = 2 ^ a * (ptr / 2 ^ a + 1) + (ptr % 2 ^ a - 1) := by
        rw [Nat.mul_add, Nat.mul_one]
        omega
      rw [hsum, Nat.mul_add_div hpos, Nat.div_eq_of_lt (Nat.lt_of_le_of_lt (Nat.sub_le _ _) hrem), Nat.add_zero]
    have hbits : 2 ^ c.bits = 2 ^ a * 2 ^ (c.bits - a) := by
      rw [← Nat.pow_add]
      congr 1
      omega
    rw [hbits, Nat.mod_mul_right_div_self, hup, Nat.mul_comm (2 ^ a), Nat.mul_mod_mul_right]

/-- The aligned pointer, unless it is `NULL`. -/
theorem alignPtr_bounds (ha : a < c.bits) (hp : ptr < 2 ^ c.bits) (hne : c.alignPtr ptr (2 ^ a) ≠ 0) :
    2 ^ a ∣ c.alignPtr ptr (2 ^ a) ∧ ptr < c.alignPtr ptr (2 ^ a) ∧ c.alignPtr ptr (2 ^ a) ≤ ptr + 2 ^ a ∧
      c.alignPtr ptr (2 ^ a) < 2 ^ c.bits := by
  have hpos := Nat.two_pow_pos a
  have hrem := Nat.mod_lt ptr hpos
  have hdiv := Nat.div_add_mod ptr (2 ^ a)
  have hmul : (ptr / 2 ^ a + 1) * 2 ^ a = 2 ^ a * (ptr / 2 ^ a) + 2 ^ a := by ring
  have hword : 2 ^ a ∣ 2 ^ c.bits := Nat.pow_dvd_pow 2 (Nat.le_of_lt ha)
  have hmultiple : 2 ^ a ∣ (ptr / 2 ^ a + 1) * 2 ^ a := Nat.dvd_mul_left _ _
  rw [alignPtr_eq ha hp] at hne ⊢
  have hsmall : (ptr / 2 ^ a + 1) * 2 ^ a < 2 ^ c.bits := by
    by_contra hge
    have hgap := Nat.eq_zero_of_dvd_of_lt (Nat.dvd_sub hmultiple hword) (by omega)
    have heq : (ptr / 2 ^ a + 1) * 2 ^ a = 2 ^ c.bits := by omega
    rw [heq, Nat.mod_self] at hne
    exact hne rfl
  rw [Nat.mod_eq_of_lt hsmall]
  exact ⟨hmultiple, by omega, by omega, hsmall⟩

/-- The request, unless it wraps to 0. -/
theorem alignRequest_eq (ha : a < c.bits) (hsize : (size + c.word - 1) / c.word * c.word + 2 ^ a < 2 ^ c.bits)
    (hne : c.alignRequest size (2 ^ a) ≠ 0) :
    c.alignRequest size (2 ^ a) = c.wordAlign size + 2 ^ max a c.wordLog ∧ size ≤ c.wordAlign size ∧
      c.wordAlign size < size + c.word ∧ c.alignRequest size (2 ^ a) < 2 ^ c.bits := by
  have hpos := c.word_pos
  have hapos := Nat.two_pow_pos a
  have hwbits := c.word_dvd_bits
  have hrem := Nat.mod_lt (size + c.word - 1) hpos
  have hdiv := Nat.div_add_mod (size + c.word - 1) c.word
  have hcomm := Nat.mul_comm c.word ((size + c.word - 1) / c.word)
  set up := (size + c.word - 1) / c.word * c.word with hup
  have hroom := Nat.le_of_dvd (by omega) (Nat.dvd_sub hwbits (show c.word ∣ up from Nat.dvd_mul_left _ _))
  have hwrap : size + c.word - 1 < 2 ^ c.bits := by omega
  have hwa : c.wordAlign size = up := by
    unfold wordAlign
    rw [Word.alignUp_eq wordLog_lt]
    rw [show 2 ^ c.wordLog = c.word from rfl, Nat.mod_eq_of_lt hwrap]
  have hlt : c.wordAlign size + 2 ^ max a c.wordLog < 2 ^ c.bits := by
    by_contra hge
    have hbig : a ≤ c.wordLog := by
      by_contra hno
      rw [max_eq_left (by omega)] at hge
      omega
    rw [max_eq_right hbig, show 2 ^ c.wordLog = c.word from rfl] at hge
    have heq : c.wordAlign size + c.word = 2 ^ c.bits := by omega
    refine hne ?_
    rw [alignRequest, wordAlign_two_pow ha, max_eq_right hbig, show 2 ^ c.wordLog = c.word from rfl, heq, Nat.mod_self]
  have hreq : c.alignRequest size (2 ^ a) = c.wordAlign size + 2 ^ max a c.wordLog := by
    rw [alignRequest, wordAlign_two_pow ha, Nat.mod_eq_of_lt hlt]
  exact ⟨hreq, by omega, by omega, by omega⟩

end Config

/-! ## The word below the pointer -/

/-- What a run keeps of a block with an aligned pointer. -/
structure Linked (c : Config) (ptr p e : ℕ) (k : Client) : Prop where
  inv : ∃ bs, ClientInv c k bs
  live : ptr ∈ k.live
  areaEnd : k.heap.areaEnd c ptr = e
  word : readLE k.heap.mem (p - c.word) c.word = ptr

/-- **The word below an aligned pointer is kept.** -/
theorem Linked.runs {e : ℕ} (h : Linked c ptr p e k) (hword : ptr + c.word ≤ p) (hin : p + size ≤ e)
    (hr : Run.Reach (fun k₀ => k₀ = k) (Client.Step c) (KeepsAligned c ptr p size) k') : Linked c ptr p e k' := by
  refine Run.Reach.inv (I := Linked c ptr p e) ?_ ?_ hr
  · rintro k₀ rfl
    exact h
  · rintro k₀ a k₁ ⟨⟨bs, hi⟩, hlive, hend, hread⟩ hok hst
    obtain ⟨bs', hi', -⟩ := hi.step hst
    have hfree : a ≠ .free ptr := by
      rintro rfl
      exact hok rfl
    have hrealloc : ∀ size, a ≠ .realloc ptr size := by
      rintro size rfl
      exact hok rfl
    obtain ⟨hlive', hend', hbytes⟩ := hi.step_keeps hst hlive hfree hrealloc
    refine ⟨⟨bs', hi'⟩, hlive', hend'.trans hend, ?_⟩
    rw [← hread]
    refine readLE_congr ?_
    intro i hlo hhi
    refine hbytes i (by omega) (by omega) ?_
    rintro m rfl
    by_contra hne
    have hwrite := hok i (by omega) (by omega) hne
    omega

/-! ## The block -/

/-- The block that `rt_malloc` takes for a request. -/
theorem Took.areaEnd (ht : Took c s l j r n ptr s') :
    s'.areaEnd c ptr = ptr + (taken (2 * c.sizeofStructMem) (c.sizeofStructMem + n) j - c.sizeofStructMem) := by
  obtain ⟨t, hcut, -⟩ := cut_cases (2 * c.sizeofStructMem) (c.sizeofStructMem + n) j
  have hs := ht.holds
  rw [hcut, List.append_assoc, List.cons_append] at hs
  have hend := areaEnd_eq hs
  have hfits := ht.fits
  have hlen : c.sizeofStructMem + n ≤ taken (2 * c.sizeofStructMem) (c.sizeofStructMem + n) j := by
    unfold taken
    split <;> omega
  rw [ht.heapPtr, ← ht.ret] at hend
  rw [hend, ht.ret]
  omega

/-- A request that `rt_malloc` cannot round is a request for the smallest block. -/
theorem request_wrapped (hn : n < 2 ^ c.bits) (h : ¬n + c.alignSize - 1 < 2 ^ c.bits) :
    request c n = c.sizeofStructMem := by
  have hpos := c.alignSize_pos
  have hle := c.alignSize_le
  have hword := c.word_ge
  have hzero : c.rtAlign n = 0 := by
    unfold Config.rtAlign
    rw [Word.alignUp_eq Config.alignLog_lt]
    have hmod : (n + 2 ^ c.alignLog - 1) % 2 ^ c.bits = n + 2 ^ c.alignLog - 1 - 2 ^ c.bits := by
      unfold Config.alignSize at h hpos hle
      rw [Nat.mod_eq_sub_mod (by omega), Nat.mod_eq_of_lt (by omega)]
    unfold Config.alignSize at h hpos hle
    rw [hmod, Nat.div_eq_of_lt (by omega), Nat.zero_mul]
  rw [request, hzero]
  exact max_eq_right (Nat.zero_le _)

/-- What `rt_malloc_align` has done when it returns a pointer. -/
theorem mallocAlign_ok (hi : ClientInv c k bs) (hword : c.word ∣ c.alignSize) (ha : a < c.bits)
    (hm : rtMallocAlign c k.heap size (2 ^ a) = some (p, s')) (hp : p ≠ rtNull) :
    ∃ ptr s₁ l j r, rtMalloc c k.heap (c.alignRequest size (2 ^ a)) = some (ptr, s₁) ∧ ptr ≠ rtNull ∧
      bs = l ++ ⟨false, j⟩ :: r ∧ Took c k.heap l j r (request c (c.alignRequest size (2 ^ a))) ptr s₁ ∧
      ptr < 2 ^ c.bits ∧ p < 2 ^ c.bits ∧ ptr + c.word ≤ p ∧ p ≤ ptr + 2 ^ max a c.wordLog ∧ 2 ^ a ∣ p ∧
      s' = { s₁ with mem := writeLE s₁.mem (p - c.word) c.word ptr } := by
  unfold rtMallocAlign at hm
  obtain ⟨⟨ptr, s₁⟩, hptr, hm⟩ := Option.bind_eq_some_iff.1 hm
  simp only at hm
  rcases rtMalloc_ok hi.toHeapInv hptr with ⟨rfl, rfl⟩ | ⟨l, j, r, hbs, ht⟩
  · rw [if_neg (by simp)] at hm
    cases hm
    exact absurd rfl hp
  have hsizeof := c.sizeof_pos
  have hret := ht.ret
  have hne : ptr ≠ rtNull := by
    unfold rtNull
    omega
  rw [if_pos hne, Option.pure_def, Option.some.injEq, Prod.mk.injEq, Config.wordAlign_two_pow ha] at hm
  obtain ⟨hpeq, hs'⟩ := hm
  -- the pointer is inside the heap, and a multiple of the word
  have hinv := hbs ▸ hi.toHeapInv
  have hlt : ptr < 2 ^ c.bits := by
    have htot := hinv.shape.total_eq
    have hbd := hinv.shape.bound
    have hb := hinv.shape.size_cons
    simp only at htot hb
    omega
  have hdvd : c.word ∣ ptr := by
    rw [hret]
    exact dvd_trans hword (Nat.dvd_add (Nat.dvd_add hinv.shape.align hinv.dvd_total) Config.dvd_sizeof)
  have hmax : max a c.wordLog < c.bits := max_lt ha Config.wordLog_lt
  obtain ⟨hd, habove, hbelow, hplt⟩ := Config.alignPtr_bounds hmax hlt (by rw [hpeq]; exact hp)
  rw [hpeq] at hd habove hbelow hplt
  have hdw : c.word ∣ p := dvd_trans (Nat.pow_dvd_pow 2 (le_max_right _ _)) hd
  have hgap := Nat.le_of_dvd (Nat.sub_pos_of_lt habove) (Nat.dvd_sub hdw hdvd)
  refine ⟨ptr, s₁, l, j, r, hptr, hne, hbs, ht, hlt, hplt, by omega, hbelow,
    dvd_trans (Nat.pow_dvd_pow 2 (le_max_left _ _)) hd, ?_⟩
  rw [← hs', hpeq, Config.sub_eq hplt (by omega)]

/-- The word below the pointer is not in the header of the block. -/
theorem areaEnd_link (hsz : c.sizeofStructMem ≤ ptr) (hword : ptr + c.word ≤ p) (v : ℕ) :
    Heap.areaEnd c { s with mem := writeLE s.mem (p - c.word) c.word v } ptr = s.areaEnd c ptr := by
  unfold Heap.areaEnd Heap.ref Heap.get
  congr 1
  refine get_congr ?_
  intro i _ hhi
  exact writeLE_out (by omega)

/-- **Aligned allocation round-trips** just where `rt_malloc` can round its request, in every state of every run: for
every size and power of two for which the rounded size and the alignment do not wrap. -/
theorem mallocAlign_iff (h : Client.Reach c Run.Any k) (hword : c.word ∣ c.alignSize) (ha : a < c.bits)
    (hsize : (size + c.word - 1) / c.word * c.word + 2 ^ a < 2 ^ c.bits)
    (hm : rtMallocAlign c k.heap size (2 ^ a) = some (p, s')) (hp : p ≠ rtNull) :
    (∃ ptr s₁, rtMalloc c k.heap (c.alignRequest size (2 ^ a)) = some (ptr, s₁) ∧
        AlignedBlock c ⟨s', ptr :: k.live⟩ ptr p size (2 ^ a)) ↔
      c.alignRequest size (2 ^ a) + c.alignSize - 1 < 2 ^ c.bits := by
  obtain ⟨bs, hi⟩ := h.inv
  obtain ⟨ptr, s₁, l, j, r, hptr, hne, rfl, ht, hlt, hplt, hlo, hhi, hd, rfl⟩ := mallocAlign_ok hi hword ha hm hp
  have hret := ht.ret
  have hfits := ht.fits
  have hsz : c.sizeofStructMem ≤ ptr := by omega
  have hend := ht.areaEnd
  have hreq0 : c.alignRequest size (2 ^ a) ≠ 0 := by
    intro h0
    rw [h0] at hptr
    simp only [rtMalloc, if_true, Option.some.injEq, Prod.mk.injEq] at hptr
    exact hne hptr.1.symm
  obtain ⟨hreq, hle, hup, hreqlt⟩ := Config.alignRequest_eq ha hsize hreq0
  have hsizeof := Config.sizeof_bounds (c := c)
  constructor
  · rintro ⟨ptr', s₂, hptr', hblock⟩
    rw [hptr, Option.some.injEq, Prod.mk.injEq] at hptr'
    obtain ⟨rfl, rfl⟩ := hptr'
    by_contra hno
    -- the block is one of the smallest
    rw [request_wrapped hreqlt hno] at hend
    have hin := hblock.inside
    simp only at hin
    rw [areaEnd_link hsz hlo, hend] at hin
    have htaken : taken (2 * c.sizeofStructMem) (c.sizeofStructMem + c.sizeofStructMem) j < 4 * c.sizeofStructMem + 1 := by
      unfold taken
      split <;> omega
    have halign := c.alignSize_le
    have hwpos := c.word_pos
    have hwle : c.word ≤ 8 := by
      unfold Config.word Config.wordLog
      split <;> decide
    have hhalf : 2 ^ max a c.wordLog ≤ 2 ^ (c.bits - 1) :=
      Nat.pow_le_pow_right (by omega) (by have := max_lt ha (Config.wordLog_lt (c := c)); omega)
    rcases Config.bits_cases (c := c) with hb | hb
    · rw [hb] at hno hhalf
      omega
    · rw [hb] at hno hhalf
      omega
  · intro hround
    refine ⟨ptr, s₁, hptr, ?_⟩
    have hlong : ptr + c.alignRequest size (2 ^ a) ≤ s₁.areaEnd c ptr := by
      have hreq' : c.alignRequest size (2 ^ a) ≤ request c (c.alignRequest size (2 ^ a)) :=
        le_trans (Config.rtAlign_bounds hround).1 (le_max_left _ _)
      rw [hend]
      unfold taken
      split <;> omega
    have hin : p + size ≤ s₁.areaEnd c ptr := by omega
    have hstep : Client.Step c k (.malloc (c.alignRequest size (2 ^ a))) ⟨s₁, if ptr = rtNull then k.live
        else ptr :: k.live⟩ := .malloc hreqlt hptr
    obtain ⟨bs', hi', -⟩ := hi.step hstep
    rw [if_neg hne] at hi'
    have hlinked : Linked c ptr p (s₁.areaEnd c ptr)
        ⟨{ s₁ with mem := writeLE s₁.mem (p - c.word) c.word ptr }, ptr :: k.live⟩ := by
      refine ⟨⟨bs', hi'.write ?_⟩, List.mem_cons_self, areaEnd_link hsz hlo ptr, readLE_writeLE_same ?_⟩
      · intro i hne'
        refine ⟨ptr, List.mem_cons_self, ?_⟩
        by_contra hout
        exact hne' (writeLE_out (by omega))
      · have hbits : 256 ^ c.word = 2 ^ c.bits := by
          unfold Config.word Config.wordLog Config.bits
          split <;> decide
        rw [hbits]
        exact hlt
    refine ⟨hd, hlo, ?_, ?_⟩
    · simp only
      rw [areaEnd_link hsz hlo]
      exact hin
    · intro k' hr
      have hkept := hlinked.runs hlo hin hr
      refine ⟨hkept.live, ?_⟩
      rw [rtFreeAlign, Config.sub_eq hplt (by omega), hkept.word]

/-- A block of 20 bytes at a multiple of 32. -/
theorem mallocAlign_iff_board : ∃ (k : Client) (s' : Heap), rtMallocAlign board k.heap 20 (2 ^ 5) = some (4128, s') ∧
    ((∃ ptr s₁, rtMalloc board k.heap (board.alignRequest 20 (2 ^ 5)) = some (ptr, s₁) ∧
      AlignedBlock board ⟨s', ptr :: k.live⟩ ptr 4128 20 (2 ^ 5)) ↔
    board.alignRequest 20 (2 ^ 5) + board.alignSize - 1 < 2 ^ board.bits) := by
  have hrun : (rtSystemHeapInit board (fun _ => 0) 4096 4256).bind (fun s => (rtMallocAlign board s 20 (2 ^ 5)).map
      Prod.fst) = some 4128 := by decide
  obtain ⟨s, h, hx⟩ := Option.bind_eq_some_iff.1 hrun
  obtain ⟨⟨p, s'⟩, hp, rfl⟩ := Option.map_eq_some_iff.1 hx
  exact ⟨⟨s, []⟩, s', hp, mallocAlign_iff (k := ⟨s, []⟩) (.init ⟨_, _, _, h, rfl⟩) (by decide) (by decide) (by decide) hp
    (by decide)⟩

/-- **A request that rounds to 0 gets the smallest block**: of `0xfffffff8` bytes, four lie in the block. -/
theorem mallocAlign_short : ∃ (k : Client) (p : ℕ) (s' : Heap), Client.Reach board Run.Any k ∧
    rtMallocAlign board k.heap 0xfffffff8 4 = some (p, s') ∧ p ≠ rtNull ∧
    ∀ ptr s₁, rtMalloc board k.heap (board.alignRequest 0xfffffff8 4) = some (ptr, s₁) →
      ¬AlignedBlock board ⟨s', ptr :: k.live⟩ ptr p 0xfffffff8 4 := by
  have hrun : (rtSystemHeapInit board (fun _ => 0) 4096 4256).bind (fun s =>
      (rtMallocAlign board s 0xfffffff8 4).map fun x => (x.1, x.2.areaEnd board 4112,
        (rtMalloc board s (board.alignRequest 0xfffffff8 4)).map Prod.fst)) = some (4116, 4128, some 4112) := by
    decide
  obtain ⟨s, h, hx⟩ := Option.bind_eq_some_iff.1 hrun
  obtain ⟨⟨p, s'⟩, hp, hy⟩ := Option.map_eq_some_iff.1 hx
  simp only [Prod.mk.injEq] at hy
  obtain ⟨rfl, hend, hptr⟩ := hy
  refine ⟨⟨s, []⟩, 4116, s', .init ⟨_, _, _, h, rfl⟩, hp, by decide, ?_⟩
  intro ptr s₁ hm hblock
  rw [show rtMalloc board s (board.alignRequest 0xfffffff8 4) = some (ptr, s₁) from hm, Option.map_some,
    Option.some.injEq] at hptr
  simp only at hptr
  subst hptr
  have hin := hblock.inside
  simp only [hend] at hin
  omega

end RtThread.Mem
