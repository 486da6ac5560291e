import RtThread.Lib.Layout
import RtThread.Proof.MemField

/-!
# The heap as a layout

`Shape c m h msa bs`: the bytes `m` from `h` on hold the headers of the layout
`bs`, followed by the header of `heap_end`. The functions of `mem.c` change a few
headers in the middle; `Shape.replace` says what such a change must satisfy.
-/

namespace RtThread.Mem

open Bytes Layout

variable {c : Config}

/-- The header at offset `a` is that of block `b`, with `prev = p`. -/
structure HdrAt (c : Config) (m : Mem) (h a : ℕ) (b : Blk) (p : ℕ) : Prop where
  magic : get c m (h + a) .magic = heapMagic
  used : get c m (h + a) .used = b.used.toNat
  next : get c m (h + a) .next = a + b.size
  prev : get c m (h + a) .prev = p

/-- The headers from offset `a` on are those of `bs`; the first one has `prev = p`. -/
def Seg (c : Config) (m : Mem) (h : ℕ) : ℕ → ℕ → List Blk → Prop
  | _, _, [] => True
  | a, p, b :: bs => HdrAt c m h a b p ∧ Seg c m h (a + b.size) a bs

theorem seg_append {m : Mem} {h a p : ℕ} {l r : List Blk} :
    Seg c m h a p (l ++ r) ↔ Seg c m h a p l ∧ Seg c m h (a + total l) (lastOff a p l) r := by
  induction l generalizing a p with
  | nil => simp [Seg]
  | cons b l ih =>
    simp only [List.cons_append, Seg, ih, total_cons, lastOff, Nat.add_assoc]
    tauto

theorem HdrAt.frame {m m' : Mem} {h a p : ℕ} {b : Blk} (hb : HdrAt c m h a b p)
    (hm : ∀ i, h + a ≤ i → i < h + a + c.sizeofStructMem → m' i = m i) : HdrAt c m' h a b p :=
  ⟨(get_congr hm).trans hb.magic, (get_congr hm).trans hb.used, (get_congr hm).trans hb.next,
    (get_congr hm).trans hb.prev⟩

/-- **Headers depend on their own bytes only.** -/
theorem Seg.frame {m m' : Mem} {h a p : ℕ} {bs : List Blk} (hs : Seg c m h a p bs)
    (hsize : ∀ b ∈ bs, c.sizeofStructMem ≤ b.size)
    (hm : ∀ i, h + a ≤ i → i < h + a + total bs → m' i = m i) : Seg c m' h a p bs := by
  induction bs generalizing a p with
  | nil => trivial
  | cons b bs ih =>
    have hb := hsize b List.mem_cons_self
    rw [total_cons] at hm
    exact ⟨hs.1.frame fun i h1 h2 => hm i h1 (by omega),
      ih hs.2 (fun x hx => hsize x (List.mem_cons_of_mem _ hx)) fun i h1 h2 => hm i (by omega) (by omega)⟩

/-- The bytes `m` from `h` on are a heap with layout `bs`. -/
structure Shape (c : Config) (m : Mem) (h msa : ℕ) (bs : List Blk) : Prop where
  seg : Seg c m h 0 0 bs
  total : total bs = msa + c.sizeofStructMem
  size : ∀ b ∈ bs, c.sizeofStructMem ≤ b.size ∧ c.alignSize ∣ b.size
  end_magic : get c m (h + (msa + c.sizeofStructMem)) .magic = heapMagic
  end_used : get c m (h + (msa + c.sizeofStructMem)) .used = 1
  end_next : get c m (h + (msa + c.sizeofStructMem)) .next = msa + c.sizeofStructMem
  align : c.alignSize ∣ h
  bound : h + msa + 2 * c.sizeofStructMem < 2 ^ c.bits

namespace Shape

variable {m m' : Mem} {h msa : ℕ} {l r old new : List Blk} {b : Blk}

/-- The header of a block in the middle. -/
theorem hdr (hs : Shape c m h msa (l ++ b :: r)) : HdrAt c m h (Layout.total l) b (lastOff 0 0 l) := by
  have := (seg_append.1 hs.seg).2.1
  rwa [Nat.zero_add] at this

theorem size_cons (hs : Shape c m h msa (l ++ b :: r)) :
    c.sizeofStructMem ≤ b.size ∧ c.alignSize ∣ b.size := hs.size b (by simp)

theorem total_eq (hs : Shape c m h msa (l ++ b :: r)) :
    Layout.total l + b.size + Layout.total r = msa + c.sizeofStructMem := by
  have := hs.total
  simp only [total_append, total_cons] at this
  omega

/-- The header behind a block: that of the next block, or `heap_end`. -/
theorem behind (hs : Shape c m h msa (l ++ r)) :
    get c m (h + Layout.total l) .magic = heapMagic ∧
    get c m (h + Layout.total l) .used = ((r.head?.map Blk.used).getD true).toNat ∧
    get c m (h + Layout.total l) .next = Layout.total l + (r.head?.map Blk.size).getD 0 := by
  rcases r with _ | ⟨b, r⟩
  · have ht := hs.total
    rw [List.append_nil] at ht
    rw [ht]
    exact ⟨hs.end_magic, hs.end_used, hs.end_next⟩
  · exact ⟨hs.hdr.magic, hs.hdr.used, hs.hdr.next⟩

/-- **Replace blocks in the middle** by others of the same length, leaving the other
headers alone except for the `prev` of the header behind. -/
theorem replace (hs : Shape c m h msa (l ++ old ++ r)) (htot : Layout.total new = Layout.total old)
    (hsize : ∀ b ∈ new, c.sizeofStructMem ≤ b.size ∧ c.alignSize ∣ b.size)
    (hl : ∀ i, h ≤ i → i < h + Layout.total l → m' i = m i)
    (hnew : Seg c m' h (Layout.total l) (lastOff 0 0 l) new)
    (hnext : ∀ f, f ≠ .prev → get c m' (h + (Layout.total l + Layout.total old)) f =
      get c m (h + (Layout.total l + Layout.total old)) f)
    (hprev : r ≠ [] → get c m' (h + (Layout.total l + Layout.total old)) .prev =
      lastOff (Layout.total l) (lastOff 0 0 l) new)
    (hr : ∀ i, h + (Layout.total l + Layout.total old) + c.sizeofStructMem ≤ i →
      i < h + msa + 2 * c.sizeofStructMem → m' i = m i) :
    Shape c m' h msa (l ++ new ++ r) := by
  have ht := hs.total
  simp only [total_append] at ht
  have hseg := hs.seg
  rw [List.append_assoc, seg_append, seg_append, Nat.zero_add] at hseg
  obtain ⟨hsl, -, hsr⟩ := hseg
  have hlsize : ∀ b ∈ l, c.sizeofStructMem ≤ b.size := fun b hb => (hs.size b (by simp [hb])).1
  have hrsize : ∀ b ∈ r, c.sizeofStructMem ≤ b.size := fun b hb => (hs.size b (by simp [hb])).1
  -- the header of `heap_end`: the one behind, or a later one
  have hend : ∀ f, f ≠ .prev → get c m' (h + (msa + c.sizeofStructMem)) f =
      get c m (h + (msa + c.sizeofStructMem)) f := by
    intro f hf
    rcases r with _ | ⟨b, r⟩
    · rw [total_nil, Nat.add_zero] at ht
      rw [← ht]; exact hnext f hf
    · have := hrsize b List.mem_cons_self
      rw [total_cons] at ht
      exact get_congr fun i h1 h2 => hr i (by omega) (by omega)
  refine ⟨?_, by simp only [total_append]; omega, ?_, (hend _ (by decide)).trans hs.end_magic,
    (hend _ (by decide)).trans hs.end_used, (hend _ (by decide)).trans hs.end_next, hs.align, hs.bound⟩
  · rw [List.append_assoc, seg_append, seg_append, Nat.zero_add]
    refine ⟨hsl.frame hlsize fun i h1 h2 => hl i (by omega) (by omega), hnew, ?_⟩
    rw [htot]
    rcases r with _ | ⟨b, r⟩
    · trivial
    · have hb := hrsize b List.mem_cons_self
      rw [total_cons] at ht
      refine ⟨⟨(hnext _ (by decide)).trans hsr.1.magic, (hnext _ (by decide)).trans hsr.1.used,
        (hnext _ (by decide)).trans hsr.1.next, hprev (by simp)⟩, ?_⟩
      exact hsr.2.frame (fun x hx => hrsize x (List.mem_cons_of_mem _ hx))
        fun i h1 h2 => hr i (by omega) (by omega)
  · intro b hb
    simp only [List.mem_append] at hb
    rcases hb with (hb | hb) | hb
    · exact hs.size b (by simp [hb])
    · exact hsize b hb
    · exact hs.size b (by simp [hb])

/-- Rewrite the header of one block in place. -/
theorem setHdr (hs : Shape c m h msa (l ++ b :: r)) {f : Field} {v : ℕ} {b' : Blk}
    (hb' : b'.size = b.size)
    (hnew : HdrAt c (set c m (h + Layout.total l) f v) h (Layout.total l) b' (lastOff 0 0 l)) :
    Shape c (set c m (h + Layout.total l) f v) h msa (l ++ b' :: r) := by
  have hb := hs.size_cons
  have ht := hs.total_eq
  rw [show l ++ b :: r = l ++ [b] ++ r by simp] at hs
  rw [show l ++ b' :: r = l ++ [b'] ++ r by simp]
  refine hs.replace (by simpa using hb') (by simpa [hb'] using hb) (fun i h1 h2 => set_out (by omega))
    ⟨hnew, trivial⟩ ?_ ?_ ?_
  · intro f _
    simp only [total_cons, total_nil]
    exact get_set_disj (by omega)
  · intro hr
    obtain ⟨y, r, rfl⟩ := List.exists_cons_of_ne_nil hr
    simp only [total_cons, total_nil]
    rw [get_set_disj (by omega)]
    have := (Shape.hdr (l := l ++ [b]) hs).prev
    simpa [lastOff] using this
  · intro i h1 _
    simp only [total_cons, total_nil] at h1
    exact set_out (by omega)

/-- A block's state is its `used` member. -/
theorem setUsed (hs : Shape c m h msa (l ++ b :: r)) (v : Bool) :
    Shape c (set c m (h + Layout.total l) .used v.toNat) h msa (l ++ ⟨v, b.size⟩ :: r) := by
  have hh := hs.hdr
  have hv : v.toNat < Field.lim c .used := by cases v <;> simp [Field.lim, Field.width]
  exact hs.setHdr rfl ⟨(get_set_ne (by decide)).trans hh.magic, get_set_same hv,
    (get_set_ne (by decide)).trans hh.next, (get_set_ne (by decide)).trans hh.prev⟩

/-- Every block already has the magic number. -/
theorem setMagic (hs : Shape c m h msa (l ++ b :: r)) :
    Shape c (set c m (h + Layout.total l) .magic heapMagic) h msa (l ++ b :: r) := by
  have hh := hs.hdr
  have hv : heapMagic < Field.lim c .magic := by simp [Field.lim, Field.width, heapMagic]
  exact hs.setHdr rfl ⟨get_set_same hv, (get_set_ne (by decide)).trans hh.used,
    (get_set_ne (by decide)).trans hh.next, (get_set_ne (by decide)).trans hh.prev⟩

/-- **Join two blocks**: the first one's `next` skips the second, and the header
behind points back to the first. -/
theorem join {u v : Bool} {k₁ k₂ : ℕ} (hs : Shape c m h msa (l ++ ⟨u, k₁⟩ :: ⟨v, k₂⟩ :: r)) :
    Shape c (set c (set c m (h + Layout.total l) .next (Layout.total l + (k₁ + k₂)))
      (h + (Layout.total l + (k₁ + k₂))) .prev (Layout.total l)) h msa (l ++ ⟨u, k₁ + k₂⟩ :: r) := by
  have hb := hs.size_cons
  have hb2 := hs.size ⟨v, k₂⟩ (by simp)
  have hh := hs.hdr
  have ht := hs.total_eq
  have hbd := hs.bound
  simp only [total_cons] at hb hb2 ht
  rw [show l ++ ⟨u, k₁⟩ :: ⟨v, k₂⟩ :: r = l ++ [⟨u, k₁⟩, ⟨v, k₂⟩] ++ r by simp] at hs
  rw [show l ++ ⟨u, k₁ + k₂⟩ :: r = l ++ [⟨u, k₁ + k₂⟩] ++ r by simp]
  have hn : Layout.total l + (k₁ + k₂) < Field.lim c .next := by rw [Field.lim_next]; omega
  have hp : Layout.total l < Field.lim c .prev := by rw [Field.lim_prev]; omega
  refine hs.replace (by simp) ?_ ?_ ⟨?_, trivial⟩ ?_ ?_ ?_
  · simp only [List.mem_singleton, forall_eq]
    exact ⟨by omega, Nat.dvd_add hb.2 hb2.2⟩
  · intro i h1 h2; rw [set_out (by omega), set_out (by omega)]
  · refine ⟨?_, ?_, ?_, ?_⟩ <;> rw [get_set_disj (by omega)]
    · exact (get_set_ne (by decide)).trans hh.magic
    · exact (get_set_ne (by decide)).trans hh.used
    · exact get_set_same hn
    · exact (get_set_ne (by decide)).trans hh.prev
  · intro f hf
    simp only [total_cons, total_nil, Nat.add_zero]
    rw [get_set_ne hf, get_set_disj (by omega)]
  · intro _
    simp only [total_cons, total_nil, Nat.add_zero]
    exact get_set_same hp
  · intro i h1 _
    simp only [total_cons, total_nil, Nat.add_zero] at h1
    rw [set_out (by omega), set_out (by omega)]

end Shape

/-! ## Splitting -/

/-- The memory after `newMem2`. -/
def newMem2Mem (c : Config) (m : Mem) (h ptr ptr2 : ℕ) : Mem :=
  let m := set c m (h + ptr2) .magic heapMagic
  let m := set c m (h + ptr2) .used 0
  let m := set c m (h + ptr2) .next (get c m (h + ptr) .next)
  let m := set c m (h + ptr2) .prev ptr
  set c m (h + ptr) .next ptr2

/-- The memory after `linkBack`. -/
def linkBackMem (c : Config) (m : Mem) (h ptr2 e : ℕ) : Mem :=
  if get c m (h + ptr2) .next ≠ e then set c m (h + get c m (h + ptr2) .next) .prev ptr2 else m

theorem newMem2_eq (s : Heap) (ptr ptr2 : ℕ) :
    newMem2 c s ptr ptr2 = { s with mem := newMem2Mem c s.mem s.heapPtr ptr ptr2 } := rfl

theorem linkBack_eq (s : Heap) (ptr2 : ℕ) : linkBack c s ptr2 =
    { s with mem := linkBackMem c s.mem s.heapPtr ptr2 (s.memSizeAligned + c.sizeofStructMem) } := by
  have hn : s.get c (s.ref ptr2) .next = get c s.mem (s.heapPtr + ptr2) .next := rfl
  unfold linkBack linkBackMem
  by_cases h : s.get c (s.ref ptr2) .next ≠ s.memSizeAligned + c.sizeofStructMem
  · rw [if_pos h, if_pos (hn ▸ h)]; rfl
  · rw [if_neg h, if_neg (hn ▸ h)]

/-- Marking the first half used and linking back commute. -/
theorem linkBackMem_setUsed {m : Mem} {h ptr ptr2 e v : ℕ} (h1 : ptr + c.sizeofStructMem ≤ ptr2)
    (h2 : ptr + c.sizeofStructMem ≤ get c m (h + ptr2) .next) :
    linkBackMem c (set c m (h + ptr) .used v) h ptr2 e =
      set c (linkBackMem c m h ptr2 e) (h + ptr) .used v := by
  unfold linkBackMem
  rw [get_set_disj (by omega)]
  split
  · exact set_comm (by omega)
  · rfl

section Split

variable {m : Mem} {h msa n k : ℕ} {u : Bool} {l r : List Blk}

/-- The two halves of a split block, before the header behind is linked back. -/
theorem newMem2Mem_hdrs (hs : Shape c m h msa (l ++ ⟨u, k⟩ :: r)) (hn : c.sizeofStructMem ≤ n)
    (hk : n + c.sizeofStructMem ≤ k) :
    HdrAt c (newMem2Mem c m h (total l) (total l + n)) h (total l) ⟨u, n⟩ (lastOff 0 0 l) ∧
    HdrAt c (newMem2Mem c m h (total l) (total l + n)) h (total l + n) ⟨false, k - n⟩ (total l) := by
  have hh := hs.hdr
  have ht := hs.total_eq
  have hbd := hs.bound
  simp only at ht
  have h2 : heapMagic < Field.lim c .magic := by simp [Field.lim, Field.width, heapMagic]
  have h3 : 0 < Field.lim c .used := by simp [Field.lim, Field.width]
  have h4 : total l + k < Field.lim c .next := by rw [Field.lim_next]; omega
  have h5 : total l + n < Field.lim c .next := by rw [Field.lim_next]; omega
  have h6 : total l < Field.lim c .prev := by rw [Field.lim_prev]; omega
  have hkn : get c (set c (set c m (h + (total l + n)) .magic heapMagic) (h + (total l + n)) .used 0)
      (h + total l) .next = total l + k := by
    rw [get_set_disj (by omega), get_set_disj (by omega), hh.next]
  unfold newMem2Mem
  simp only [hkn]
  refine ⟨⟨?_, ?_, ?_, ?_⟩, ⟨?_, ?_, ?_, ?_⟩⟩
  · rw [get_set_ne (by decide), get_set_disj (by omega), get_set_disj (by omega),
      get_set_disj (by omega), get_set_disj (by omega), hh.magic]
  · rw [get_set_ne (by decide), get_set_disj (by omega), get_set_disj (by omega),
      get_set_disj (by omega), get_set_disj (by omega), hh.used]
  · rw [get_set_same h5]
  · rw [get_set_ne (by decide), get_set_disj (by omega), get_set_disj (by omega),
      get_set_disj (by omega), get_set_disj (by omega), hh.prev]
  · rw [get_set_disj (by omega), get_set_ne (by decide), get_set_ne (by decide),
      get_set_ne (by decide), get_set_same h2]
  · rw [get_set_disj (by omega), get_set_ne (by decide), get_set_ne (by decide), get_set_same h3]
    rfl
  · rw [get_set_disj (by omega), get_set_ne (by decide), get_set_same h4]
    simp only
    omega
  · rw [get_set_disj (by omega), get_set_same h6]

/-- `newMem2` writes inside the block it splits. -/
theorem newMem2Mem_out {i : ℕ} (hn : c.sizeofStructMem ≤ n) (hk : n + c.sizeofStructMem ≤ k)
    (hi : i < h + total l ∨ h + (total l + k) ≤ i) :
    newMem2Mem c m h (total l) (total l + n) i = m i := by
  unfold newMem2Mem
  rw [set_out (by omega), set_out (by omega), set_out (by omega), set_out (by omega),
    set_out (by omega)]

/-- `linkBack` writes `prev` of the header behind, if a block follows. -/
theorem linkBackMem_cases (hs : Shape c m h msa (l ++ ⟨u, k⟩ :: r)) (hn : c.sizeofStructMem ≤ n)
    (hk : n + c.sizeofStructMem ≤ k) :
    linkBackMem c (newMem2Mem c m h (total l) (total l + n)) h (total l + n)
        (msa + c.sizeofStructMem) =
      if r = [] then newMem2Mem c m h (total l) (total l + n)
      else set c (newMem2Mem c m h (total l) (total l + n)) (h + (total l + k)) .prev (total l + n) := by
  have ht := hs.total_eq
  have hnext : get c (newMem2Mem c m h (total l) (total l + n)) (h + (total l + n)) .next =
      total l + k := by
    rw [(newMem2Mem_hdrs hs hn hk).2.next]; simp only; omega
  unfold linkBackMem
  rw [hnext]
  simp only at ht
  rcases r with _ | ⟨y, r⟩
  · rw [total_nil] at ht
    rw [if_neg (by omega), if_pos rfl]
  · have := (hs.size y (by simp)).1
    have := c.sizeof_pos
    rw [total_cons] at ht
    rw [if_pos (by omega), if_neg (by simp)]

theorem linkBackMem_out {i : ℕ} (hs : Shape c m h msa (l ++ ⟨u, k⟩ :: r))
    (hn : c.sizeofStructMem ≤ n) (hk : n + c.sizeofStructMem ≤ k)
    (hi : i < h + (total l + k) ∨ h + (total l + k) + c.sizeofStructMem ≤ i) :
    linkBackMem c (newMem2Mem c m h (total l) (total l + n)) h (total l + n)
      (msa + c.sizeofStructMem) i = newMem2Mem c m h (total l) (total l + n) i := by
  rw [linkBackMem_cases hs hn hk]
  split
  · rfl
  · exact set_out hi

/-- **Split a block** at `n` bytes: the rest is a new unused block. -/
theorem Shape.split (hs : Shape c m h msa (l ++ ⟨u, k⟩ :: r)) (hn : c.sizeofStructMem ≤ n)
    (hk : n + c.sizeofStructMem ≤ k) (hd : c.alignSize ∣ n) :
    Shape c (linkBackMem c (newMem2Mem c m h (Layout.total l) (Layout.total l + n)) h (Layout.total l + n)
      (msa + c.sizeofStructMem)) h msa (l ++ ⟨u, n⟩ :: ⟨false, k - n⟩ :: r) := by
  have hb := hs.size_cons
  have ht := hs.total_eq
  have hbd := hs.bound
  have hout := fun {i} => linkBackMem_out (i := i) hs hn hk
  have hcases := linkBackMem_cases hs hn hk
  obtain ⟨hh1, hh2⟩ := newMem2Mem_hdrs hs hn hk
  simp only at hb ht
  have hp : Layout.total l + n < Field.lim c .prev := by rw [Field.lim_prev]; omega
  rw [show l ++ ⟨u, k⟩ :: r = l ++ [⟨u, k⟩] ++ r by simp] at hs
  rw [show l ++ ⟨u, n⟩ :: ⟨false, k - n⟩ :: r = l ++ [⟨u, n⟩, ⟨false, k - n⟩] ++ r by simp]
  refine hs.replace ?_ ?_ ?_ ⟨hh1.frame fun i _ _ => hout (by omega),
    hh2.frame fun i _ _ => hout (by omega), trivial⟩ ?_ ?_ ?_
  · simp only [total_cons, total_nil]; omega
  · simp only [List.mem_cons, List.not_mem_nil, or_false, forall_eq_or_imp, forall_eq]
    exact ⟨⟨hn, hd⟩, by omega, Nat.dvd_sub hb.2 hd⟩
  · intro i h1 h2
    rw [hout (by omega), newMem2Mem_out hn hk (by omega)]
  · intro f hf
    simp only [total_cons, total_nil, Nat.add_zero]
    have hback : get c (linkBackMem c (newMem2Mem c m h (Layout.total l) (Layout.total l + n)) h (Layout.total l + n)
        (msa + c.sizeofStructMem)) (h + (Layout.total l + k)) f =
        get c (newMem2Mem c m h (Layout.total l) (Layout.total l + n)) (h + (Layout.total l + k)) f := by
      rw [hcases]; split
      · rfl
      · exact get_set_ne hf
    rw [hback]
    exact get_congr fun i h1 _ => newMem2Mem_out hn hk (by omega)
  · intro hr
    simp only [total_cons, total_nil, Nat.add_zero]
    rw [hcases, if_neg hr, get_set_same hp]
    rfl
  · intro i h1 _
    simp only [total_cons, total_nil, Nat.add_zero] at h1
    rw [hout (by omega), newMem2Mem_out hn hk (by omega)]

end Split

end RtThread.Mem
