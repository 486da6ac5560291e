import Mathlib.Data.List.Basic
import Mathlib.Data.Nat.Notation

/-!
# Zero-terminated texts in a buffer

A buffer is a list of cells of a fixed length; an access behind its end is `none`. A text in it ends at the first
zero.

* `Holds.store_end`, `Holds.insert`, `Holds.erase`, `Holds.overwrite`: writing at the end, in the middle and over a text,
  as moves of blocks inside the buffer.
* `Holds.string`: what a reader that stops at the zero sees.
-/

namespace Buffer

variable {α : Type*}

def store (m : List α) (i : ℕ) (a : α) : Option (List α) := if i < m.length then some (m.set i a) else none

/-- Writing a block. -/
def blit (m : List α) (i : ℕ) (src : List α) : Option (List α) :=
  if i + src.length ≤ m.length then some (m.take i ++ src ++ m.drop (i + src.length)) else none

/-- Reading a block. -/
def read (m : List α) (i n : ℕ) : Option (List α) :=
  if i + n ≤ m.length then some ((m.drop i).take n) else none

theorem store_none {m : List α} {i : ℕ} {a : α} (h : m.length ≤ i) : store m i a = none := by
  unfold store
  rw [if_neg (by omega)]

theorem blit_none {m : List α} {i : ℕ} {src : List α} (h : m.length < i + src.length) : blit m i src = none := by
  unfold blit
  rw [if_neg (by omega)]

theorem store_append {s t : List α} {a b : α} : store (s ++ a :: t) s.length b = some (s ++ b :: t) := by
  unfold store
  rw [if_pos (by simp), List.set_append_right _ _ (Nat.le_refl _), Nat.sub_self, List.set_cons_zero]

theorem blit_append {s t u src : List α} (h : t.length = src.length) :
    blit (s ++ (t ++ u)) s.length src = some (s ++ (src ++ u)) := by
  unfold blit
  have hlen : s.length + src.length = (s ++ t).length := by rw [List.length_append, h]
  rw [if_pos (by simp only [List.length_append]; omega), List.take_left, hlen, ← List.append_assoc s t u,
    List.drop_left, List.append_assoc]

variable [Zero α]

/-- The text that begins at `i`, up to its zero. -/
def string [DecidableEq α] (m : List α) (i : ℕ) : Option (List α) :=
  if 0 ∈ m.drop i then some ((m.drop i).takeWhile (· ≠ 0)) else none

/-- A text, and zeros up to length `n`. -/
def pad (n : ℕ) (text : List α) : List α := text ++ List.replicate (n - text.length) 0

/-- Buffer `m` of length `n` holds `text` and nothing behind it. -/
structure Holds (n : ℕ) (m text : List α) : Prop where
  eq : m = pad n text
  short : text.length < n
  noZero : 0 ∉ text

variable {n : ℕ} {m text : List α}

theorem length_pad (h : text.length ≤ n) : (pad n text).length = n := by
  unfold pad
  rw [List.length_append, List.length_replicate]
  omega

theorem Holds.length (h : Holds n m text) : m.length = n := by
  rw [h.eq]
  exact length_pad (Nat.le_of_lt h.short)

/-- The buffer, cut at the zero. -/
theorem Holds.split (h : Holds n m text) : m = text ++ 0 :: List.replicate (n - text.length - 1) 0 := by
  rw [h.eq, pad]
  have hs := h.short
  obtain ⟨k, hk⟩ : ∃ k, n - text.length = k + 1 := ⟨n - text.length - 1, by omega⟩
  rw [hk, List.replicate_succ, Nat.add_sub_cancel]

theorem pad_split {k : ℕ} (hn : n = text.length + k) : pad n text = text ++ List.replicate k 0 := by
  rw [pad, hn, Nat.add_sub_cancel_left]

theorem holds_pad (h : text.length < n) (h0 : 0 ∉ text) : Holds n (pad n text) text := ⟨rfl, h, h0⟩

/-- A text that fills the buffer leaves no zero. -/
theorem noZero_pad (h : n ≤ text.length) (h0 : 0 ∉ text) : 0 ∉ pad n text := by
  rw [pad, Nat.sub_eq_zero_of_le h, List.replicate_zero, List.append_nil]
  exact h0

theorem pad_nil : pad n ([] : List α) = List.replicate n 0 := by simp [pad]

/-- Two texts in equal buffers are equal. -/
theorem Holds.unique {text' : List α} (h : Holds n m text) (h' : Holds n m text') : text = text' := by
  have aux : ∀ (s t : List α) (u v : List α), 0 ∉ s → 0 ∉ t → s ++ 0 :: u = t ++ 0 :: v → s = t := by
    intro s
    induction s with
    | nil =>
      intro t u v _ ht he
      cases t with
      | nil => rfl
      | cons b t =>
        obtain ⟨rfl, -⟩ := List.cons.inj he
        exact absurd List.mem_cons_self ht
    | cons a s ih =>
      intro t u v hs ht he
      cases t with
      | nil =>
        obtain ⟨rfl, -⟩ := List.cons.inj he
        exact absurd List.mem_cons_self hs
      | cons b t =>
        obtain ⟨rfl, htail⟩ := List.cons.inj he
        rw [ih t u v (fun h => hs (List.mem_cons_of_mem _ h)) (fun h => ht (List.mem_cons_of_mem _ h)) htail]
  exact aux _ _ _ _ h.noZero h'.noZero (h.split.symm.trans h'.split)

/-! ## Reading -/

theorem Holds.get_end (h : Holds n m text) : m[text.length]? = some 0 := by
  rw [h.split, List.getElem?_append_right (Nat.le_refl _), Nat.sub_self]
  rfl

theorem Holds.get_before (h : Holds n m text) {i : ℕ} (hi : i < text.length) : m[i]? ≠ some 0 := by
  rw [h.split, List.getElem?_append_left hi]
  intro h0
  exact h.noZero (List.mem_of_getElem? h0)

/-- The part of the text from some place on. -/
theorem Holds.read_tail {b c : List α} (h : Holds n m (b ++ c)) : Buffer.read m b.length c.length = some c := by
  have hl := h.length
  have hs := h.short
  rw [List.length_append] at hs
  unfold Buffer.read
  rw [if_pos (by omega), h.eq, pad, List.append_assoc, List.drop_left, List.take_left]

theorem Holds.read (h : Holds n m text) : Buffer.read m 0 text.length = some text :=
  Holds.read_tail (b := []) h

theorem string_of_split [DecidableEq α] {s t : List α} (hs : 0 ∉ s) : string (s ++ 0 :: t) 0 = some s := by
  have htake : (s ++ 0 :: t).takeWhile (· ≠ 0) = s := by
    rw [List.takeWhile_append_of_pos]
    · simp
    · intro a ha
      have : a ≠ 0 := fun h0 => hs (h0 ▸ ha)
      simpa using this
  unfold string
  rw [List.drop_zero, if_pos (by simp), htake]

/-- A reader that begins inside the text sees the rest of it. -/
theorem Holds.string [DecidableEq α] (h : Holds n m text) {i : ℕ} (hi : i ≤ text.length) :
    Buffer.string m i = some (text.drop i) := by
  have hd : m.drop i = text.drop i ++ 0 :: List.replicate (n - text.length - 1) 0 := by
    rw [h.split, List.drop_append_of_le_length hi]
  have h0 : 0 ∉ text.drop i := fun h0 => h.noZero (List.mem_of_mem_drop h0)
  have hs := string_of_split (t := List.replicate (n - text.length - 1) 0) h0
  unfold Buffer.string at hs ⊢
  rw [hd]
  rwa [List.drop_zero] at hs

theorem string_pad [DecidableEq α] (h : text.length < n) (h0 : 0 ∉ text) : Buffer.string (pad n text) 0 = some text := by
  have := (holds_pad h h0).string (Nat.zero_le _)
  rwa [List.drop_zero] at this

/-- Without a zero, a reader leaves the buffer. -/
theorem string_none [DecidableEq α] {i : ℕ} (h : 0 ∉ m) : Buffer.string m i = none := by
  unfold Buffer.string
  rw [if_neg fun h0 => h (List.mem_of_mem_drop h0)]

/-! ## Writing -/

/-- **One more cell**, written over the zero. -/
theorem Holds.store_end (h : Holds n m text) (a : α) :
    store m text.length a = some (pad n (text ++ [a])) := by
  have hs := h.short
  rw [h.split, store_append, pad_split (k := n - text.length - 1)]
  · rw [List.append_assoc]
    rfl
  · rw [List.length_append, List.length_singleton]
    omega

/-- **A cell in the middle**: the rest moves up by one, and the gap is filled. -/
theorem Holds.insert {b c : List α} (h : Holds n m (b ++ c)) (a : α) :
    ∃ m', blit m (b.length + 1) c = some m' ∧ store m' b.length a = some (pad n (b ++ a :: c)) := by
  have hs := h.short
  rw [List.length_append] at hs
  obtain ⟨k, hk⟩ : ∃ k, n = b.length + c.length + 1 + k := ⟨n - (b.length + c.length + 1), by omega⟩
  have hm : m = b ++ (c ++ [0] ++ List.replicate k 0) := by
    rw [h.eq, pad_split (k := k + 1) (by rw [List.length_append]; omega), List.replicate_succ]
    simp
  obtain ⟨x, rest, hx⟩ : ∃ x rest, c ++ [0] = x :: rest := by
    cases c with
    | nil => exact ⟨0, [], rfl⟩
    | cons x c => exact ⟨x, c ++ [0], rfl⟩
  have hrest : rest.length = c.length := by
    have := congrArg List.length hx
    simpa using this.symm
  refine ⟨b ++ x :: (c ++ List.replicate k 0), ?_, ?_⟩
  · rw [hm, hx, List.cons_append, List.append_cons, show b.length + 1 = (b ++ [x]).length by simp,
      blit_append hrest, ← List.append_cons]
  · rw [store_append, pad_split (k := k), List.append_assoc, List.cons_append]
    rw [List.length_append, List.length_cons]
    omega

/-- **A cell removed from the middle**: the rest moves down by one, and a zero is put behind it. -/
theorem Holds.erase {b c : List α} {a : α} (h : Holds n m (b ++ a :: c)) :
    ∃ m', blit m b.length c = some m' ∧ store m' (b.length + c.length) 0 = some (pad n (b ++ c)) := by
  have hs := h.short
  rw [List.length_append, List.length_cons] at hs
  obtain ⟨k, hk⟩ : ∃ k, n = b.length + c.length + 1 + k := ⟨n - (b.length + c.length + 1), by omega⟩
  have hm : m = b ++ (a :: c ++ List.replicate k 0) := by
    rw [h.eq, pad_split (k := k) (by rw [List.length_append, List.length_cons]; omega), List.append_assoc]
  obtain ⟨rest, x, hx⟩ : ∃ rest x, a :: c = rest ++ [x] :=
    ⟨(a :: c).dropLast, (a :: c).getLast (List.cons_ne_nil _ _), (List.dropLast_append_getLast _).symm⟩
  have hrest : rest.length = c.length := by
    have := congrArg List.length hx
    simpa using this.symm
  refine ⟨b ++ (c ++ x :: List.replicate k 0), ?_, ?_⟩
  · rw [hm, hx, List.append_assoc, blit_append hrest]
    rfl
  · rw [← List.append_assoc, ← List.length_append, store_append, pad_split (k := k + 1), List.replicate_succ]
    rw [List.length_append]
    omega

/-- **A longer text over the end of the old one.** -/
theorem Holds.overwrite {b c src : List α} (h : Holds n m (b ++ c)) (hc : c.length ≤ src.length)
    (hn : b.length + src.length ≤ n) : blit m b.length src = some (pad n (b ++ src)) := by
  have hs := h.short
  rw [List.length_append] at hs
  obtain ⟨k, hk⟩ : ∃ k, n = b.length + src.length + k := ⟨n - (b.length + src.length), by omega⟩
  have hm : m = b ++ ((c ++ List.replicate (src.length - c.length) 0) ++ List.replicate k 0) := by
    rw [h.eq, pad_split (k := src.length - c.length + k) (by rw [List.length_append]; omega), List.replicate_add]
    simp only [List.append_assoc]
  rw [hm, blit_append, pad_split (k := k), List.append_assoc]
  · rw [List.length_append]
    omega
  · rw [List.length_append, List.length_replicate]
    omega

theorem Holds.store_zero (h : Holds n m text) : store m text.length 0 = some m := by
  conv_lhs => rw [h.split]
  rw [store_append, ← h.split]

end Buffer
