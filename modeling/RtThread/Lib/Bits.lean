import Mathlib.Data.BitVec

/-!
# Bit sets in machine words

A word read as the set of the positions of its one bits.

* `getLsbD_or_one`, `getLsbD_and_not_one`: adding and removing one position.
* `Lowest x n`: `n` is the least position of `x`; `Lowest.of_byte` finds it byte by byte.
-/

namespace Bits

variable {w : ℕ}

theorem getLsbD_one_shift (p n : ℕ) : (1#w <<< p).getLsbD n = (decide (n < w) && decide (n = p)) := by
  rw [BitVec.getLsbD_shiftLeft, BitVec.getLsbD_one]
  by_cases hn : n < w
  · by_cases hp : n < p
    · simp [hn, hp, Nat.ne_of_lt hp]
    · simp only [hn, hp, decide_true, decide_false, Bool.not_false, Bool.true_and]
      by_cases h : n = p
      · simp [h]; omega
      · have : n - p ≠ 0 := by omega
        simp [h, this]
  · simp [hn]

theorem getLsbD_or_one (x : BitVec w) (p n : ℕ) :
    (x ||| 1#w <<< p).getLsbD n = (x.getLsbD n || (decide (n < w) && decide (n = p))) := by
  rw [BitVec.getLsbD_or, getLsbD_one_shift]

theorem getLsbD_and_not_one (x : BitVec w) (p n : ℕ) :
    (x &&& ~~~(1#w <<< p)).getLsbD n = (x.getLsbD n && decide (n ≠ p)) := by
  rw [BitVec.getLsbD_and, BitVec.getLsbD_not, getLsbD_one_shift]
  by_cases hn : n < w
  · by_cases h : n = p <;> simp [hn, h]
  · simp [BitVec.getLsbD_of_ge x n (by omega)]

theorem eq_zero_iff (x : BitVec w) : x = 0#w ↔ ∀ n, x.getLsbD n = false := by
  refine ⟨fun h n => by rw [h, BitVec.getLsbD_zero], fun h => ?_⟩
  apply BitVec.eq_of_getLsbD_eq
  intro n _
  rw [h, BitVec.getLsbD_zero]

theorem ne_zero_iff (x : BitVec w) : x ≠ 0#w ↔ ∃ n, x.getLsbD n = true := by
  rw [Ne, eq_zero_iff, not_forall]
  simp only [Bool.not_eq_false]

/-- Testing one position. -/
theorem and_one_ne_zero (x : BitVec w) (p : ℕ) : x &&& 1#w <<< p ≠ 0#w ↔ x.getLsbD p = true := by
  rw [ne_zero_iff]
  simp only [BitVec.getLsbD_and, getLsbD_one_shift, Bool.and_eq_true, decide_eq_true_eq]
  constructor
  · rintro ⟨n, hn, -, rfl⟩
    exact hn
  · intro h
    exact ⟨p, h, BitVec.lt_of_getLsbD h, rfl⟩

/-- `n` is the least position of `x`. -/
structure Lowest (x : BitVec w) (n : ℕ) : Prop where
  bit : x.getLsbD n = true
  below : ∀ m, m < n → x.getLsbD m = false

theorem Lowest.unique {x : BitVec w} {n n' : ℕ} (h : Lowest x n) (h' : Lowest x n') : n = n' := by
  rcases Nat.lt_trichotomy n n' with hlt | heq | hlt
  · exact absurd h.bit (by rw [h'.below n hlt]; simp)
  · exact heq
  · exact absurd h'.bit (by rw [h.below n' hlt]; simp)

theorem Lowest.le {x : BitVec w} {n m : ℕ} (h : Lowest x n) (hm : x.getLsbD m = true) : n ≤ m := by
  by_contra hlt
  rw [h.below m (by omega)] at hm
  exact Bool.noConfusion hm

theorem Lowest.lt {x : BitVec w} {n : ℕ} (h : Lowest x n) : n < w := by
  by_contra hge
  have := h.bit
  rw [BitVec.getLsbD_of_ge x n (by omega)] at this
  exact Bool.noConfusion this

/-- Masking out the byte at position `s`. -/
theorem getLsbD_byte (x : BitVec w) (s n : ℕ) :
    ((x &&& 255#w <<< s) >>> s).getLsbD n = (x.getLsbD (s + n) && decide (n < 8)) := by
  have h255 : ∀ i, (255#w).getLsbD i = (decide (i < w) && decide (i < 8)) := by
    intro i
    rw [BitVec.getLsbD_ofNat, show 255 = 2 ^ 8 - 1 from rfl, Nat.testBit_two_pow_sub_one]
  rw [BitVec.getLsbD_ushiftRight, BitVec.getLsbD_and, BitVec.getLsbD_shiftLeft, h255]
  by_cases hw : s + n < w
  · have h1 : n < w := by omega
    by_cases h8 : n < 8 <;> simp [hw, h1, h8]
  · simp [BitVec.getLsbD_of_ge x (s + n) (by omega)]

/-- A byte has a position iff one of its eight bits is set. -/
theorem and_byte_ne_zero {x : BitVec w} {s : ℕ} (h : x &&& 255#w <<< s ≠ 0#w) :
    (x &&& 255#w <<< s) >>> s ≠ 0#w := by
  intro h0
  apply h
  rw [eq_zero_iff] at h0 ⊢
  intro n
  by_cases hn : s ≤ n
  · have := h0 (n - s)
    rw [BitVec.getLsbD_ushiftRight, show s + (n - s) = n by omega] at this
    exact this
  · rw [BitVec.getLsbD_and, BitVec.getLsbD_shiftLeft]
    simp [show n < s by omega]

theorem and_byte_eq_zero {x : BitVec w} {s n : ℕ} (h : x &&& 255#w <<< s = 0#w) (hs : s ≤ n)
    (hn : n < s + 8) : x.getLsbD n = false := by
  have := getLsbD_byte x s (n - s)
  rw [h, BitVec.zero_ushiftRight, BitVec.getLsbD_zero, show s + (n - s) = n by omega] at this
  simpa [show n - s < 8 by omega] using this.symm

/-- **The least position, one byte at a time**: nothing below `s`, and `t` gives the least
position of the byte at `s`. -/
theorem Lowest.of_byte {x : BitVec w} {s t : ℕ} (hlow : ∀ m, m < s → x.getLsbD m = false)
    (ht : ((x &&& 255#w <<< s) >>> s).getLsbD t = true)
    (hbelow : ∀ m, m < t → ((x &&& 255#w <<< s) >>> s).getLsbD m = false) : Lowest x (s + t) := by
  rw [getLsbD_byte, Bool.and_eq_true, decide_eq_true_eq] at ht
  refine ⟨ht.1, fun m hm => ?_⟩
  by_cases hs : m < s
  · exact hlow m hs
  · have := hbelow (m - s) (by omega)
    rw [getLsbD_byte, show s + (m - s) = m by omega] at this
    simpa [show m - s < 8 by omega] using this

end Bits
