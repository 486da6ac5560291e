import Mathlib.Data.BitVec
import Mathlib.Tactic.Linarith

/-!
# Machine words

Unsigned words of `w` bits, read as naturals below `2 ^ w`: rounding to a power
of two with masks, and subtraction with wrap-around.

* `alignUp_eq`, `alignDown_eq`: the mask expressions in arithmetic.
* `alignUp_bounds`: without wrap-around the result is the next multiple.
* `wsub_eq`: subtraction is exact when it does not borrow.
-/

namespace Word

/-- `(n + a - 1) & ~(a - 1)` on `w`-bit words, for `a = 2 ^ k`. -/
def alignUp (w k n : ℕ) : ℕ :=
  ((BitVec.ofNat w n + BitVec.ofNat w (2 ^ k) - 1#w) &&& ~~~(BitVec.ofNat w (2 ^ k) - 1#w)).toNat

/-- `n & ~(a - 1)` on `w`-bit words, for `a = 2 ^ k`. -/
def alignDown (w k n : ℕ) : ℕ :=
  (BitVec.ofNat w n &&& ~~~(BitVec.ofNat w (2 ^ k) - 1#w)).toNat

/-- `a - b` on `w`-bit words. -/
def wsub (w a b : ℕ) : ℕ := (a + 2 ^ w - b % 2 ^ w) % 2 ^ w

theorem ofNat_two_pow_sub_one {w k : ℕ} (hk : k < w) :
    BitVec.ofNat w (2 ^ k) - 1#w = BitVec.ofNat w (2 ^ k - 1) := by
  have h1 : 2 ^ k < 2 ^ w := Nat.pow_lt_pow_right (by omega) hk
  have h2 : 1 < 2 ^ w := by have := Nat.one_le_two_pow (n := k); omega
  have h3 := Nat.one_le_two_pow (n := k)
  apply BitVec.eq_of_toNat_eq
  rw [BitVec.toNat_sub]
  simp only [BitVec.toNat_ofNat, Nat.mod_eq_of_lt h1, Nat.mod_eq_of_lt h2,
    Nat.mod_eq_of_lt (show 2 ^ k - 1 < 2 ^ w by omega)]
  rw [show 2 ^ w - 1 + 2 ^ k = 2 ^ k - 1 + 2 ^ w by omega, Nat.add_mod_right,
    Nat.mod_eq_of_lt (by omega)]

/-- Masking with `~(2 ^ k - 1)` clears the `k` low bits. -/
theorem and_not_mask {w k : ℕ} (hk : k < w) (x : BitVec w) :
    (x &&& ~~~(BitVec.ofNat w (2 ^ k) - 1#w)).toNat = x.toNat / 2 ^ k * 2 ^ k := by
  rw [ofNat_two_pow_sub_one hk]
  apply Nat.eq_of_testBit_eq
  intro i
  rw [BitVec.toNat_and, Nat.testBit_and, BitVec.testBit_toNat, BitVec.testBit_toNat,
    BitVec.getLsbD_not, BitVec.getLsbD_ofNat, Nat.testBit_two_pow_sub_one,
    Nat.testBit_mul_two_pow, Nat.testBit_div_two_pow, BitVec.testBit_toNat]
  by_cases hi : i < w
  · by_cases hik : i < k
    · simp [hi, hik, Nat.not_le.2 hik]
    · simp [hi, hik, Nat.not_lt.1 hik]
  · rw [BitVec.getLsbD_of_ge _ _ (by omega)]
    by_cases hik : k ≤ i
    · simp [hik, BitVec.getLsbD_of_ge x i (by omega)]
    · simp [hik]

/-- Masking with `2 ^ k - 1` keeps the `k` low bits. -/
theorem and_mask {w k : ℕ} (hk : k < w) (x : BitVec w) :
    (x &&& (BitVec.ofNat w (2 ^ k) - 1#w)).toNat = x.toNat % 2 ^ k := by
  have hlt : 2 ^ k - 1 < 2 ^ w := lt_of_le_of_lt (Nat.sub_le _ _) (Nat.pow_lt_pow_right (by omega) hk)
  rw [ofNat_two_pow_sub_one hk, BitVec.toNat_and, BitVec.toNat_ofNat, Nat.mod_eq_of_lt hlt, Nat.and_two_pow_sub_one_eq_mod]

theorem alignUp_eq {w k n : ℕ} (hk : k < w) :
    alignUp w k n = (n + 2 ^ k - 1) % 2 ^ w / 2 ^ k * 2 ^ k := by
  have h1 := Nat.one_le_two_pow (n := k)
  have h2 : 2 ^ k < 2 ^ w := Nat.pow_lt_pow_right (by omega) hk
  unfold alignUp
  rw [and_not_mask hk]
  congr 2
  rw [BitVec.sub_eq_add_neg, BitVec.add_assoc, ← BitVec.sub_eq_add_neg, ofNat_two_pow_sub_one hk, BitVec.toNat_add, BitVec.toNat_ofNat,
    BitVec.toNat_ofNat, ← Nat.add_mod, Nat.add_sub_assoc h1]

theorem alignDown_eq {w k n : ℕ} (hk : k < w) :
    alignDown w k n = n % 2 ^ w / 2 ^ k * 2 ^ k := by
  unfold alignDown
  rw [and_not_mask hk, BitVec.toNat_ofNat]

theorem dvd_alignUp {w k : ℕ} (hk : k < w) (n : ℕ) : 2 ^ k ∣ alignUp w k n := by
  rw [alignUp_eq hk]; exact Nat.dvd_mul_left _ _

theorem dvd_alignDown {w k : ℕ} (hk : k < w) (n : ℕ) : 2 ^ k ∣ alignDown w k n := by
  rw [alignDown_eq hk]; exact Nat.dvd_mul_left _ _

theorem alignUp_lt {w k n : ℕ} (hk : k < w) : alignUp w k n < 2 ^ w := by
  rw [alignUp_eq hk]
  exact lt_of_le_of_lt (Nat.div_mul_le_self _ _) (Nat.mod_lt _ (Nat.two_pow_pos w))

theorem alignDown_le {w k n : ℕ} (hk : k < w) : alignDown w k n ≤ n := by
  rw [alignDown_eq hk]
  exact le_trans (Nat.div_mul_le_self _ _) (Nat.mod_le _ _)

/-- **Rounding up without wrap-around** gives the next multiple. -/
theorem alignUp_bounds {w k n : ℕ} (hk : k < w) (hn : n + 2 ^ k - 1 < 2 ^ w) :
    n ≤ alignUp w k n ∧ alignUp w k n < n + 2 ^ k := by
  have h1 := Nat.one_le_two_pow (n := k)
  rw [alignUp_eq hk, Nat.mod_eq_of_lt hn]
  have h2 := Nat.div_add_mod (n + 2 ^ k - 1) (2 ^ k)
  have h3 := Nat.mod_lt (n + 2 ^ k - 1) (Nat.two_pow_pos k)
  rw [Nat.mul_comm] at h2
  omega

theorem wsub_eq {w a b : ℕ} (ha : a < 2 ^ w) (hb : b ≤ a) : wsub w a b = a - b := by
  unfold wsub
  rw [Nat.mod_eq_of_lt (show b < 2 ^ w by omega), show a + 2 ^ w - b = a - b + 2 ^ w by omega,
    Nat.add_mod_right, Nat.mod_eq_of_lt (by omega)]

theorem wsub_lt {w a b : ℕ} : wsub w a b < 2 ^ w := Nat.mod_lt _ (Nat.two_pow_pos w)

end Word
