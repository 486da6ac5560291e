import RtThread.Spec.Mem
import Mathlib.Tactic.IntervalCases

/-!
# Header members and constants of the allocator

* `get_set_same`, `get_set_ne`, `get_set_disj`: what an assignment to a member
  does to the members of the same and of other headers.
* `set_out`: an assignment stays inside its header.
* `Config.sizeof_*`, `Config.rtAlign_*`: the size constants, and rounding.
-/

namespace RtThread.Mem

open Bytes

variable {c : Config}

/-! ## Constants -/

namespace Config

theorem bits_cases : c.bits = 32 ∨ c.bits = 64 := by
  unfold bits; split <;> simp

theorem alignLog_lt : c.alignLog < c.bits := by
  have := c.alignLog_le; rcases bits_cases (c := c) with h | h <;> omega

theorem word_ge : 2 ^ 32 ≤ 2 ^ c.bits := by
  apply Nat.pow_le_pow_right (by omega)
  rcases bits_cases (c := c) with h | h <;> omega

theorem alignSize_pos : 0 < c.alignSize := Nat.two_pow_pos _

theorem alignSize_le : c.alignSize ≤ 2 ^ 28 := Nat.pow_le_pow_right (by omega) c.alignLog_le

theorem dvd_rtAlign (n : ℕ) : c.alignSize ∣ c.rtAlign n := Word.dvd_alignUp alignLog_lt n

theorem dvd_rtAlignDown (n : ℕ) : c.alignSize ∣ c.rtAlignDown n := Word.dvd_alignDown alignLog_lt n

theorem rtAlign_lt (n : ℕ) : c.rtAlign n < 2 ^ c.bits := Word.alignUp_lt alignLog_lt

theorem rtAlign_bounds {n : ℕ} (hn : n + c.alignSize - 1 < 2 ^ c.bits) :
    n ≤ c.rtAlign n ∧ c.rtAlign n < n + c.alignSize :=
  Word.alignUp_bounds alignLog_lt hn

/-- Rounding leaves a rounded number alone. -/
theorem rtAlign_of_dvd {n : ℕ} (hd : c.alignSize ∣ n) (hn : n < 2 ^ c.bits) : c.rtAlign n = n := by
  have hpos := c.alignSize_pos
  have hword : c.alignSize ∣ 2 ^ c.bits := Nat.pow_dvd_pow 2 (Nat.le_of_lt alignLog_lt)
  have hroom := Nat.le_of_dvd (Nat.sub_pos_of_lt hn) (Nat.dvd_sub hword hd)
  obtain ⟨hle, hlt⟩ := rtAlign_bounds (c := c) (n := n) (by omega)
  have hgap := Nat.eq_zero_of_dvd_of_lt (Nat.dvd_sub (dvd_rtAlign (c := c) n) hd) (by omega)
  omega

theorem sub_eq {a b : ℕ} (ha : a < 2 ^ c.bits) (hb : b ≤ a) : c.sub a b = a - b :=
  Word.wsub_eq ha hb

theorem sizeofHeapMem_le : c.sizeofHeapMem ≤ 24 := by
  unfold sizeofHeapMem; split <;> omega

theorem minSize_eq : c.minSize = c.sizeofHeapMem := rfl

theorem minSizeAligned_eq : c.minSizeAligned = c.sizeofStructMem := rfl

theorem sizeof_bounds : c.sizeofHeapMem ≤ c.sizeofStructMem ∧ c.sizeofStructMem < 2 ^ 29 := by
  have h1 := c.sizeofHeapMem_le
  have h2 := c.alignSize_le
  have h3 := c.word_ge
  have h4 := rtAlign_bounds (c := c) (n := c.sizeofHeapMem) (by omega)
  unfold sizeofStructMem
  omega

theorem sizeofHeapMem_ge : 12 ≤ c.sizeofHeapMem := by
  unfold sizeofHeapMem; split <;> omega

theorem sizeof_pos : 12 ≤ c.sizeofStructMem := le_trans sizeofHeapMem_ge sizeof_bounds.1

theorem dvd_sizeof : c.alignSize ∣ c.sizeofStructMem := dvd_rtAlign _

end Config

/-! ## Members -/

/-- The least value that does not fit a member. -/
def Field.lim (c : Config) (f : Field) : ℕ := 256 ^ f.width c

theorem Field.lim_next : Field.lim c .next = 2 ^ c.bits := by
  unfold Field.lim Field.width Config.bits; cases c.arch64 <;> norm_num

theorem Field.lim_prev : Field.lim c .prev = 2 ^ c.bits := by
  unfold Field.lim Field.width Config.bits; cases c.arch64 <;> norm_num

theorem Field.end_le (f : Field) : f.offset c + f.width c ≤ c.sizeofStructMem := by
  refine le_trans ?_ Config.sizeof_bounds.1
  unfold Config.sizeofHeapMem
  cases f <;> simp only [Field.offset, Field.width] <;> cases c.arch64 <;> simp

theorem Field.disj {f g : Field} (h : f ≠ g) :
    f.offset c + f.width c ≤ g.offset c ∨ g.offset c + g.width c ≤ f.offset c := by
  cases f <;> cases g <;> simp only [Field.offset, Field.width] <;> cases c.arch64 <;> simp at h ⊢

theorem get_set_same {m : Mem} {p v : ℕ} {f : Field} (hv : v < f.lim c) :
    get c (set c m p f v) p f = v := readLE_writeLE_same hv

theorem get_set_ne {m : Mem} {p v : ℕ} {f g : Field} (h : f ≠ g) :
    get c (set c m p g v) p f = get c m p f := by
  have := Field.disj (c := c) h
  exact readLE_writeLE_disj (by omega)

theorem get_set_disj {m : Mem} {p q v : ℕ} {f g : Field}
    (h : p + c.sizeofStructMem ≤ q ∨ q + c.sizeofStructMem ≤ p) :
    get c (set c m q g v) p f = get c m p f := by
  have h1 := f.end_le (c := c)
  have h2 := g.end_le (c := c)
  exact readLE_writeLE_disj (by omega)

theorem set_out {m : Mem} {p v i : ℕ} {f : Field} (h : i < p ∨ p + c.sizeofStructMem ≤ i) :
    set c m p f v i = m i := by
  have h1 := f.end_le (c := c)
  exact writeLE_out (by omega)

theorem set_comm {m : Mem} {p q v u : ℕ} {f g : Field}
    (h : p + c.sizeofStructMem ≤ q ∨ q + c.sizeofStructMem ≤ p) :
    set c (set c m p f v) q g u = set c (set c m q g u) p f v := by
  have h1 := f.end_le (c := c)
  have h2 := g.end_le (c := c)
  exact writeLE_comm (by omega)

theorem get_congr {m m' : Mem} {p : ℕ} {f : Field}
    (h : ∀ i, p ≤ i → i < p + c.sizeofStructMem → m i = m' i) : get c m p f = get c m' p f := by
  have h1 := f.end_le (c := c)
  exact readLE_congr fun i h2 h3 => h i (by omega) (by omega)

end RtThread.Mem
