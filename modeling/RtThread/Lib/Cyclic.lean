import Mathlib.Data.List.Range
import Mathlib.Data.Nat.ModEq
import Mathlib.Logic.Function.Basic

/-!
# Cyclic buffers

A buffer of `n` places, used cyclically: `contents pool n out k` are the `k` elements from place `out`
on. Places are taken modulo `n`.

* `contents_push`, `contents_cons`: an element goes in behind the last one, the first one comes out.
* `write`, `contents_write`: a block goes in behind the last element.
* `contents_overwrite`: a block that overwrites the first elements.
* `copy`, `write_eq_copy`: the block is copied in two pieces.
* `slice`, `slice_append`: elements are read in two pieces.

A counter that wraps at `w` jumps over places where `n` does not divide `w`.

* `wrapped_ne`, `wrapped_eq`: when the next place is free, and which place it shares otherwise.
-/

namespace Cyclic

variable {α : Type*}

/-- The `k` elements from place `out` on. -/
def contents (pool : ℕ → α) (n out k : ℕ) : List α := (List.range k).map fun i => pool ((out + i) % n)

/-- Put a block at place `i`. -/
def write (pool : ℕ → α) (n : ℕ) : ℕ → List α → ℕ → α
  | _, [] => pool
  | i, x :: d => write (Function.update pool (i % n) x) n (i + 1) d

/-- Put a block at place `i` of a buffer that is not cyclic. -/
def copy (pool : ℕ → α) : ℕ → List α → ℕ → α
  | _, [] => pool
  | i, x :: d => copy (Function.update pool i x) (i + 1) d

/-- The `k` elements from place `i` on of a buffer that is not cyclic. -/
def slice (pool : ℕ → α) (i k : ℕ) : List α := (List.range k).map fun j => pool (i + j)

variable {pool : ℕ → α} {n out k : ℕ}

@[simp] theorem length_contents : (contents pool n out k).length = k := by simp [contents]

@[simp] theorem contents_zero : contents pool n out 0 = [] := rfl

@[simp] theorem contents_mod : contents pool n (out % n) k = contents pool n out k := by
  simp [contents]

theorem contents_append (a b : ℕ) :
    contents pool n out (a + b) = contents pool n out a ++ contents pool n (out + a) b := by
  unfold contents
  rw [List.range_add, List.map_append, List.map_map]
  simp [Function.comp_def, Nat.add_assoc]

/-- The first element comes out. -/
theorem contents_cons : contents pool n out (k + 1) = pool (out % n) :: contents pool n (out + 1) k := by
  rw [Nat.add_comm k 1, contents_append]
  simp [contents]

/-- **An element goes in behind the last one.** -/
theorem contents_push (h : k < n) (x : α) :
    contents (Function.update pool ((out + k) % n) x) n out (k + 1) = contents pool n out k ++ [x] := by
  have hne : ∀ i ∈ List.range k, (out + i) % n ≠ (out + k) % n := by
    intro i hi he
    have hik := List.mem_range.1 hi
    have hmod : i % n = k % n := Nat.ModEq.add_left_cancel' out he
    rw [Nat.mod_eq_of_lt (by omega), Nat.mod_eq_of_lt h] at hmod
    omega
  unfold contents
  rw [List.range_succ, List.map_append, List.map_singleton, Function.update_self]
  congr 1
  exact List.map_congr_left fun i hi => Function.update_of_ne (hne i hi) _ _

/-- **A block goes in behind the last element.** -/
theorem contents_write {d : List α} (h : k + d.length ≤ n) :
    contents (write pool n (out + k) d) n out (k + d.length) = contents pool n out k ++ d := by
  induction d generalizing pool k with
  | nil => simp [write]
  | cons x d ih =>
    rw [List.length_cons] at h ⊢
    have := @ih (Function.update pool ((out + k) % n) x) (k + 1) (by omega)
    rw [contents_push (by omega), List.append_assoc] at this
    rw [write, show k + (d.length + 1) = k + 1 + d.length by omega]
    exact this

/-- **A block goes in, and overwrites the first `m` elements.** -/
theorem contents_overwrite {d : List α} {m : ℕ} (hm : m ≤ k) (h : k + d.length ≤ n + m) :
    contents (write pool n (out + k) d) n (out + m) (k + d.length - m) =
      (contents pool n out k ++ d).drop m := by
  have hsplit : contents pool n out k = contents pool n out m ++ contents pool n (out + m) (k - m) := by
    rw [← contents_append, Nat.add_sub_cancel' hm]
  rw [hsplit, List.append_assoc, List.drop_left' length_contents,
    show out + k = out + m + (k - m) by omega, show k + d.length - m = k - m + d.length by omega]
  exact contents_write (by omega)

theorem write_append (pool : ℕ → α) (n i : ℕ) (d e : List α) :
    write pool n i (d ++ e) = write (write pool n i d) n (i + d.length) e := by
  induction d generalizing pool i with
  | nil => rfl
  | cons x d ih =>
    rw [List.cons_append, write, ih, write, List.length_cons, show i + 1 + d.length = i + (d.length + 1) by omega]

theorem write_mod (pool : ℕ → α) (n i : ℕ) (d : List α) : write pool n (i % n) d = write pool n i d := by
  induction d generalizing pool i with
  | nil => rfl
  | cons x d ih =>
    rw [write, write, Nat.mod_mod, ← ih _ (i % n + 1), ← ih _ (i + 1), Nat.mod_add_mod]

/-- A block that does not wrap. -/
theorem write_eq_copy {i : ℕ} {d : List α} (h : i + d.length ≤ n) : write pool n i d = copy pool i d := by
  induction d generalizing pool i with
  | nil => rfl
  | cons x d ih =>
    rw [List.length_cons] at h
    rw [write, copy, Nat.mod_eq_of_lt (by omega), ih (by omega)]

/-- **A block that wraps is copied in two pieces.** -/
theorem write_eq_copy_copy {i : ℕ} {d : List α} (hi : i ≤ n) (hd : d.length ≤ n) :
    write pool n i d = copy (copy pool i (d.take (n - i))) 0 (d.drop (n - i)) := by
  by_cases hw : d.length ≤ n - i
  · rw [List.take_of_length_le hw, List.drop_of_length_le hw]
    exact write_eq_copy (by omega)
  · have hlen : (d.take (n - i)).length = n - i := List.length_take_of_le (by omega)
    conv_lhs => rw [← List.take_append_drop (n - i) d]
    rw [write_append, hlen, Nat.add_sub_cancel' hi, write_eq_copy (d := d.take (n - i)) (by omega),
      ← write_mod _ n n, Nat.mod_self]
    exact write_eq_copy (by rw [List.length_drop]; omega)

/-- Elements that do not wrap. -/
theorem slice_eq (h : out + k ≤ n) : slice pool out k = contents pool n out k := by
  refine List.map_congr_left fun j hj => ?_
  have hjk := List.mem_range.1 hj
  rw [Nat.mod_eq_of_lt (by omega)]

/-- **Elements that wrap are read in two pieces.** -/
theorem slice_append (hout : out ≤ n) (hk : k ≤ n) (hroom : n - out ≤ k) :
    slice pool out (n - out) ++ slice pool 0 (k - (n - out)) = contents pool n out k := by
  have hfirst : slice pool out (n - out) = contents pool n out (n - out) := slice_eq (by omega)
  have hsecond : slice pool 0 (k - (n - out)) = contents pool n (out + (n - out)) (k - (n - out)) := by
    rw [slice_eq (show 0 + (k - (n - out)) ≤ n by omega), Nat.add_sub_cancel' hout, ← contents_mod (n := n),
      Nat.zero_mod, ← Nat.mod_self n, contents_mod]
  rw [hfirst, hsecond, ← contents_append, Nat.add_sub_cancel' hroom]

/-! ## Counters that wrap -/

theorem add_mod_ne {d : ℕ} (hd : 0 < d) (hn : d < n) (x : ℕ) : x % n ≠ (x + d) % n := by
  intro h
  have hzero : 0 ≡ d [MOD n] := Nat.ModEq.add_left_cancel' x h
  have hdn : d % n = 0 := hzero.symm
  rw [Nat.mod_eq_of_lt hn] at hdn
  omega

/-- **The next place is free**: the counter has not wrapped since `out`, or it is `w % n` elements and more
away from where it wrapped, or there are fewer elements than these. -/
theorem wrapped_ne {w i : ℕ} (hout : out < w) (hnw : n ≤ w) (hk : k < n) (hi : i < k)
    (hfree : w ≤ out + k → out + k - w < w % n → k < w % n) : (out + i) % w % n ≠ (out + k) % w % n := by
  by_cases hwrap : w ≤ out + k
  · have hput : (out + k) % w = out + k - w := by
      rw [Nat.mod_eq_sub_mod hwrap, Nat.mod_eq_of_lt (by omega)]
    rw [hput]
    by_cases hiw : w ≤ out + i
    · rw [Nat.mod_eq_sub_mod hiw, Nat.mod_eq_of_lt (show out + i - w < w by omega),
        show out + k - w = out + i - w + (k - i) by omega]
      exact add_mod_ne (by omega) (by omega) _
    · -- the two places differ by `w - (k - i)`, which is a multiple of `n` only if `k - i = w % n`
      rw [Nat.mod_eq_of_lt (show out + i < w by omega)]
      intro heq
      have hadd : out + i + (k - i) ≡ out + k - w + (k - i) [MOD n] := Nat.ModEq.add_right (k - i) heq
      rw [show out + i + (k - i) = out + k - w + w by omega] at hadd
      have hwd : w % n = (k - i) % n := Nat.ModEq.add_left_cancel' _ hadd
      rw [Nat.mod_eq_of_lt (show k - i < n by omega)] at hwd
      have := hfree hwrap
      omega
  · rw [Nat.mod_eq_of_lt (show out + i < w by omega), Nat.mod_eq_of_lt (show out + k < w by omega),
      show out + k = out + i + (k - i) by omega]
    exact add_mod_ne (by omega) (by omega) _

/-- **The next place is taken** by the element that stands `w % n` before it. -/
theorem wrapped_eq {w : ℕ} (hwrap : w ≤ out + k) (hput : out + k - w < w % n)
    (hk : w % n ≤ k) : (out + (k - w % n)) % w % n = (out + k) % w % n := by
  have hlt : out + k - w < w := lt_of_lt_of_le hput (Nat.mod_le w n)
  rw [Nat.mod_eq_of_lt (show out + (k - w % n) < w by omega), Nat.mod_eq_sub_mod hwrap, Nat.mod_eq_of_lt hlt]
  have hadd : out + (k - w % n) + w % n ≡ out + k - w + w % n [MOD n] := by
    rw [show out + (k - w % n) + w % n = out + k - w + w by omega]
    exact Nat.ModEq.add_left _ (Nat.mod_modEq w n).symm
  exact Nat.ModEq.add_right_cancel' _ hadd

end Cyclic
