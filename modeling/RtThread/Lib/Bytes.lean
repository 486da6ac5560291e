import Mathlib.Data.Nat.Basic
import Mathlib.Data.UInt
import Mathlib.Tactic.Ring

/-!
# Byte memory

A memory maps addresses to bytes. `readLE` and `writeLE` move little-endian
integers of any width; `copy` moves a run of bytes.

* `readLE_writeLE_same`: a value that fits reads back as written.
* `readLE_writeLE_disj`: a write changes no integer outside its bytes.
* `readLE_congr`: an integer depends on its own bytes only.
* `load_store_same`: a run of bytes that is stored reads back.
* `copy_add`, `copy_last`: an area is copied in parts, from the front on or from the back on.
* `write_read`, `write_fill`: in both byte orders, an integer moves as its bytes.
-/

namespace Bytes

/-- A byte memory. -/
abbrev Mem := ℕ → UInt8

/-- The `n`-byte little-endian integer at address `a`. -/
def readLE (m : Mem) (a : ℕ) : ℕ → ℕ
  | 0 => 0
  | n + 1 => (m a).toNat + 256 * readLE m (a + 1) n

/-- Store `v` as an `n`-byte little-endian integer at address `a`. -/
def writeLE (m : Mem) (a n v : ℕ) : Mem :=
  fun i => if a ≤ i ∧ i < a + n then UInt8.ofNat (v / 256 ^ (i - a)) else m i

/-- Copy the `n` bytes at `src` to `dst` (areas that do not overlap). -/
def copy (m : Mem) (dst src n : ℕ) : Mem :=
  fun i => if dst ≤ i ∧ i < dst + n then m (src + (i - dst)) else m i

theorem writeLE_out {m : Mem} {a n v i : ℕ} (h : i < a ∨ a + n ≤ i) :
    writeLE m a n v i = m i := by
  unfold writeLE; rw [if_neg (by omega)]

theorem copy_out {m : Mem} {dst src n i : ℕ} (h : i < dst ∨ dst + n ≤ i) :
    copy m dst src n i = m i := by
  unfold copy; rw [if_neg (by omega)]

/-- Writes to disjoint bytes commute. -/
theorem writeLE_comm {m : Mem} {a n v b k u : ℕ} (h : a + n ≤ b ∨ b + k ≤ a) :
    writeLE (writeLE m a n v) b k u = writeLE (writeLE m b k u) a n v := by
  funext i
  unfold writeLE
  split_ifs <;> first | rfl | omega

theorem readLE_congr {m m' : Mem} {a n : ℕ} (h : ∀ i, a ≤ i → i < a + n → m i = m' i) :
    readLE m a n = readLE m' a n := by
  induction n generalizing a with
  | zero => rfl
  | succ n ih =>
    simp only [readLE]
    rw [h a le_rfl (by omega), ih fun i h1 h2 => h i (by omega) (by omega)]

theorem readLE_writeLE_disj {m : Mem} {a n b k v : ℕ} (h : a + n ≤ b ∨ b + k ≤ a) :
    readLE (writeLE m b k v) a n = readLE m a n :=
  readLE_congr fun _ _ _ => writeLE_out (by omega)

/-- Reading a suffix of a written integer drops the low bytes. -/
theorem readLE_writeLE_suffix {m : Mem} {a n v : ℕ} :
    ∀ k j, j + k = n → readLE (writeLE m a n v) (a + j) k = v / 256 ^ j % 256 ^ k := by
  intro k
  induction k with
  | zero => intro j _; simp [readLE, Nat.mod_one]
  | succ k ih =>
    intro j hj
    have hb : (writeLE m a n v (a + j)).toNat = v / 256 ^ j % 256 := by
      unfold writeLE; rw [if_pos (by omega), Nat.add_sub_cancel_left]
      simp
    simp only [readLE]
    rw [Nat.add_assoc, ih (j + 1) (by omega), hb, Nat.pow_succ, ← Nat.div_div_eq_div_mul,
      Nat.pow_succ, Nat.mul_comm (256 ^ k) 256, Nat.mod_mul]

/-- **A value that fits reads back as written.** -/
theorem readLE_writeLE_same {m : Mem} {a n v : ℕ} (hv : v < 256 ^ n) :
    readLE (writeLE m a n v) a n = v := by
  have h := readLE_writeLE_suffix (m := m) (a := a) (v := v) n 0 (Nat.zero_add n)
  simpa [Nat.mod_eq_of_lt hv] using h

/-! ## Runs of bytes -/

/-- The `n` bytes from `a` on. -/
def load (m : Mem) (a : ℕ) : ℕ → List UInt8
  | 0 => []
  | n + 1 => m a :: load m (a + 1) n

/-- Store bytes from `a` on. -/
def store (m : Mem) (a : ℕ) (l : List UInt8) : Mem :=
  fun i => if a ≤ i ∧ i < a + l.length then l.getD (i - a) 0 else m i

theorem load_congr {m m' : Mem} {a n : ℕ} (h : ∀ i, a ≤ i → i < a + n → m i = m' i) : load m a n = load m' a n := by
  induction n generalizing a with
  | zero => rfl
  | succ n ih =>
    simp only [load]
    rw [h a le_rfl (by omega), ih fun i h1 h2 => h i (by omega) (by omega)]

theorem store_out {m : Mem} {a i : ℕ} {l : List UInt8} (h : i < a ∨ a + l.length ≤ i) : store m a l i = m i := by
  unfold store
  rw [if_neg (by omega)]

/-- **What is stored reads back.** -/
theorem load_store_same {m : Mem} {a : ℕ} {l : List UInt8} : load (store m a l) a l.length = l := by
  induction l generalizing a m with
  | nil => rfl
  | cons c l ih =>
    have hhead : store m a (c :: l) a = c := by
      unfold store
      rw [if_pos ⟨le_rfl, Nat.lt_add_of_pos_right (Nat.succ_pos _)⟩, Nat.sub_self]
      rfl
    have htail : load (store m a (c :: l)) (a + 1) l.length = load (store m (a + 1) l) (a + 1) l.length := by
      refine load_congr fun i h1 h2 => ?_
      unfold store
      rw [if_pos ⟨by omega, by rw [List.length_cons]; omega⟩, if_pos ⟨h1, h2⟩]
      obtain ⟨k, rfl⟩ := Nat.exists_eq_add_of_le h1
      rw [show a + 1 + k - a = k + 1 by omega, Nat.add_sub_cancel_left, List.getD_cons_succ]
    rw [List.length_cons, load, hhead, htail, ih]

theorem load_append {m : Mem} {a n k : ℕ} : load m a (n + k) = load m a n ++ load m (a + n) k := by
  induction n generalizing a with
  | zero => rw [Nat.zero_add, Nat.add_zero, load, List.nil_append]
  | succ n ih =>
    rw [Nat.succ_add, load, load, ih, List.cons_append, Nat.add_right_comm, Nat.add_assoc]

/-! ## Bytes and areas -/

/-- Store a byte. -/
def put (m : Mem) (a : ℕ) (b : UInt8) : Mem := fun i => if i = a then b else m i

/-- Store a byte in each of the `n` places from `a` on. -/
def fill (m : Mem) (a n : ℕ) (b : UInt8) : Mem := fun i => if a ≤ i ∧ i < a + n then b else m i

theorem fill_zero {m : Mem} {a : ℕ} {b : UInt8} : fill m a 0 b = m := by
  funext i
  unfold fill
  rw [if_neg (by omega)]

theorem put_eq_fill {m : Mem} {a : ℕ} {b : UInt8} : put m a b = fill m a 1 b := by
  funext i
  unfold put fill
  exact if_congr (by omega) rfl rfl

/-- Two areas next to each other. -/
theorem fill_add {m : Mem} {a n k : ℕ} {b : UInt8} : fill (fill m a n b) (a + n) k b = fill m a (n + k) b := by
  funext i
  unfold fill
  split_ifs <;> first | rfl | omega

theorem copy_zero {m : Mem} {dst src : ℕ} : copy m dst src 0 = m :=
  funext fun _ => copy_out (by omega)

theorem put_eq_copy {m : Mem} {dst src : ℕ} : put m dst (m src) = copy m dst src 1 := by
  funext i
  unfold put copy
  by_cases h : i = dst
  · rw [if_pos h, if_pos (by omega), h, Nat.sub_self, Nat.add_zero]
  · rw [if_neg h, if_neg (by omega)]

theorem copy_in {m : Mem} {dst src n i : ℕ} (h₁ : dst ≤ i) (h₂ : i < dst + n) :
    copy m dst src n i = m (src + (i - dst)) := if_pos ⟨h₁, h₂⟩

/-- From the front on, where the first bytes are not read again. -/
theorem copy_add {m : Mem} {dst src n k : ℕ} (h : dst ≤ src ∨ src + (n + k) ≤ dst) :
    copy (copy m dst src n) (dst + n) (src + n) k = copy m dst src (n + k) := by
  funext i
  by_cases hi : dst + n ≤ i ∧ i < dst + n + k
  · rw [copy_in hi.1 hi.2, copy_out (by omega), copy_in (by omega) (by omega)]
    congr 1
    omega
  · rw [copy_out (by omega)]
    unfold copy
    exact if_congr (by omega) rfl rfl

/-- From the back on, where the last byte is not read again. -/
theorem copy_last {m : Mem} {dst src n : ℕ} (h : src ≤ dst ∨ dst + n < src) :
    copy (put m (dst + n) (m (src + n))) dst src n = copy m dst src (n + 1) := by
  funext i
  by_cases hi : dst ≤ i ∧ i < dst + n
  · rw [copy_in hi.1 hi.2, copy_in hi.1 (by omega)]
    unfold put
    rw [if_neg (by omega)]
  · rw [copy_out (by omega)]
    unfold put
    by_cases hlast : i = dst + n
    · rw [if_pos hlast, copy_in (by omega) (by omega), hlast, Nat.add_sub_cancel_left]
    · rw [if_neg hlast, copy_out (by omega)]

/-! ## Byte orders -/

/-- The order of the bytes of an integer. -/
inductive Order
  | little
  | big
  deriving DecidableEq

/-- The bytes of an area in reverse. -/
def reflect (m : Mem) (a n : ℕ) : Mem := fun i => if a ≤ i ∧ i < a + n then m (a + (a + n - 1 - i)) else m i

/-- The `n`-byte integer at address `a`. -/
def Order.read : Order → Mem → ℕ → ℕ → ℕ
  | .little, m, a, n => readLE m a n
  | .big, m, a, n => readLE (reflect m a n) a n

/-- Store `v` as an `n`-byte integer at address `a`. -/
def Order.write : Order → Mem → ℕ → ℕ → ℕ → Mem
  | .little, m, a, n, v => writeLE m a n v
  | .big, m, a, n, v => reflect (writeLE m a n v) a n

/-- The bytes of an integer are those of the memory. -/
theorem byte_readLE {m : Mem} {a n k : ℕ} (h : k < n) : UInt8.ofNat (readLE m a n / 256 ^ k) = m (a + k) := by
  induction n generalizing a k with
  | zero => exact absurd h (Nat.not_lt_zero k)
  | succ n ih =>
    have hlt : (m a).toNat < 256 := (m a).toNat_lt
    cases k with
    | zero =>
      apply UInt8.toNat_inj.1
      show (readLE m a (n + 1) / 256 ^ 0) % 256 = (m a).toNat
      rw [Nat.pow_zero, Nat.div_one, readLE]
      omega
    | succ k =>
      have hdiv : ((m a).toNat + 256 * readLE m (a + 1) n) / 256 = readLE m (a + 1) n := by omega
      rw [readLE, Nat.pow_succ', ← Nat.div_div_eq_div_mul, hdiv, ih (by omega), Nat.add_assoc, Nat.add_comm 1 k]

/-- The place of a byte in an integer. -/
def Order.place (n k : ℕ) : Order → ℕ
  | .little => k
  | .big => n - 1 - k

theorem write_get {m : Mem} {o : Order} {a n v i : ℕ} {f : ℕ → UInt8}
    (h : ∀ k < n, UInt8.ofNat (v / 256 ^ k) = f (o.place n k)) :
    o.write m a n v i = if a ≤ i ∧ i < a + n then f (i - a) else m i := by
  by_cases hi : a ≤ i ∧ i < a + n
  · rw [if_pos hi]
    cases o with
    | little =>
      simp only [Order.write]
      unfold writeLE
      rw [if_pos hi, h _ (by omega)]
      rfl
    | big =>
      simp only [Order.write]
      unfold reflect writeLE
      rw [if_pos hi, if_pos (by omega), Nat.add_sub_cancel_left, h _ (by omega)]
      refine congrArg f ?_
      show n - 1 - (a + n - 1 - i) = i - a
      omega
  · rw [if_neg hi]
    cases o with
    | little => exact writeLE_out (by omega)
    | big =>
      simp only [Order.write]
      unfold reflect
      rw [if_neg hi]
      exact writeLE_out (by omega)

/-- **An integer moves as its bytes.** -/
theorem write_read {m m' : Mem} {o : Order} {dst src n i : ℕ} :
    o.write m dst n (o.read m' src n) i = if dst ≤ i ∧ i < dst + n then m' (src + (i - dst)) else m i := by
  refine write_get (f := fun k => m' (src + k)) fun k hk => ?_
  cases o with
  | little => exact byte_readLE hk
  | big =>
    simp only [Order.read]
    rw [byte_readLE hk]
    unfold reflect
    rw [if_pos (by omega)]
    refine congrArg m' ?_
    show src + (src + n - 1 - (src + k)) = src + (n - 1 - k)
    omega

/-- An integer of equal bytes. -/
theorem write_fill {m : Mem} {o : Order} {a n v : ℕ} {b : UInt8} (h : ∀ k < n, UInt8.ofNat (v / 256 ^ k) = b) :
    o.write m a n v = fill m a n b :=
  funext fun _ => write_get (f := fun _ => b) h

end Bytes
