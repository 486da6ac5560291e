import RtThread.Spec.MemPrimitives

/-!
# Memory primitives

* `setFour_fills`, `setOne_fills`, `setBytes_fills`: **each phase of `rt_memset`** sets a run of bytes and leaves the
  pointer behind it.
* `moveFour_copies`, `moveOne_copies`, `moveUp_copies`: the same for `rt_memcpy`, from the front on.
* `moveDown_copies`: `rt_memmove` from the back on.
* `primitives_bytewise`: **the primitives are the byte-wise ones**, for both sizes of `long`, both byte orders and
  all alignments.
-/

namespace RtThread.Kservice.Target

open Bytes

variable {t : Target} {m : Mem} {p dst src count : ℕ}

/-! ## Pointers -/

theorem ptr_of_lt (h : p < t.top) : t.ptr p = p := Nat.mod_eq_of_lt h

/-- `--p`. -/
theorem ptr_pred (h : p < t.top) : t.ptr (t.ptr (p + 1) + (t.top - 1)) = p := by
  have hpos : 1 ≤ t.top := Nat.one_le_two_pow
  unfold ptr
  rw [Nat.mod_add_mod, show p + 1 + (t.top - 1) = p + t.top by omega, Nat.add_mod_right, Nat.mod_eq_of_lt h]

theorem and_mask (p : ℕ) : p &&& (t.long - 1) = p % t.long := by
  rcases t.long_eq with h | h
  · rw [h]
    exact Nat.and_two_pow_sub_one_eq_mod p 2
  · rw [h]
    exact Nat.and_two_pow_sub_one_eq_mod p 3

theorem unaligned_iff : t.unaligned p = false ↔ t.long ∣ p := by
  unfold unaligned
  rw [and_mask, decide_eq_false_iff_not, not_not, Nat.dvd_iff_mod_eq_zero]

theorem unalignedPair_iff : t.unalignedPair src dst = false ↔ t.long ∣ src ∧ t.long ∣ dst := by
  unfold unalignedPair
  rw [and_mask, and_mask, decide_eq_false_iff_not, not_not, Nat.or_eq_zero_iff, Nat.dvd_iff_mod_eq_zero,
    Nat.dvd_iff_mod_eq_zero]

/-! ## The word of `rt_memset` -/

theorem shift_or {b d : ℕ} (hd : d < 256) : b <<< 8 ||| d = b * 256 + d := by
  rw [← Nat.shiftLeft_add_eq_or_of_lt (i := 8) hd, Nat.shiftLeft_eq]

/-- The low bytes of the word are the byte. -/
theorem repeatByte_byte {d i k : ℕ} (hd : d < 256) (hi : i ≤ t.long) (hk : k < i) :
    t.repeatByte d i / 256 ^ k % 256 = d := by
  induction i generalizing k with
  | zero => exact absurd hk (Nat.not_lt_zero k)
  | succ i ih =>
    have htop : t.top = 256 ^ k * (256 * 256 ^ (t.long - 1 - k)) := by
      unfold top
      rw [Nat.pow_mul, show (2 : ℕ) ^ 8 = 256 from rfl, ← Nat.pow_succ', ← Nat.pow_add]
      congr 1
      omega
    rw [repeatByte, shift_or hd, htop, Nat.mod_mul_right_div_self, Nat.mod_mul_right_mod]
    cases k with
    | zero =>
      rw [Nat.pow_zero, Nat.div_one]
      omega
    | succ k =>
      have hdiv : (t.repeatByte d i * 256 + d) / 256 = t.repeatByte d i := by omega
      rw [Nat.pow_succ', ← Nat.div_div_eq_div_mul, hdiv]
      exact ih (by omega) (by omega)

/-- **The word** has the byte in every place. -/
theorem buffer_byte {d k : ℕ} (hd : d < 256) (hk : k < t.long) :
    UInt8.ofNat (t.buffer d / 256 ^ k) = UInt8.ofNat d := by
  have hmod : t.buffer d / 256 ^ k % 256 = d := by
    unfold buffer
    by_cases h : t.long = 4
    · have hword : (d <<< 8 ||| d) ||| (d <<< 8 ||| d) <<< 16 = d * 16843009 := by
        rw [shift_or hd, Nat.or_comm, ← Nat.shiftLeft_add_eq_or_of_lt (i := 16) (by omega), Nat.shiftLeft_eq]
        omega
      rw [if_pos h]
      simp only [hword]
      rw [h] at hk
      have h₁ : d * 16843009 / 256 = d * 65793 := by omega
      have h₂ : d * 16843009 / 65536 = d * 257 := by omega
      have h₃ : d * 16843009 / 16777216 = d := by omega
      obtain rfl | rfl | rfl | rfl : k = 0 ∨ k = 1 ∨ k = 2 ∨ k = 3 := by omega
      all_goals
        simp only [Nat.reducePow, h₁, h₂, h₃]
        omega
    · rw [if_neg h]
      exact repeatByte_byte hd le_rfl hk
  apply UInt8.toNat_inj.1
  rw [UInt8.toNat_ofNat', UInt8.toNat_ofNat', hmod, Nat.mod_eq_of_lt hd]

/-! ## The phases of `rt_memset` -/

/-- The bytes. -/
theorem setBytes_ptr {d : UInt8} (h : p + count ≤ t.top) : t.setBytes d m (t.ptr p) count = fill m p count d := by
  induction count generalizing m p with
  | zero => exact fill_zero.symm
  | succ count ih =>
    rw [setBytes, ptr_of_lt (by omega), ih (by omega), put_eq_fill, fill_add, Nat.add_comm 1]

theorem setBytes_fills {d : UInt8} (h : p + count ≤ t.top) : t.setBytes d m p count = fill m p count d := by
  cases count with
  | zero => exact fill_zero.symm
  | succ count =>
    have hfill := setBytes_ptr (d := d) (m := m) h
    rwa [ptr_of_lt (by omega)] at hfill

section

variable {buffer : ℕ} {d : UInt8} (hbuffer : ∀ k < t.long, UInt8.ofNat (buffer / 256 ^ k) = d)

include hbuffer

theorem store_fills (hp : t.long ∣ p) (h : p + t.long ≤ t.top) :
    t.store buffer (m, t.ptr p) = some (fill m p t.long d, t.ptr (p + t.long)) := by
  have hlong := t.long_pos
  unfold store
  simp only [ptr_of_lt (t := t) (p := p) (by omega), Nat.mod_eq_zero_of_dvd hp, guard, if_true, write_fill hbuffer]
  rfl

/-- A word at a time. -/
theorem setOne_fills (hp : t.long ∣ p) (h : p + count ≤ t.top) : ∃ k ≤ count,
    t.setOne buffer (m, t.ptr p) count = some ((fill m p k d, t.ptr (p + k)), count - k) := by
  induction count using Nat.strong_induction_on generalizing m p with
  | _ count ih =>
    have hlong := t.long_pos
    rw [setOne]
    split
    · rename_i hle
      rw [store_fills hbuffer hp (by omega)]
      obtain ⟨k, hk, hset⟩ := @ih (count - t.long) (by omega) (fill m p t.long d) (p + t.long)
        (Nat.dvd_add hp (Nat.dvd_refl _)) (by omega)
      refine ⟨t.long + k, by omega, ?_⟩
      simp only [Option.bind_eq_bind, Option.bind_some, hset, fill_add, Nat.add_assoc, Nat.sub_sub]
    · exact ⟨0, Nat.zero_le _, by rw [fill_zero, Nat.add_zero, Nat.sub_zero]⟩

/-- Four words at a time. -/
theorem setFour_fills (hp : t.long ∣ p) (h : p + count ≤ t.top) : ∃ k ≤ count, t.long ∣ k ∧
    t.setFour buffer (m, t.ptr p) count = some ((fill m p k d, t.ptr (p + k)), count - k) := by
  induction count using Nat.strong_induction_on generalizing m p with
  | _ count ih =>
    have hlong := t.long_pos
    have hnext : ∀ {q}, t.long ∣ q → t.long ∣ q + t.long := fun hq => Nat.dvd_add hq (Nat.dvd_refl _)
    rw [setFour]
    split
    · rename_i hle
      rw [store_fills hbuffer hp (by omega)]
      simp only [Option.bind_eq_bind, Option.bind_some]
      rw [store_fills hbuffer (hnext hp) (by omega)]
      simp only [Option.bind_some]
      rw [store_fills hbuffer (hnext (hnext hp)) (by omega)]
      simp only [Option.bind_some]
      rw [store_fills hbuffer (hnext (hnext (hnext hp))) (by omega)]
      obtain ⟨k, hk, hdvd, hset⟩ := @ih (count - 4 * t.long) (by omega)
        (fill (fill (fill (fill m p t.long d) (p + t.long) t.long d) (p + t.long + t.long) t.long d)
          (p + t.long + t.long + t.long) t.long d) (p + t.long + t.long + t.long + t.long)
        (hnext (hnext (hnext (hnext hp)))) (by omega)
      refine ⟨4 * t.long + k, by omega, Nat.dvd_add (Nat.dvd_mul_left _ _) hdvd, ?_⟩
      simp only [Option.bind_some, hset, Nat.sub_sub]
      simp only [Nat.add_assoc, fill_add]
      rw [show t.long + (t.long + (t.long + (t.long + k))) = 4 * t.long + k by omega]
    · exact ⟨0, Nat.zero_le _, Nat.dvd_zero _, by rw [fill_zero, Nat.add_zero, Nat.sub_zero]⟩

end

theorem rtMemset_fills (c : BitVec 32) (h : p + count ≤ t.top) :
    t.rtMemset m p c count = some (fill m p count (UInt8.ofNat (c &&& 0xff).toNat)) := by
  have hbyte : UInt8.ofNat c.toNat = UInt8.ofNat (c &&& 0xff).toNat := by
    apply UInt8.toNat_inj.1
    have hmask : c.toNat &&& (0xff : BitVec 32).toNat = c.toNat % 2 ^ 8 := Nat.and_two_pow_sub_one_eq_mod c.toNat 8
    rw [UInt8.toNat_ofNat', UInt8.toNat_ofNat', BitVec.toNat_and, hmask, Nat.mod_mod]
  have hd : (c &&& 0xff).toNat < 256 := by
    rw [BitVec.toNat_and]
    exact lt_of_le_of_lt Nat.and_le_right (by decide)
  unfold rtMemset
  by_cases htiny : t.tiny = true
  · rw [if_pos htiny, setBytes_fills h, hbyte]
  rw [if_neg htiny]
  by_cases hwords : ¬count < t.long ∧ ¬t.unaligned p = true
  · have hlong := t.long_pos
    have hp : t.long ∣ p := unaligned_iff.1 (Bool.eq_false_of_not_eq_true hwords.2)
    obtain ⟨k, hk, hdvd, hfour⟩ := setFour_fills (m := m) (fun _ => buffer_byte (t := t) hd) hp h
    obtain ⟨j, hj, hone⟩ := setOne_fills (m := fill m p k (UInt8.ofNat (c &&& 0xff).toNat))
      (fun _ => buffer_byte (t := t) hd) (Nat.dvd_add hp hdvd) (show p + k + (count - k) ≤ t.top by omega)
    rw [ptr_of_lt (by omega)] at hfour
    simp only [if_pos hwords, hfour, hone, Option.bind_eq_bind, Option.bind_some]
    rw [setBytes_ptr (by omega), fill_add, fill_add, show k + (j + (count - k - j)) = count by omega]
    rfl
  · simp only [if_neg hwords]
    rw [setBytes_fills h]
    rfl

/-! ## The phases of `rt_memcpy` and `rt_memmove` -/

/-- Copying from the front on reads no byte that it has written. -/
def Up (dst src n : ℕ) : Prop := dst ≤ src ∨ src + n ≤ dst

theorem Up.rest {n k : ℕ} (h : Up dst src (n + k)) : Up (dst + n) (src + n) k := by
  unfold Up at *
  omega

theorem moveUp_ptr {n : ℕ} (h : Up dst src n) (hdst : dst + n ≤ t.top) (hsrc : src + n ≤ t.top) :
    t.moveUp m (t.ptr dst) (t.ptr src) n = copy m dst src n := by
  induction n generalizing m dst src with
  | zero => exact copy_zero.symm
  | succ n ih =>
    rw [Nat.add_comm] at h
    rw [moveUp, ptr_of_lt (p := dst) (by omega), ptr_of_lt (p := src) (by omega), ih h.rest (by omega) (by omega),
      put_eq_copy, copy_add h, Nat.add_comm 1]

theorem moveUp_copies {n : ℕ} (h : Up dst src n) (hdst : dst + n ≤ t.top) (hsrc : src + n ≤ t.top) :
    t.moveUp m dst src n = copy m dst src n := by
  cases n with
  | zero => exact copy_zero.symm
  | succ n =>
    have hcopy := moveUp_ptr (m := m) h hdst hsrc
    rwa [ptr_of_lt (by omega), ptr_of_lt (by omega)] at hcopy

theorem moveIndexed_copies {n : ℕ} (h : src ≤ dst ∨ dst + n ≤ src) (hdst : dst + n ≤ t.top)
    (hsrc : src + n ≤ t.top) : t.moveIndexed m dst src n = copy m dst src n := by
  induction n generalizing m with
  | zero => exact copy_zero.symm
  | succ n ih =>
    rw [moveIndexed, ptr_of_lt (p := dst + n) (by omega), ptr_of_lt (p := src + n) (by omega),
      ih (by omega) (by omega) (by omega), copy_last (by omega)]

theorem moveDown_copies {n : ℕ} (h : src ≤ dst) (hdst : dst + n ≤ t.top) (hsrc : src + n ≤ t.top) :
    t.moveDown m (t.ptr (dst + n)) (t.ptr (src + n)) n = copy m dst src n := by
  induction n generalizing m with
  | zero => exact copy_zero.symm
  | succ n ih =>
    have hrest := ih (m := put m (dst + n) (m (src + n))) (by omega) (by omega)
    rw [ptr_of_lt (p := dst + n) (by omega), ptr_of_lt (p := src + n) (by omega)] at hrest
    simp only [moveDown, ← Nat.add_assoc]
    rw [ptr_pred (by omega), ptr_pred (by omega), hrest, copy_last (.inl h)]

theorem move_copies (hdst : t.long ∣ dst) (hsrc : t.long ∣ src) (hd : dst + t.long ≤ t.top)
    (hs : src + t.long ≤ t.top) :
    t.move (m, t.ptr dst, t.ptr src) = some (copy m dst src t.long, t.ptr (dst + t.long), t.ptr (src + t.long)) := by
  have hlong := t.long_pos
  have hcopy : t.order.write m dst t.long (t.order.read m src t.long) = copy m dst src t.long :=
    funext fun _ => write_read
  unfold move
  simp only [ptr_of_lt (t := t) (p := dst) (by omega), ptr_of_lt (t := t) (p := src) (by omega),
    Nat.mod_eq_zero_of_dvd hdst, Nat.mod_eq_zero_of_dvd hsrc, guard, and_self, if_true, hcopy]
  rfl

/-- A word at a time. -/
theorem moveOne_copies (hdst : t.long ∣ dst) (hsrc : t.long ∣ src) (h : Up dst src count) (hd : dst + count ≤ t.top)
    (hs : src + count ≤ t.top) : ∃ k ≤ count, t.moveOne (m, t.ptr dst, t.ptr src) count =
      some ((copy m dst src k, t.ptr (dst + k), t.ptr (src + k)), count - k) := by
  induction count using Nat.strong_induction_on generalizing m dst src with
  | _ count ih =>
    have hlong := t.long_pos
    rw [moveOne]
    split
    · rename_i hle
      obtain ⟨rest, rfl⟩ := Nat.exists_eq_add_of_le hle
      rw [move_copies hdst hsrc (by omega) (by omega)]
      obtain ⟨k, hk, hmove⟩ := @ih rest (by omega) (copy m dst src t.long) (dst + t.long) (src + t.long) (Nat.dvd_add hdst (Nat.dvd_refl _))
        (Nat.dvd_add hsrc (Nat.dvd_refl _)) h.rest (by omega) (by omega)
      have hup : Up dst src (t.long + k) := by
        unfold Up at h ⊢
        omega
      refine ⟨t.long + k, by omega, ?_⟩
      simp only [Option.bind_eq_bind, Option.bind_some, Nat.add_sub_cancel_left, hmove, copy_add hup, Nat.add_assoc]
      rw [Nat.add_sub_add_left]
    · exact ⟨0, Nat.zero_le _, by rw [copy_zero, Nat.add_zero, Nat.add_zero, Nat.sub_zero]⟩

/-- Four words at a time. -/
theorem moveFour_copies (hdst : t.long ∣ dst) (hsrc : t.long ∣ src) (h : Up dst src count) (hd : dst + count ≤ t.top)
    (hs : src + count ≤ t.top) : ∃ k ≤ count, t.long ∣ k ∧ t.moveFour (m, t.ptr dst, t.ptr src) count =
      some ((copy m dst src k, t.ptr (dst + k), t.ptr (src + k)), count - k) := by
  induction count using Nat.strong_induction_on generalizing m dst src with
  | _ count ih =>
    have hlong := t.long_pos
    have hnext : ∀ {q}, t.long ∣ q → t.long ∣ q + t.long := fun hq => Nat.dvd_add hq (Nat.dvd_refl _)
    rw [moveFour, Nat.shiftLeft_eq]
    split
    · rename_i hle
      obtain ⟨rest, rfl⟩ := Nat.exists_eq_add_of_le hle
      rw [move_copies hdst hsrc (by omega) (by omega)]
      simp only [Option.bind_eq_bind, Option.bind_some]
      rw [move_copies (hnext hdst) (hnext hsrc) (by omega) (by omega)]
      simp only [Option.bind_some]
      rw [move_copies (hnext (hnext hdst)) (hnext (hnext hsrc)) (by omega) (by omega)]
      simp only [Option.bind_some]
      rw [move_copies (hnext (hnext (hnext hdst))) (hnext (hnext (hnext hsrc))) (by omega) (by omega)]
      have hup : ∀ k ≤ t.long * 2 ^ 2 + rest, Up dst src k := by
        unfold Up at h ⊢
        omega
      -- the four words are one run
      have hfour : copy (copy (copy (copy m dst src t.long) (dst + t.long) (src + t.long) t.long)
          (dst + t.long + t.long) (src + t.long + t.long) t.long) (dst + t.long + t.long + t.long)
          (src + t.long + t.long + t.long) t.long = copy m dst src (t.long * 2 ^ 2) := by
        rw [copy_add (hup _ (by omega)), Nat.add_assoc dst, Nat.add_assoc src, copy_add (hup _ (by omega)),
          Nat.add_assoc dst, Nat.add_assoc src, copy_add (hup _ (by omega))]
        congr 1
        omega
      have hd4 : dst + t.long + t.long + t.long + t.long = dst + t.long * 2 ^ 2 := by omega
      have hs4 : src + t.long + t.long + t.long + t.long = src + t.long * 2 ^ 2 := by omega
      have hdvd4 : t.long ∣ t.long * 2 ^ 2 := Nat.dvd_mul_right _ _
      rw [hfour, hd4, hs4]
      obtain ⟨k, hk, hdvd, hmove⟩ := @ih rest (by omega) (copy m dst src (t.long * 2 ^ 2)) (dst + t.long * 2 ^ 2)
        (src + t.long * 2 ^ 2) (Nat.dvd_add hdst hdvd4) (Nat.dvd_add hsrc hdvd4) h.rest (by omega) (by omega)
      refine ⟨t.long * 2 ^ 2 + k, by omega, Nat.dvd_add hdvd4 hdvd, ?_⟩
      simp only [Option.bind_some, Nat.add_sub_cancel_left, hmove, Nat.add_assoc]
      rw [copy_add (hup _ (by omega)), Nat.add_sub_add_left]
    · exact ⟨0, Nat.zero_le _, Nat.dvd_zero _, by rw [copy_zero, Nat.add_zero, Nat.add_zero, Nat.sub_zero]⟩

theorem rtMemcpy_copies (hcount : count < 2 ^ 31) (h : Disjoint dst src count) (hd : dst + count ≤ t.top)
    (hs : src + count ≤ t.top) : t.rtMemcpy m dst src count = some (copy m dst src count) := by
  have hup : ∀ k ≤ count, Up dst src k := by
    unfold Disjoint at h
    unfold Up
    omega
  unfold rtMemcpy
  by_cases htiny : t.tiny = true
  · rw [if_pos htiny]
    split
    · rw [moveUp_copies (hup _ le_rfl) hd hs]
    · rename_i hover
      rw [moveIndexed_copies (by omega) hd hs]
  rw [if_neg htiny, Nat.mod_eq_of_lt (by omega)]
  by_cases hwords : ¬count < t.long <<< 2 ∧ ¬t.unalignedPair src dst = true
  · have hlong := t.long_pos
    obtain ⟨hsrc, hdst⟩ := unalignedPair_iff.1 (Bool.eq_false_of_not_eq_true hwords.2)
    obtain ⟨k, hk, hdvd, hfour⟩ := moveFour_copies (m := m) hdst hsrc (hup _ le_rfl) hd hs
    have hbig : 0 < count := by
      have := hwords.1
      rw [Nat.shiftLeft_eq] at this
      omega
    rw [ptr_of_lt (by omega), ptr_of_lt (by omega)] at hfour
    have hrest : Up (dst + k) (src + k) (count - k) := Up.rest (hup _ (by omega))
    obtain ⟨j, hj, hone⟩ := moveOne_copies (m := copy m dst src k) (Nat.dvd_add hdst hdvd) (Nat.dvd_add hsrc hdvd)
      hrest (by omega) (by omega)
    simp only [if_pos hwords, hfour, hone, Option.bind_eq_bind, Option.bind_some]
    rw [copy_add (hup _ (by omega)), Nat.add_assoc, Nat.add_assoc, moveUp_ptr (Up.rest (hup _ (by omega))) (by omega) (by omega),
      copy_add (hup _ (by omega)), show k + j + (count - k - j) = count by omega]
    rfl
  · simp only [if_neg hwords]
    rw [moveUp_copies (hup _ le_rfl) hd hs]
    rfl

theorem rtMemmove_copies {n : ℕ} (hd : dst + n ≤ t.top) (hs : src + n ≤ t.top) :
    t.rtMemmove m dst src n = copy m dst src n := by
  unfold rtMemmove
  by_cases hdown : src < dst ∧ dst < t.ptr (src + n)
  · rw [if_pos hdown, moveDown_copies (by omega) hd hs]
  · rw [if_neg hdown]
    by_cases htop : src + n < t.top
    · rw [ptr_of_lt htop] at hdown
      exact moveUp_copies (by unfold Up; omega) hd hs
    · exact moveUp_copies (.inl (by omega)) hd hs

/-- **The primitives are the byte-wise ones**: `rt_memset` sets the bytes of the area, `rt_memcpy` copies between
areas that do not overlap, `rt_memmove` between any two, and no other byte changes. -/
theorem primitives_bytewise (t : Target) (m : Mem) (c : BitVec 32) {dst src count : ℕ} (hcount : count < 2 ^ 31)
    (hd : dst + count ≤ t.top) (hs : src + count ≤ t.top) :
    t.rtMemset m dst c count = some (fill m dst count (UInt8.ofNat (c &&& 0xff).toNat)) ∧
      (Disjoint dst src count → t.rtMemcpy m dst src count = some (copy m dst src count)) ∧
        t.rtMemmove m dst src count = copy m dst src count :=
  ⟨rtMemset_fills c hd, fun h => rtMemcpy_copies hcount h hd hs, rtMemmove_copies hd hs⟩

/-- A little-endian target of 32 bits. -/
def word32 : Target := ⟨4, .inl rfl, .little, false⟩

/-- A memory in which every address has its own low byte. -/
def counted : Mem := fun i => UInt8.ofNat i

/-- Nineteen bytes between two aligned addresses: a block of four words and three bytes. -/
theorem primitives_bytewise_words :
    word32.rtMemset counted 32 0x161 19 = some (fill counted 32 19 0x61) ∧
      word32.rtMemcpy counted 32 64 19 = some (copy counted 32 64 19) ∧
        word32.rtMemmove counted 32 40 19 = copy counted 32 40 19 := by
  obtain ⟨hset, hcpy, -⟩ := @primitives_bytewise word32 counted 0x161 32 64 19 (by decide) (by decide) (by decide)
  obtain ⟨-, -, hmove⟩ := @primitives_bytewise word32 counted 0x161 32 40 19 (by decide) (by decide) (by decide)
  exact ⟨hset, hcpy (by unfold Disjoint; decide), hmove⟩

end RtThread.Kservice.Target
