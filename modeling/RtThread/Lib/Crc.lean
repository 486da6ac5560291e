import Mathlib.Data.BitVec

/-!
# Cyclic redundancy checks

A reflected CRC of `w` bits takes in each message bit at the low end, and shifts the state down with the
polynomial `poly`; the other kind takes it in at the high end, and shifts the state up. Shifting is linear, so that eight
shifts at once are one table look-up.

* `shift_xor`, `shifts_xor`: the shift is linear.
* `byte_eq`: **a byte by table**: the entry of the low eight bits, and the rest moved down.
* `byte_self`: a state takes in its own low byte.
* `byteUp_eq`: the table look-up for the other kind.
-/

namespace Crc

variable {w : ℕ} (poly : BitVec w)

/-- One shift. -/
def shift (x : BitVec w) : BitVec w := if x.getLsbD 0 then x >>> 1 ^^^ poly else x >>> 1

/-- `n` shifts. -/
def shifts : ℕ → BitVec w → BitVec w
  | 0, x => x
  | n + 1, x => shifts n (shift poly x)

/-- The state behind one more byte. -/
def byte (x : BitVec w) (b : BitVec 8) : BitVec w := shifts poly 8 (x ^^^ b.setWidth w)

/-- The state behind a message, from `x` on. -/
def run (x : BitVec w) (msg : List (BitVec 8)) : BitVec w := msg.foldl (byte poly) x

theorem shift_xor (x y : BitVec w) : shift poly (x ^^^ y) = shift poly x ^^^ shift poly y := by
  have hcancel : ∀ a b : BitVec w, a ^^^ poly ^^^ (b ^^^ poly) = a ^^^ b := by
    intro a b
    rw [BitVec.xor_comm b poly, BitVec.xor_assoc, ← BitVec.xor_assoc poly, BitVec.xor_self, BitVec.zero_xor]
  unfold shift
  rw [BitVec.getLsbD_xor, BitVec.ushiftRight_xor_distrib]
  cases x.getLsbD 0 <;> cases y.getLsbD 0
  · rfl
  · exact BitVec.xor_assoc _ _ _
  · exact (BitVec.xor_assoc _ _ _).trans ((congrArg _ (BitVec.xor_comm _ _)).trans (BitVec.xor_assoc _ _ _).symm)
  · exact (hcancel _ _).symm

theorem shifts_xor (n : ℕ) (x y : BitVec w) : shifts poly n (x ^^^ y) = shifts poly n x ^^^ shifts poly n y := by
  induction n generalizing x y with
  | zero => rfl
  | succ n ih =>
    rw [shifts, shift_xor]
    exact ih _ _

theorem shifts_zero (n : ℕ) : shifts poly n 0#w = 0#w := by
  induction n with
  | zero => rfl
  | succ n ih =>
    have hshift : shift poly 0#w = 0#w := by
      simp [shift]
    rw [shifts, hshift]
    exact ih

/-- A state whose low `n` bits are clear only moves down. -/
theorem shifts_high {n : ℕ} {x : BitVec w} (h : ∀ i < n, x.getLsbD i = false) : shifts poly n x = x >>> n := by
  induction n generalizing x with
  | zero => simp [shifts]
  | succ n ih =>
    have hshift : shift poly x = x >>> 1 := by
      rw [shift, h 0 (Nat.succ_pos n)]
      simp
    rw [shifts, hshift, ih, ← BitVec.shiftRight_add, Nat.add_comm]
    intro i hi
    rw [BitVec.getLsbD_ushiftRight, Nat.add_comm]
    exact h (i + 1) (Nat.succ_lt_succ hi)

/-- **A byte by table**: the entry of the low eight bits, and the rest moved down. -/
theorem byte_eq (x : BitVec w) (b : BitVec 8) :
    byte poly x b = shifts poly 8 ((x.setWidth 8 ^^^ b).setWidth w) ^^^ x >>> 8 := by
  set low := (x.setWidth 8).setWidth w with hlow
  have hhigh : ∀ i < 8, (x ^^^ low).getLsbD i = false := by
    intro i hi
    rw [BitVec.getLsbD_xor, hlow, BitVec.getLsbD_setWidth, BitVec.getLsbD_setWidth]
    by_cases hw : i < w
    · simp [hi, hw]
    · simp [BitVec.getLsbD_of_ge x i (Nat.not_lt.1 hw)]
  have hlow8 : low >>> 8 = 0#w := by
    apply BitVec.eq_of_getLsbD_eq
    intro i hi
    rw [BitVec.getLsbD_ushiftRight, hlow, BitVec.getLsbD_setWidth, BitVec.getLsbD_setWidth]
    simp
  have hsplit : x ^^^ b.setWidth w = (x.setWidth 8 ^^^ b).setWidth w ^^^ (x ^^^ low) := by
    rw [BitVec.setWidth_xor, ← hlow, BitVec.xor_comm low, BitVec.xor_comm x low, BitVec.xor_assoc,
      ← BitVec.xor_assoc low low, BitVec.xor_self, BitVec.zero_xor, BitVec.xor_comm]
  rw [byte, hsplit, shifts_xor, shifts_high poly hhigh, BitVec.ushiftRight_xor_distrib, hlow8, BitVec.xor_zero]

/-- A state takes in its own low byte. -/
theorem byte_self (x : BitVec w) : byte poly x (x.setWidth 8) = x >>> 8 := by
  rw [byte_eq, BitVec.xor_self, BitVec.setWidth_zero, shifts_zero, BitVec.zero_xor]

/-! ## The high bit first -/

/-- One shift up. -/
def shiftUp (x : BitVec w) : BitVec w := if x.msb then x <<< 1 ^^^ poly else x <<< 1

def shiftsUp : ℕ → BitVec w → BitVec w
  | 0, x => x
  | n + 1, x => shiftsUp n (shiftUp poly x)

def byteUp (x : BitVec w) (b : BitVec 8) : BitVec w := shiftsUp poly 8 (x ^^^ b.setWidth w <<< (w - 8))

def runUp (x : BitVec w) (msg : List (BitVec 8)) : BitVec w := msg.foldl (byteUp poly) x

theorem shiftUp_xor (x y : BitVec w) : shiftUp poly (x ^^^ y) = shiftUp poly x ^^^ shiftUp poly y := by
  have hcancel : ∀ a b : BitVec w, a ^^^ poly ^^^ (b ^^^ poly) = a ^^^ b := by
    intro a b
    rw [BitVec.xor_comm b poly, BitVec.xor_assoc, ← BitVec.xor_assoc poly, BitVec.xor_self, BitVec.zero_xor]
  unfold shiftUp
  rw [BitVec.msb_xor, BitVec.shiftLeft_xor_distrib]
  cases x.msb <;> cases y.msb
  · rfl
  · exact BitVec.xor_assoc _ _ _
  · exact (BitVec.xor_assoc _ _ _).trans ((congrArg _ (BitVec.xor_comm _ _)).trans (BitVec.xor_assoc _ _ _).symm)
  · exact (hcancel _ _).symm

theorem shiftsUp_xor (n : ℕ) (x y : BitVec w) :
    shiftsUp poly n (x ^^^ y) = shiftsUp poly n x ^^^ shiftsUp poly n y := by
  induction n generalizing x y with
  | zero => rfl
  | succ n ih =>
    rw [shiftsUp, shiftUp_xor]
    exact ih _ _

/-- A state whose high `n` bits are clear only moves up. -/
theorem shiftsUp_low {n : ℕ} {x : BitVec w} (h : ∀ i < n, x.getMsbD i = false) : shiftsUp poly n x = x <<< n := by
  induction n generalizing x with
  | zero => simp [shiftsUp]
  | succ n ih =>
    have hshift : shiftUp poly x = x <<< 1 := by
      rw [shiftUp, BitVec.msb, h 0 (Nat.succ_pos n)]
      simp
    rw [shiftsUp, hshift, ih, ← BitVec.shiftLeft_add, Nat.add_comm]
    intro i hi
    rw [BitVec.getMsbD_shiftLeft]
    exact h (i + 1) (Nat.succ_lt_succ hi)

/-- **A byte by table**: the entry of the high eight bits, and the rest moved up. -/
theorem byteUp_eq (hw : 8 ≤ w) (x : BitVec w) (b : BitVec 8) :
    byteUp poly x b =
      shiftsUp poly 8 ((((x >>> (w - 8)).setWidth 8 ^^^ b).setWidth w) <<< (w - 8)) ^^^ x <<< 8 := by
  set high := ((x >>> (w - 8)).setWidth 8).setWidth w <<< (w - 8) with hhigh
  have hget : ∀ i, high.getLsbD i = (decide (w - 8 ≤ i) && x.getLsbD i) := by
    intro i
    rw [hhigh, BitVec.getLsbD_shiftLeft, BitVec.getLsbD_setWidth, BitVec.getLsbD_setWidth, BitVec.getLsbD_ushiftRight]
    by_cases hi : w - 8 ≤ i
    · by_cases hiw : i < w
      · have hsum : w - 8 + (i - (w - 8)) = i := by omega
        simp [hi, hiw, hsum, Nat.not_lt.2 hi, show i - (w - 8) < w by omega, show i - (w - 8) < 8 by omega]
      · simp [hiw, BitVec.getLsbD_of_ge x i (Nat.not_lt.1 hiw)]
    · simp [hi, Nat.not_le.1 hi]
  have hlow : ∀ i < 8, (x ^^^ high).getMsbD i = false := by
    intro i hi
    rw [BitVec.getMsbD_eq_getLsbD, BitVec.getLsbD_xor, hget]
    simp [show w - 8 ≤ w - 1 - i by omega]
  have hhigh8 : high <<< 8 = 0#w := by
    apply BitVec.eq_of_getLsbD_eq
    intro i hi
    rw [BitVec.getLsbD_shiftLeft, hget]
    simp only [hi, decide_true, Bool.true_and, BitVec.getLsbD_zero]
    by_cases h8 : i < 8
    · simp [h8]
    · simp [show ¬w - 8 ≤ i - 8 by omega]
  have hsplit : x ^^^ b.setWidth w <<< (w - 8) =
      (((x >>> (w - 8)).setWidth 8 ^^^ b).setWidth w) <<< (w - 8) ^^^ (x ^^^ high) := by
    rw [BitVec.setWidth_xor, BitVec.shiftLeft_xor_distrib, ← hhigh, BitVec.xor_comm high, BitVec.xor_comm x high,
      BitVec.xor_assoc, ← BitVec.xor_assoc high high, BitVec.xor_self, BitVec.zero_xor, BitVec.xor_comm]
  rw [byteUp, hsplit, shiftsUp_xor, shiftsUp_low poly hlow, BitVec.shiftLeft_xor_distrib, hhigh8, BitVec.xor_zero]

end Crc
