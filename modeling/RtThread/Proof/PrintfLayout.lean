import RtThread.Proof.PrintfParse
import Mathlib.Data.Nat.Digits.Lemmas

/-!
# The texts of a conversion, in parts

A `layout` is spaces, a sign, a mark, zeros, digits and spaces again.

* `layout_same`, `core_layout`: what equal layouts agree in.
* `numeral_octal`: octal and hexadecimal digits are the same below 8 only.
* `Directive.output_layout`, `Directive.output_long`: the text of the code, and that it is too long where the size
  passes the least `int`.
* `Directive.text_layout`: the text that C prescribes.
-/

namespace RtThread.Kservice

/-! ## Texts made of parts -/

/-- Spaces, a sign, a mark, zeros, digits and spaces. -/
def layout (a : ℕ) (sign mark : List Char) (z : ℕ) (ds : List Char) (e : ℕ) : List Char :=
  List.replicate a ' ' ++ (sign ++ (mark ++ (List.replicate z '0' ++ (ds ++ List.replicate e ' '))))

variable {a e z a' e' z' : ℕ} {sign mark mark' ds ds' : List Char}

theorem layout_count (c : Char) : (layout a sign mark z ds e).count c =
    (if ' ' = c then a + e else 0) + sign.count c + mark.count c + (if '0' = c then z else 0) + ds.count c := by
  unfold layout
  simp only [List.count_append, List.count_replicate, beq_iff_eq]
  split <;> split <;> omega

theorem layout_length : (layout a sign mark z ds e).length = a + sign.length + mark.length + z + ds.length + e := by
  unfold layout
  simp only [List.length_append, List.length_replicate]
  omega

/-- The digit of the value 0 is one more zero. -/
theorem layout_zero : layout a sign mark z ['0'] e = layout a sign mark (z + 1) [] e := by
  unfold layout
  rw [List.replicate_succ', List.append_assoc]
  rfl

/-- The characters before the first digit that counts. -/
def leading (c : Char) : Bool := c = ' ' || c = '+' || c = '-' || c = '0' || c = 'x' || c = 'X'

/-- The digits of a text, from the first that counts on. -/
def core (l : List Char) : List Char := (l.dropWhile leading).takeWhile (· ≠ ' ')

theorem core_layout (hsign : ∀ c ∈ sign, leading c) (hmark : ∀ c ∈ mark, leading c) (hhead : ∀ c ∈ ds.head?, ¬leading c)
    (hds : ∀ c ∈ ds, c ≠ ' ') : core (layout a sign mark z ds e) = ds := by
  have hrep : ∀ (n : ℕ) (c : Char), leading c → ∀ x ∈ List.replicate n c, leading x := by
    intro n c hc x hx
    rw [List.eq_of_mem_replicate hx]
    exact hc
  unfold core layout
  rw [List.dropWhile_append_of_pos (hrep a ' ' rfl), List.dropWhile_append_of_pos hsign,
    List.dropWhile_append_of_pos hmark, List.dropWhile_append_of_pos (hrep z '0' rfl)]
  cases ds with
  | nil =>
    have hdrop : (List.replicate e ' ' ++ []).dropWhile leading = _ :=
      List.dropWhile_append_of_pos (hrep e ' ' rfl)
    rw [List.append_nil] at hdrop
    rw [List.nil_append, hdrop]
    rfl
  | cons c l =>
    rw [List.cons_append, List.dropWhile_cons_of_neg (hhead c rfl), ← List.cons_append,
      List.takeWhile_append_of_pos (fun x hx => by simpa using hds x hx)]
    cases e <;> simp [List.replicate_succ]

/-- What two equal texts with the same digits agree in. -/
theorem layout_same (h : layout a sign mark z ds e = layout a' sign mark z' ds e') : a + e = a' + e' ∧ z = z' := by
  have hspace := congrArg (List.count ' ') h
  have hzero := congrArg (List.count '0') h
  have hne : ¬ ' ' = '0' := by decide
  have hne' : ¬ '0' = ' ' := by decide
  simp only [layout_count, if_true, hne, hne', if_false] at hspace hzero
  omega

/-! ## Numerals -/

theorem digit_leading (large : Bool) {k : ℕ} (hk : k < 16) (h0 : k ≠ 0) : ¬leading (digit large k) := by
  revert large
  interval_cases k
  all_goals first
    | exact absurd rfl h0
    | decide

theorem digit_space (large : Bool) {k : ℕ} (hk : k < 16) : digit large k ≠ ' ' := by
  revert large
  interval_cases k
  all_goals decide

theorem numeral_nil {base : ℕ} {large : Bool} {n : ℕ} : numeral base large n = [] ↔ n = 0 := by
  unfold numeral
  rw [List.reverse_eq_nil_iff, List.map_eq_nil_iff, Nat.digits_eq_nil_iff_eq_zero]

theorem numeral_length (base : ℕ) (large : Bool) (n : ℕ) : (numeral base large n).length = (Nat.digits base n).length := by
  unfold numeral
  rw [List.length_reverse, List.length_map]

theorem numeral_head {base : ℕ} (large : Bool) (n : ℕ) (hb : 1 < base) (hb' : base ≤ 16) :
    ∀ c ∈ (numeral base large n).head?, ¬leading c := by
  intro c hc
  unfold numeral at hc
  rw [List.head?_reverse, List.getLast?_map, Option.mem_def, Option.map_eq_some_iff] at hc
  obtain ⟨k, hk, rfl⟩ := hc
  have hmem := List.mem_of_getLast? hk
  refine digit_leading large (Nat.lt_of_lt_of_le (Nat.digits_lt_base hb hmem) hb') ?_
  have hn : n ≠ 0 := by
    rintro rfl
    rw [Nat.digits_zero] at hk
    cases hk
  have hlast := Nat.getLast_digit_ne_zero base hn
  rw [List.getLast?_eq_some_getLast (Nat.digits_ne_nil_iff_ne_zero.2 hn)] at hk
  rw [Option.some.inj hk] at hlast
  exact hlast

theorem numeral_space {base : ℕ} (large : Bool) (n : ℕ) (hb : 1 < base) (hb' : base ≤ 16) :
    ∀ c ∈ numeral base large n, c ≠ ' ' := by
  intro c hc
  unfold numeral at hc
  rw [List.mem_reverse, List.mem_map] at hc
  obtain ⟨k, hk, rfl⟩ := hc
  exact digit_space large (Nat.lt_of_lt_of_le (Nat.digits_lt_base hb hk) hb')

/-- The number of a digit. -/
def undigit (c : Char) : ℕ := if c.toNat < 'A'.toNat then c.toNat - '0'.toNat
  else if c.toNat < 'a'.toNat then c.toNat - 'A'.toNat + 10 else c.toNat - 'a'.toNat + 10

theorem undigit_digit (large : Bool) {k : ℕ} (hk : k < 16) : undigit (digit large k) = k := by
  revert large
  interval_cases k
  all_goals decide

theorem map_undigit {base : ℕ} (large : Bool) (n : ℕ) (hb : 1 < base) (hb' : base ≤ 16) :
    (numeral base large n).map undigit = (Nat.digits base n).reverse := by
  unfold numeral
  rw [List.map_reverse, List.map_map, List.map_congr_left (g := id), List.map_id]
  intro k hk
  exact undigit_digit large (Nat.lt_of_lt_of_le (Nat.digits_lt_base hb hk) hb')

/-- Octal and hexadecimal digits are the same for the numbers below 8 only. -/
theorem numeral_octal {large : Bool} {n : ℕ} : numeral 16 large n = numeral 8 large n ↔ n < 8 := by
  constructor
  · intro h
    have hdigits : Nat.digits 16 n = Nat.digits 8 n := by
      have hmap := congrArg (List.map undigit) h
      rw [map_undigit large n (by decide) (by decide), map_undigit large n (by decide) (by decide)] at hmap
      exact List.reverse_injective hmap
    by_cases hn : n = 0
    · omega
    have hpos : 0 < n := by omega
    rw [Nat.digits_def' (show 1 < 16 by decide) hpos, Nat.digits_def' (show 1 < 8 by decide) hpos] at hdigits
    obtain ⟨hfirst, hrest⟩ := List.cons.inj hdigits
    -- the same digits denote more in base 16
    have hle := Nat.ofDigits_monotone (Nat.digits 8 (n / 8)) (show 8 ≤ 16 by decide)
    rw [Nat.ofDigits_digits, ← hrest, Nat.ofDigits_digits] at hle
    omega
  · intro h
    revert large
    interval_cases n
    all_goals
      unfold numeral
      simp

/-! ## What `print_number` prints for a conversion -/

namespace Directive

variable (d : Directive) (v : BitVec 32)

/-- The number that `print_number` gets. -/
def num : BitVec 32 := numOf (d.qualifier.map Qualifier.char) d.typeFlags v

theorem value_eq : d.value v = if d.conv.signed then (d.num v).toInt else ((d.num v).toNat : ℤ) := by
  have hsigned : d.typeFlags.sign = d.conv.signed := rfl
  unfold value num numOf
  rw [hsigned]
  rcases d.qualifier with _ | q
  · rfl
  · cases q
    · have hchar : Option.map Qualifier.char (some .h) = some 'h' := rfl
      simp only [hchar, if_true]
      cases d.conv.signed
      · exact congrArg Nat.cast (BitVec.toNat_setWidth_of_le (by decide)).symm
      · exact (BitVec.toInt_signExtend_of_le (by decide)).symm
    · rfl

theorem magnitude_eq :
    (if d.typeFlags.sign ∧ (d.num v).toInt < 0 then -d.num v else d.num v).toNat = d.magnitude v := by
  have hsigned : d.typeFlags.sign = d.conv.signed := rfl
  have hlt := (d.num v).isLt
  unfold magnitude
  rw [value_eq, hsigned]
  by_cases hs : d.conv.signed = true
  · rw [if_pos hs]
    have hcond := BitVec.toInt_eq_toNat_cond (d.num v)
    by_cases hneg : (d.num v).toInt < 0
    · rw [if_pos ⟨hs, hneg⟩, BitVec.toNat_neg]
      split at hcond <;> omega
    · rw [if_neg fun h => hneg h.2]
      split at hcond <;> omega
  · rw [if_neg fun h => hs h.1, if_neg hs]
    rfl

theorem magnitude_lt : d.magnitude v < 2 ^ 32 := by
  rw [← magnitude_eq]
  exact BitVec.isLt _

theorem signOf_eq : (signOf d.typeFlags (d.num v)).toList = d.sign v := by
  have hsigned : d.typeFlags.sign = d.conv.signed := rfl
  have hplus : d.typeFlags.plus = d.flags.contains .plus := rfl
  have hspace : d.typeFlags.space = d.flags.contains .space := rfl
  unfold signOf sign
  rw [hsigned, hplus, hspace, value_eq]
  by_cases hs : d.conv.signed = true
  · simp only [if_pos hs, List.contains_iff_mem]
    split_ifs <;> rfl
  · simp only [if_neg hs]
    rfl

theorem sign_length : (d.sign v).length = (signOf d.typeFlags (d.num v)).isSome.toNat := by
  rw [← signOf_eq]
  cases signOf d.typeFlags (d.num v) <;> rfl

/-- The digits of the value. -/
def shown : List Char :=
  if d.magnitude v = 0 then ['0'] else numeral (if d.conv.base = 10 then 10 else 16) (d.conv = .upperX) (d.magnitude v)

theorem tmp_eq : (tmpDigits d.typeFlags.large d.conv.base
    (if d.typeFlags.sign ∧ (d.num v).toInt < 0 then -d.num v else d.num v)).reverse = d.shown v := by
  have hzero : (if d.typeFlags.sign ∧ (d.num v).toInt < 0 then -d.num v else d.num v) = 0 ↔ d.magnitude v = 0 := by
    rw [← magnitude_eq, ← BitVec.toNat_inj]
    rfl
  unfold tmpDigits shown
  by_cases h : d.magnitude v = 0
  · rw [if_pos (hzero.2 h), if_pos h]
    rfl
  · rw [if_neg fun h' => h (hzero.1 h'), if_neg h, magnitude_eq]
    rfl

theorem shown_pos : 0 < (d.shown v).length := by
  unfold shown
  split
  · exact Nat.one_pos
  · rename_i h
    exact List.length_pos_of_ne_nil fun hnil => h (numeral_nil.1 hnil)

theorem shown_le : (d.shown v).length ≤ 10 := by
  have hlt := d.magnitude_lt v
  unfold shown
  split
  · exact Nat.succ_pos 9
  · rw [numeral_length]
    split
    · exact (Nat.digits_length_le_iff (by decide) _).2 (by omega)
    · exact (Nat.digits_length_le_iff (by decide) _).2 (by omega)

variable {d} in
theorem given_small {p : ℕ} (hp : d.given = some p) : p < 2 ^ 31 := by
  unfold given at hp
  rw [Option.map_eq_some_iff] at hp
  obtain ⟨f, hf, rfl⟩ := hp
  have hsmall := d.precision_small f hf
  cases f with
  | digits ds => exact hsmall
  | star p =>
    have hrange := toInt_range p
    show p.toInt.toNat < _
    omega

/-- How many digits the code prints at least. -/
def least : ℕ := max (d.shown v).length (d.given.getD 0)

theorem least_lt : d.least v < 2 ^ 31 := by
  have hle := d.shown_le v
  unfold least
  cases hg : d.given with
  | none =>
    rw [Option.getD_none]
    omega
  | some p =>
    have hp := given_small hg
    rw [Option.getD_some]
    omega

theorem codePrecision_toInt : d.codePrecision.toInt = d.given.elim (-1) Nat.cast := by
  unfold codePrecision
  rw [BitVec.toInt_ofInt]
  cases hg : d.given with
  | none => rfl
  | some p =>
    have hp := given_small hg
    exact Int.bmod_eq_of_le (by simp only [Option.elim_some]; omega) (by simp only [Option.elim_some]; omega)

theorem least_eq : (if ((d.shown v).length : ℤ) > d.codePrecision.toInt then BitVec.ofNat 32 (d.shown v).length
    else d.codePrecision) = BitVec.ofNat 32 (d.least v) := by
  rw [codePrecision_toInt]
  unfold least codePrecision
  cases hg : d.given with
  | none =>
    rw [Option.elim_none, Option.getD_none, Nat.max_zero, if_pos (by omega)]
  | some p =>
    rw [Option.elim_some, Option.getD_some, BitVec.ofInt_natCast]
    split
    · rw [Nat.max_eq_left (by omega)]
    · rw [Nat.max_eq_right (by omega)]

theorem codePrecision_zero : d.codePrecision = 0 ↔ d.given = some 0 := by
  constructor
  · intro h
    have hint := d.codePrecision_toInt
    rw [h] at hint
    cases hg : d.given with
    | none =>
      rw [hg] at hint
      exact absurd hint (by decide)
    | some p =>
      rw [hg] at hint
      have hp : (p : ℤ) = 0 := hint.symm
      rw [Int.natCast_eq_zero.1 hp]
  · intro h
    unfold codePrecision
    rw [h]
    rfl

theorem ofInt_sub (x y : ℤ) : BitVec.ofInt 32 (x - y) = BitVec.ofInt 32 x - BitVec.ofInt 32 y := by
  rw [Int.sub_eq_add_neg, BitVec.ofInt_add, BitVec.ofInt_neg, BitVec.sub_eq_add_neg]

/-- The size, before the sign is taken off. -/
theorem size_eq : (if d.typeFlags.special then
      (if d.conv.base = 16 then d.codeWidth - 2 else if d.conv.base = 8 then d.codeWidth - 1 else d.codeWidth)
      else d.codeWidth) - BitVec.ofNat 32 (d.least v) =
    BitVec.ofInt 32 (d.start - 1 - d.special - d.least v) := by
  have hspecial : (if d.typeFlags.special then
      (if d.conv.base = 16 then d.codeWidth - 2 else if d.conv.base = 8 then d.codeWidth - 1 else d.codeWidth)
      else d.codeWidth) = d.codeWidth - BitVec.ofNat 32 d.special := by
    have hflag : d.typeFlags.special = d.flags.contains .hash := rfl
    unfold special
    simp only [hflag, List.contains_iff_mem]
    split
    · cases d.conv
      all_goals simp [IntConv.base]
    · simp
  rw [hspecial]
  unfold codeWidth
  rw [← BitVec.ofInt_natCast, ← BitVec.ofInt_natCast, ofInt_sub ((d.start : ℤ) - 1 - d.special),
    ofInt_sub ((d.start : ℤ) - 1)]

/-- The zero that the code puts before an octal number for `#`. -/
def octalMark : ℕ := if Flag.hash ∈ d.flags ∧ d.conv = .o then 1 else 0

/-- What the code puts before a hexadecimal number for `#`, also before 0. -/
def hexMark : List Char :=
  if Flag.hash ∈ d.flags then
    match d.conv with
    | .x => ['0', 'x']
    | .upperX => ['0', 'X']
    | _ => []
  else []

theorem special_eq : d.special = d.octalMark + d.hexMark.length := by
  unfold special octalMark hexMark
  cases d.conv <;> split <;> simp [*]

/-- The code pads with spaces on the left. -/
def padsLeft : Bool := !((d.flags.contains .zero && !d.left) || d.left)

/-- How often the loops of the code that fill run. -/
def fillsOf : ℕ × ℕ × ℕ :=
  fills d.padsLeft d.left (signOf d.typeFlags (d.num v)).isSome (BitVec.ofInt 32 (d.start - 1 - d.special - d.least v))

/-- The digits that the code prints. -/
def printed : List Char := if d.given = some 0 then [] else d.shown v

theorem output_pieces : output true d.format (d.args v) = some
    (List.replicate (d.fillsOf v).1 ' ' ++ (d.sign v ++ (d.hexMark ++
      (List.replicate d.octalMark '0' ++ (List.replicate (d.fillsOf v).2.1 (if d.flags.contains .zero && !d.left then '0' else ' ') ++
        (List.replicate (d.least v - (d.shown v).length) '0' ++
          (d.printed v ++ List.replicate (d.fillsOf v).2.2 ' '))))))) := by
  have htext := printNumber_text (d.num v) d.conv.base d.codeWidth d.codePrecision d.typeFlags
  have hlen : (tmpDigits d.typeFlags.large d.conv.base
      (if d.typeFlags.sign ∧ (d.num v).toInt < 0 then -d.num v else d.num v)).length = (d.shown v).length := by
    rw [← tmp_eq, List.length_reverse]
  have hleast : (BitVec.ofNat 32 (d.least v)).toInt = d.least v := by
    have hlt := d.least_lt v
    rw [BitVec.toInt_ofNat', Int.bmod_eq_of_le (by omega) (by omega)]
  simp only [hlen, least_eq, size_eq, hleast, signOf_eq, tmp_eq, codePrecision_zero] at htext
  rw [output_eq]
  have hmarks : (if d.typeFlags.special ∧ d.conv.base = 8 then ['0'] else []) ++
      (if d.typeFlags.special ∧ d.conv.base = 16 then ['0'] ++ [if d.typeFlags.large then 'X' else 'x'] else []) =
        d.hexMark ++ List.replicate d.octalMark '0' := by
    have hflag : d.typeFlags.special = d.flags.contains .hash := rfl
    have hlarge : d.typeFlags.large = decide (d.conv = .upperX) := rfl
    unfold hexMark octalMark
    simp only [hflag, hlarge, List.contains_iff_mem]
    by_cases hash : Flag.hash ∈ d.flags
    · simp only [hash, true_and, if_true]
      cases d.conv <;> rfl
    · simp only [hash, false_and, if_false]
      rfl
  have hnat : ((d.least v : ℤ) - (d.shown v).length).toNat = d.least v - (d.shown v).length := by
    omega
  refine congrArg some (htext.trans ?_)
  rw [hnat]
  simp only [List.append_assoc] at hmarks ⊢
  rw [← List.append_assoc (if d.typeFlags.special ∧ d.conv.base = 8 then ['0'] else []), hmarks, List.append_assoc]
  rfl

/-! ## Both texts in parts -/

/-- The size does not pass the least `int`. -/
def Fits : Prop := ∀ p, d.given = some p → p + d.special + (d.sign v).length + d.steps + 1 ≤ 2 ^ 31 + d.start

theorem sign_le : (d.sign v).length ≤ 1 := by
  rw [sign_length]
  exact Bool.toNat_le _

theorem special_le : d.special ≤ 2 := by
  unfold special
  split
  · cases d.conv <;> decide
  · exact Nat.zero_le _

theorem steps_eq : (d.steps : ℤ) = if d.left then 0 else if d.padsLeft then 2 else 1 := by
  unfold steps padsLeft
  simp only [← List.contains_iff_mem]
  cases d.left <;> cases d.flags.contains .zero <;> rfl

theorem padsLeft_left (h : d.padsLeft = true) : d.left = false := by
  unfold padsLeft at h
  cases hleft : d.left
  · rfl
  · rw [hleft] at h
    simp at h

/-- The size starts at the width, or at -1 where there is none. -/
theorem start_cases : d.start = d.minWidth + 1 ∨ d.start = 0 ∧ d.minWidth = 0 := by
  unfold start
  cases hw : d.width with
  | none =>
    refine .inr ⟨rfl, ?_⟩
    unfold minWidth
    rw [hw]
  | some f => exact .inl rfl

theorem minWidth_le : d.minWidth ≤ 2 ^ 31 := by
  unfold minWidth
  rcases hw : d.width with _ | ds | w
  · exact Nat.zero_le _
  · exact Nat.le_of_lt (d.width_small _ hw)
  · have hrange := toInt_range w
    show w.toInt.natAbs ≤ _
    omega

/-- The padding of the code. -/
def pad : ℕ := d.minWidth - (d.special + d.least v + (d.sign v).length)

theorem fillsOf_eq (h : d.Fits v) : d.fillsOf v =
    (if d.padsLeft then d.pad v else 0, if d.padsLeft || d.left then 0 else d.pad v, if d.left then d.pad v else 0) := by
  have hspecial := d.special_le
  have hsign := d.sign_le v
  have hshown := d.shown_le v
  have hpos := d.shown_pos v
  have hwidth := d.minWidth_le
  have hstart := d.start_cases
  have hsteps : d.steps ≤ 2 := by
    unfold steps
    split_ifs <;> omega
  have hleast : (d.least v : ℤ) + d.special + (d.sign v).length + d.steps + 1 ≤ 2 ^ 31 + d.start := by
    unfold least
    cases hg : d.given with
    | none =>
      rw [Option.getD_none]
      omega
    | some p =>
      have hp := h p hg
      rw [Option.getD_some]
      omega
  have hlow : (d.shown v).length ≤ d.least v := Nat.le_max_left _ _
  have hsize : (BitVec.ofInt 32 (d.start - 1 - d.special - d.least v)).toInt = d.start - 1 - d.special - d.least v := by
    rw [BitVec.toInt_ofInt, Int.bmod_eq_of_le (by omega) (by omega)]
  have hpad : ((d.start : ℤ) - 1 - d.special - d.least v - (d.sign v).length).toNat = d.pad v := by
    unfold pad
    omega
  unfold fillsOf
  rw [fills_eq d.padsLeft_left, hsize, ← sign_length, hpad]
  rw [hsize, ← sign_length, ← steps_eq]
  omega

/-- **The text of the code** where the size does not pass the least `int`. -/
theorem output_layout (h : d.Fits v) : output true d.format (d.args v) = some
    (layout (if d.padsLeft then d.pad v else 0) (d.sign v) d.hexMark
      (d.octalMark + (if d.padsLeft || d.left then 0 else d.pad v) + (d.least v - (d.shown v).length)) (d.printed v)
      (if d.left then d.pad v else 0)) := by
  have hfill : List.replicate (if d.padsLeft || d.left then 0 else d.pad v)
      (if d.flags.contains .zero && !d.left then '0' else ' ') =
        List.replicate (if d.padsLeft || d.left then 0 else d.pad v) '0' := by
    unfold padsLeft
    cases d.left <;> cases d.flags.contains .zero <;> rfl
  rw [output_pieces, fillsOf_eq d v h]
  simp only [hfill]
  unfold layout
  rw [← List.replicate_append_replicate, ← List.replicate_append_replicate]
  simp only [List.append_assoc]

/-- Where the size passes the least `int`, the text of the code is too long. -/
theorem output_long (h : ¬d.Fits v) : ∃ p l, d.given = some p ∧ 16 < p ∧ d.minWidth ≤ p ∧
    output true d.format (d.args v) = some l ∧ (d.sign v).length + d.special + p < l.length := by
  unfold Fits at h
  push Not at h
  obtain ⟨p, hp, hlt⟩ := h
  have hspecial := d.special_le
  have hsign := d.sign_le v
  have hshown := d.shown_le v
  have hsmall := given_small hp
  have hstart := d.start_cases
  have hsteps : d.steps ≤ 2 := by
    unfold steps
    split_ifs <;> omega
  have hleast : d.least v = p := by
    unfold least
    rw [hp, Option.getD_some]
    omega
  have hne : d.given ≠ some 0 := by
    rw [hp]
    intro h0
    have := Option.some.inj h0
    omega
  refine ⟨p, _, hp, by omega, by omega, d.output_pieces v, ?_⟩
  have hwrapped : 0 < (d.fillsOf v).1 + (d.fillsOf v).2.1 + (d.fillsOf v).2.2 := by
    unfold fillsOf
    refine fills_wrapped d.padsLeft_left rfl ?_ ?_
    · omega
    · rw [← sign_length, ← steps_eq]
      omega
  unfold printed
  rw [if_neg hne]
  simp only [List.length_append, List.length_replicate, special_eq]
  omega

/-- The zeros that make up the precision. -/
def fillUp : ℕ := d.minDigits.getD 1 - (numeral d.conv.base (d.conv = .upperX) (d.magnitude v)).length

/-- The zero that `#` adds to an octal number. -/
def octalZero : ℕ := if Flag.hash ∈ d.flags ∧ d.conv = .o ∧ d.fillUp v = 0 then 1 else 0

/-- The padding that C prescribes. -/
def padding : ℕ := d.minWidth - ((d.sign v).length + (d.mark v).length + d.octalZero v + d.fillUp v +
  (numeral d.conv.base (d.conv = .upperX) (d.magnitude v)).length)

theorem digits_eq : d.digits v = List.replicate (d.octalZero v + d.fillUp v) '0' ++
    numeral d.conv.base (d.conv = .upperX) (d.magnitude v) := by
  have hhead : (List.replicate (d.fillUp v) '0' ++ numeral d.conv.base (d.conv = .upperX) (d.magnitude v)).head? ≠
      some '0' ↔ d.fillUp v = 0 := by
    cases hfill : d.fillUp v with
    | zero =>
      refine iff_of_true (fun h => ?_) rfl
      have hbase : 1 < d.conv.base ∧ d.conv.base ≤ 16 := by
        cases d.conv <;> exact ⟨by decide, by decide⟩
      exact numeral_head _ _ hbase.1 hbase.2 '0' h rfl
    | succ n =>
      refine iff_of_false (fun h => h ?_) (Nat.succ_ne_zero n)
      rw [List.replicate_succ]
      rfl
  unfold digits octalZero
  dsimp only
  by_cases h : Flag.hash ∈ d.flags ∧ d.conv = .o ∧ d.fillUp v = 0
  · rw [if_pos ⟨h.1, h.2.1, hhead.2 h.2.2⟩, if_pos h, Nat.add_comm, List.replicate_succ]
    rfl
  · rw [if_neg fun h' => h ⟨h'.1, h'.2.1, hhead.1 h'.2.2⟩, if_neg h, Nat.zero_add]
    rfl

/-- **The text that C prescribes.** -/
theorem text_layout : d.text v =
    layout (if d.left ∨ Flag.zero ∈ d.flags ∧ d.minDigits = none then 0 else d.padding v) (d.sign v) (d.mark v)
      ((if ¬d.left ∧ Flag.zero ∈ d.flags ∧ d.minDigits = none then d.padding v else 0) + (d.octalZero v + d.fillUp v))
      (numeral d.conv.base (d.conv = .upperX) (d.magnitude v)) (if d.left then d.padding v else 0) := by
  have hpad : d.minWidth - (d.sign v ++ d.mark v ++ d.digits v).length = d.padding v := by
    unfold padding
    rw [digits_eq]
    simp only [List.length_append, List.length_replicate]
    omega
  unfold text layout
  simp only [hpad]
  rw [digits_eq]
  by_cases hleft : d.left = true
  · rw [if_pos hleft, if_pos (.inl hleft), if_neg fun h => h.1 hleft, if_pos hleft, Nat.zero_add]
    simp only [List.append_assoc, List.replicate_zero, List.nil_append]
  · by_cases hzero : Flag.zero ∈ d.flags ∧ d.minDigits = none
    · rw [if_neg hleft, if_pos hzero, if_pos (.inr hzero), if_pos ⟨hleft, hzero⟩, if_neg hleft,
        ← List.replicate_append_replicate (n := d.padding v)]
      simp only [List.append_assoc, List.replicate_zero, List.nil_append, List.append_nil]
    · rw [if_neg hleft, if_neg hzero, if_neg fun h => h.elim hleft hzero, if_neg fun h => hzero h.2, if_neg hleft,
        Nat.zero_add]
      simp only [List.append_assoc, List.replicate_zero, List.append_nil]

end Directive

end RtThread.Kservice
