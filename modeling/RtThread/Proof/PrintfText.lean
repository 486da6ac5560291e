import RtThread.Proof.PrintfLayout

/-!
# Number formatting

* `Directive.zero_iff`, `Directive.pos_iff`: for the value 0 and for the others, which numbers decide whether the
  texts are the same.
* `Directive.output_text_iff`: **the code produces the text that C prescribes** exactly on the condition
  `Directive.Meets`.
-/

namespace RtThread.Kservice

/-! ## Where the texts are the same -/

namespace Directive

variable (d : Directive) (v : BitVec 32)

theorem mark_eq (hn : d.magnitude v ≠ 0) : d.mark v = d.hexMark := by
  unfold mark hexMark
  cases d.conv <;> simp only [hn, ne_eq, not_false_eq_true, and_true]

theorem mark_zero (hn : d.magnitude v = 0) : d.mark v = [] := by
  unfold mark
  rw [if_neg fun h => h.2 hn]

theorem hexMark_nil : d.hexMark = [] ↔ (Flag.hash ∈ d.flags → d.conv.base ≠ 16) := by
  unfold hexMark
  by_cases hash : Flag.hash ∈ d.flags
  · rw [if_pos hash]
    cases d.conv <;> simp [IntConv.base, hash]
  · rw [if_neg hash]
    exact iff_of_true rfl fun h => absurd h hash

theorem hexMark_cases : d.hexMark = [] ∨ d.hexMark = ['0', 'x'] ∨ d.hexMark = ['0', 'X'] := by
  unfold hexMark
  split
  · cases d.conv <;> simp
  · exact .inl rfl

/-- Spaces that the code writes, and zeros before the digits `printed`. -/
def spaces : ℕ := if d.left then d.pad v else if Flag.zero ∈ d.flags then 0 else d.pad v

def codeZeros : ℕ := d.octalMark + (if ¬d.left ∧ Flag.zero ∈ d.flags then d.pad v else 0) +
  (d.least v - (d.shown v).length)

/-- Spaces and zeros that C prescribes. -/
def textSpaces : ℕ :=
  if d.left then d.padding v else if Flag.zero ∈ d.flags ∧ d.minDigits = none then 0 else d.padding v

def textZeros : ℕ := (if ¬d.left ∧ Flag.zero ∈ d.flags ∧ d.minDigits = none then d.padding v else 0) +
  (d.octalZero v + d.fillUp v)

theorem output_spaces (h : d.Fits v) : output true d.format (d.args v) = some
    (layout (if d.left then 0 else d.spaces v) (d.sign v) d.hexMark (d.codeZeros v) (d.printed v)
      (if d.left then d.spaces v else 0)) := by
  rw [output_layout d v h]
  unfold spaces codeZeros padsLeft
  simp only [← List.contains_iff_mem]
  cases d.left <;> cases d.flags.contains .zero <;> simp

theorem text_spaces : d.text v = layout (if d.left then 0 else d.textSpaces v) (d.sign v) (d.mark v) (d.textZeros v)
    (numeral d.conv.base (d.conv = .upperX) (d.magnitude v)) (if d.left then d.textSpaces v else 0) := by
  rw [text_layout]
  unfold textSpaces textZeros
  cases d.left <;> simp

theorem sign_leading : ∀ c ∈ d.sign v, leading c := by
  unfold sign
  intro c hc
  split_ifs at hc
  all_goals
    simp only [List.mem_singleton, List.not_mem_nil] at hc
    try exact hc.elim
  all_goals
    rw [hc]
    rfl

theorem hexMark_leading : ∀ c ∈ d.hexMark, leading c := by
  unfold hexMark
  intro c hc
  split at hc
  · split at hc
    all_goals
      simp only [List.mem_cons, List.not_mem_nil, or_false] at hc
    · rcases hc with rfl | rfl <;> rfl
    · rcases hc with rfl | rfl <;> rfl
  · cases hc

theorem base_le : 1 < d.conv.base ∧ d.conv.base ≤ 16 := by
  cases d.conv <;> exact ⟨by decide, by decide⟩

/-- **The value 0** has no digits but zeros. -/
theorem zero_iff (h : d.Fits v) (hn : d.magnitude v = 0) : output true d.format (d.args v) = some (d.text v) ↔
    d.hexMark = [] ∧ d.spaces v = d.textSpaces v ∧
      d.codeZeros v + (if d.given = some 0 then 0 else 1) = d.textZeros v := by
  have hnum : numeral d.conv.base (d.conv = .upperX) (d.magnitude v) = [] := numeral_nil.2 hn
  have hshown : d.shown v = ['0'] := by
    unfold shown
    rw [if_pos hn]
  have hcode : output true d.format (d.args v) = some
      (layout (if d.left then 0 else d.spaces v) (d.sign v) d.hexMark
        (d.codeZeros v + if d.given = some 0 then 0 else 1) [] (if d.left then d.spaces v else 0)) := by
    rw [output_spaces d v h]
    unfold printed
    by_cases hg : d.given = some 0
    · rw [if_pos hg, if_pos hg]
      rfl
    · rw [if_neg hg, if_neg hg, hshown, layout_zero]
  rw [hcode, text_spaces, hnum, mark_zero d v hn, Option.some.injEq]
  constructor
  · intro heq
    have hmark : d.hexMark = [] := by
      have hcount : ∀ c : Char, ¬ ' ' = c → ¬ '0' = c → d.hexMark.count c = 0 := by
        intro c hspace hzero
        have hc := congrArg (List.count c) heq
        simp only [layout_count, hspace, hzero, if_false, List.count_nil] at hc
        omega
      have hx := hcount 'x' (by decide) (by decide)
      have hX := hcount 'X' (by decide) (by decide)
      rcases d.hexMark_cases with hnil | hlower | hupper
      · exact hnil
      · rw [hlower] at hx
        exact absurd hx (by decide)
      · rw [hupper] at hX
        exact absurd hX (by decide)
    rw [hmark] at heq
    have hsame := layout_same heq
    refine ⟨hmark, ?_, hsame.2⟩
    have hsum := hsame.1
    split at hsum <;> omega
  · rintro ⟨hmark, hspaces, hzeros⟩
    rw [hmark, hspaces, hzeros]

/-- **Another value** must have its digits printed. -/
theorem pos_iff (h : d.Fits v) (hn : d.magnitude v ≠ 0) : output true d.format (d.args v) = some (d.text v) ↔
    d.given ≠ some 0 ∧ (d.conv = .o → d.magnitude v < 8) ∧ d.spaces v = d.textSpaces v ∧
      d.codeZeros v = d.textZeros v := by
  have hshown : d.shown v = numeral (if d.conv.base = 10 then 10 else 16) (d.conv = .upperX) (d.magnitude v) := by
    unfold shown
    rw [if_neg hn]
  have hdigits : d.printed v = numeral d.conv.base (d.conv = .upperX) (d.magnitude v) ↔
      d.given ≠ some 0 ∧ (d.conv = .o → d.magnitude v < 8) := by
    unfold printed
    by_cases hg : d.given = some 0
    · rw [if_pos hg]
      exact iff_of_false (fun hnil => hn (numeral_nil.1 hnil.symm)) fun h => h.1 hg
    · rw [if_neg hg, hshown]
      cases hconv : d.conv
      all_goals first
        | exact iff_of_true rfl ⟨hg, nofun⟩
        | exact numeral_octal.trans ⟨fun hlt => ⟨hg, fun _ => hlt⟩, fun h => h.2 rfl⟩
  rw [output_spaces d v h, text_spaces, mark_eq d v hn, Option.some.injEq]
  constructor
  · intro heq
    have hcore : d.printed v = numeral d.conv.base (d.conv = .upperX) (d.magnitude v) := by
      have hbase := d.base_le
      have hcode : core (layout (if d.left then 0 else d.spaces v) (d.sign v) d.hexMark (d.codeZeros v) (d.printed v)
          (if d.left then d.spaces v else 0)) = d.printed v := by
        have hcode : 1 < (if d.conv.base = 10 then 10 else 16) ∧ (if d.conv.base = 10 then 10 else 16) ≤ 16 := by
          split <;> exact ⟨by decide, by decide⟩
        unfold printed
        by_cases hg : d.given = some 0
        · rw [if_pos hg]
          exact core_layout (d.sign_leading v) d.hexMark_leading (fun c hc => by cases hc) (fun c hc => by cases hc)
        · rw [if_neg hg, hshown]
          exact core_layout (d.sign_leading v) d.hexMark_leading (numeral_head _ _ hcode.1 hcode.2)
            (numeral_space _ _ hcode.1 hcode.2)
      rw [← hcode, heq]
      exact core_layout (d.sign_leading v) d.hexMark_leading (numeral_head _ _ hbase.1 hbase.2)
        (numeral_space _ _ hbase.1 hbase.2)
    rw [hcore] at heq
    have hsame := layout_same heq
    have hsum := hsame.1
    obtain ⟨hg, ho⟩ := hdigits.1 hcore
    refine ⟨hg, ho, ?_, hsame.2⟩
    split at hsum <;> omega
  · rintro ⟨hg, ho, hspaces, hzeros⟩
    rw [hdigits.2 ⟨hg, ho⟩, hspaces, hzeros]

/-! ## The condition -/

theorem given_none : d.given = none ↔ d.precision = none := by
  unfold given
  rw [Option.map_eq_none_iff]

theorem minDigits_of_none (h : d.given = none) : d.minDigits = none := by
  unfold minDigits
  rw [d.given_none.1 h]

/-- A precision above 0 is the same for the code and for C. -/
theorem minDigits_of_pos {p : ℕ} (h : d.given = some p) (hp : 0 < p) : d.minDigits = some p := by
  unfold given at h
  unfold minDigits
  rcases hprec : d.precision with _ | ds | q
  · rw [hprec] at h
    cases h
  · rw [hprec] at h
    exact h
  · rw [hprec] at h
    have hq : q.toInt.toNat = p := Option.some.inj h
    have hneg : ¬q.toInt < 0 := by omega
    simp only [hneg, if_false, hq]

theorem minDigits_of_zero (h : d.given = some 0) : d.minDigits = none ∨ d.minDigits = some 0 := by
  unfold given at h
  unfold minDigits
  rcases hprec : d.precision with _ | ds | q
  · exact .inl rfl
  · rw [hprec] at h
    exact .inr h
  · rw [hprec] at h
    have hq : q.toInt.toNat = 0 := Option.some.inj h
    by_cases hneg : q.toInt < 0
    · simp only [hneg, if_true, true_or]
    · simp only [hneg, if_false, hq, or_true]

/-- `#` and the base, as the marks. -/
theorem marks_cases : (d.octalMark = 1 ∧ d.hexMark = [] ∧ Flag.hash ∈ d.flags ∧ d.conv = .o) ∨
    (d.octalMark = 0 ∧ d.hexMark ≠ [] ∧ Flag.hash ∈ d.flags ∧ d.conv.base = 16) ∨
    (d.octalMark = 0 ∧ d.hexMark = [] ∧ (Flag.hash ∈ d.flags → d.conv.base = 10)) := by
  unfold octalMark hexMark
  by_cases hash : Flag.hash ∈ d.flags
  · cases d.conv <;> simp [hash, IntConv.base]
  · simp [hash]

theorem octalZero_eq : d.octalZero v = if d.fillUp v = 0 then d.octalMark else 0 := by
  unfold octalZero octalMark
  by_cases hash : Flag.hash ∈ d.flags
  · by_cases ho : d.conv = .o <;> simp [hash, ho]
  · simp [hash]

/-- The numbers of the code, with the flags that choose among them. -/
theorem spaces_eq : d.spaces v = (if d.zeros then 0 else d.pad v) ∧
    d.codeZeros v = d.octalMark + (if d.zeros then d.pad v else 0) + (d.least v - (d.shown v).length) := by
  unfold spaces codeZeros zeros
  by_cases hleft : d.left = true <;> by_cases hzero : Flag.zero ∈ d.flags <;> simp [hleft, hzero]

/-- The numbers of C, with the flags that choose among them. -/
theorem textSpaces_eq :
    d.textSpaces v = (if d.zeros ∧ d.minDigits = none then 0 else d.padding v) ∧
      d.textZeros v = (if d.zeros ∧ d.minDigits = none then d.padding v else 0) + (d.octalZero v + d.fillUp v) := by
  unfold textSpaces textZeros zeros
  by_cases hleft : d.left = true <;> by_cases hzero : Flag.zero ∈ d.flags <;> by_cases hmin : d.minDigits = none
  all_goals simp [hleft, hzero, hmin]

/-! ### The sums

`w` is the width, `hex` and `oct` what `#` takes, `lead` the zero that C adds for it, `fill` the zeros of the precision
and `len` the digits. -/

section

variable {w sign hex oct lead fill len : ℕ} (hlead : lead = if fill = 0 then oct else 0)

include hlead

/-- With spaces, the zero of `#` decides. -/
theorem same_spaces : (w - (oct + hex + (fill + len) + sign) = w - (sign + hex + lead + fill + len) ∧
    oct + fill = lead + fill) ↔ (oct ≠ 0 → fill = 0) := by
  by_cases hfill : fill = 0
  · rw [if_pos hfill] at hlead
    refine iff_of_true ⟨congrArg (w - ·) ?_, by rw [hlead]⟩ fun _ => hfill
    omega
  · rw [if_neg hfill] at hlead
    subst hlead
    constructor
    · rintro ⟨-, hoct⟩ hne
      omega
    · intro hoct
      have h0 : oct = 0 := by
        by_contra hne
        exact hfill (hoct hne)
      subst h0
      exact ⟨congrArg (w - ·) (by omega), rfl⟩

/-- With zeros, there may be nothing to pad. -/
theorem same_zeros : (0 = w - (sign + hex + lead + fill + len) ∧
    oct + (w - (oct + hex + (fill + len) + sign)) + fill = lead + fill) ↔
      w ≤ sign + (oct + hex) + (fill + len) ∧ (oct ≠ 0 → fill = 0) := by
  by_cases hfill : fill = 0
  · rw [if_pos hfill] at hlead
    subst hlead hfill
    constructor
    · rintro ⟨hpad, -⟩
      exact ⟨by omega, fun _ => rfl⟩
    · rintro ⟨hw, -⟩
      exact ⟨by omega, by omega⟩
  · rw [if_neg hfill] at hlead
    subst hlead
    constructor
    · rintro ⟨hpad, hsum⟩
      exact ⟨by omega, fun hne => by omega⟩
    · rintro ⟨hw, hoct⟩
      have h0 : oct = 0 := by
        by_contra hne
        exact hfill (hoct hne)
      subst h0
      exact ⟨by omega, by omega⟩

end

/-- A precision above 0 makes the flag `0` void. -/
theorem same_some {p len add : ℕ} (hg : d.given = some p) (hp : 0 < p)
    (hlead : d.octalZero v = if d.fillUp v = 0 then d.octalMark else 0)
    (hleast : d.least v = d.fillUp v + len) (hzeros : d.codeZeros v + add = d.octalMark + (if d.zeros then d.pad v else 0) + d.fillUp v)
    (hpad : d.pad v = d.minWidth - (d.special + d.least v + (d.sign v).length))
    (hpadding : d.padding v = d.minWidth - ((d.sign v).length + d.hexMark.length + d.octalZero v + d.fillUp v + len)) :
    (d.spaces v = d.textSpaces v ∧ d.codeZeros v + add = d.textZeros v) ↔
      (d.zeros → d.minWidth ≤ (d.sign v).length + d.special + (d.fillUp v + len)) ∧
        (d.octalMark ≠ 0 → d.fillUp v = 0) := by
  have hmin := d.minDigits_of_pos hg hp
  obtain ⟨hs, -⟩ := d.spaces_eq v
  obtain ⟨hs', hz'⟩ := d.textSpaces_eq v
  simp only [hmin, reduceCtorEq, and_false, if_false, Nat.zero_add] at hs' hz'
  rw [hs, hs', hzeros, hz', hpad, hpadding, hleast, special_eq]
  by_cases hzero : d.zeros
  · simp only [if_pos hzero, forall_prop_of_true hzero]
    exact same_zeros hlead
  · simp only [if_neg hzero, forall_prop_of_false hzero, true_and, Nat.add_zero]
    exact same_spaces hlead

/-! ### The value 0 -/

theorem numbers_zero (hn : d.magnitude v = 0) : (d.shown v).length = 1 ∧ d.least v = max 1 (d.given.getD 0) ∧
    d.pad v = d.minWidth - (d.special + d.least v + (d.sign v).length) ∧ d.fillUp v = d.minDigits.getD 1 ∧
    d.padding v = d.minWidth - ((d.sign v).length + d.octalZero v + d.fillUp v) := by
  have hnum : numeral d.conv.base (d.conv = .upperX) (d.magnitude v) = [] := numeral_nil.2 hn
  have hshown : (d.shown v).length = 1 := by
    unfold shown
    rw [if_pos hn]
    rfl
  have hfill : d.fillUp v = d.minDigits.getD 1 := by
    unfold fillUp
    rw [hnum]
    rfl
  refine ⟨hshown, ?_, rfl, hfill, ?_⟩
  · unfold least
    rw [hshown]
  · unfold padding
    rw [hnum, mark_zero d v hn]
    rfl

theorem sign_octal (h : d.conv = .o) : (d.sign v).length = 0 := by
  unfold sign
  rw [h]
  rfl

theorem zero_omitted (h : d.Fits v) (hn : d.magnitude v = 0) (hg : d.given = none) :
    output true d.format (d.args v) = some (d.text v) ↔
      (Flag.hash ∈ d.flags → d.conv.base = 10 ∨ d.conv = .o ∧ d.zeros ∧ 2 ≤ d.minWidth) := by
  obtain ⟨hshown, hleast, hpad, hfill, hpadding⟩ := d.numbers_zero v hn
  have hmin := d.minDigits_of_none hg
  obtain ⟨hs, hz⟩ := d.spaces_eq v
  obtain ⟨hs', hz'⟩ := d.textSpaces_eq v
  have hoct := d.octalZero_eq v
  have hsp := d.special_eq
  rw [hmin, Option.getD_none] at hfill
  rw [hg, Option.getD_none, Nat.max_zero] at hleast
  rw [hfill, if_neg Nat.one_ne_zero] at hoct
  rw [zero_iff d v h hn, hs, hz, hs', hz', hpad, hpadding, hoct, hshown, hleast, hsp, hfill]
  simp only [hg, hmin, reduceCtorEq, if_false, and_true, Nat.sub_self, Nat.add_zero]
  clear hs hz hs' hz' hpad hpadding hoct hshown hleast hsp hfill
  rcases d.marks_cases with ⟨hmark, hhex, hash, ho⟩ | ⟨hmark, hhex, hash, hbase⟩ | ⟨hmark, hhex, himp⟩
  · have hbase : ¬IntConv.base .o = 10 := by decide
    simp only [hmark, hhex, hash, ho, hbase, d.sign_octal v ho, true_and, forall_const, false_or, List.length_nil]
    by_cases hzeros : d.zeros
    · simp only [hzeros, if_true, true_and]
      omega
    · simp only [hzeros, if_false, false_and, iff_false, Nat.add_zero, Nat.zero_add, not_and]
      omega
  · refine iff_of_false (fun h => hhex h.1) fun h => ?_
    rcases h hash with h10 | ⟨ho, -⟩
    · rw [h10] at hbase
      exact absurd hbase (by decide)
    · rw [ho] at hbase
      exact absurd hbase (by decide)
  · refine iff_of_true ⟨hhex, ?_⟩ fun hash => .inl (himp hash)
    rw [hmark, hhex, List.length_nil]
    by_cases hzeros : d.zeros
    all_goals
      simp only [hzeros, if_true, if_false, true_and, and_true]
      omega

theorem zero_none (h : d.Fits v) (hn : d.magnitude v = 0) (hg : d.given = some 0) :
    output true d.format (d.args v) = some (d.text v) ↔
      if Flag.hash ∈ d.flags ∧ d.conv = .o then d.minWidth ≤ 1
      else d.minDigits = some 0 ∧ d.minWidth ≤ (d.sign v).length ∧ (Flag.hash ∈ d.flags → d.conv.base = 10) := by
  obtain ⟨hshown, hleast, hpad, hfill, hpadding⟩ := d.numbers_zero v hn
  obtain ⟨hs, hz⟩ := d.spaces_eq v
  obtain ⟨hs', hz'⟩ := d.textSpaces_eq v
  have hoct := d.octalZero_eq v
  have hsp := d.special_eq
  rw [zero_iff d v h hn, hs, hz, hs', hz', hpad, hpadding, hoct, hshown, hleast, hsp, hfill]
  simp only [hg, Option.getD_some, if_true, Nat.add_zero, Nat.max_zero, Nat.sub_self]
  clear hs hz hs' hz' hpad hpadding hoct hshown hleast hsp hfill
  rcases d.marks_cases with ⟨hmark, hhex, hash, ho⟩ | ⟨hmark, hhex, hash, hbase⟩ | ⟨hmark, hhex, himp⟩
  · have hcond : Flag.hash ∈ d.flags ∧ d.conv = .o := ⟨hash, ho⟩
    simp only [if_pos hcond, hmark, hhex, d.sign_octal v ho]
    rcases d.minDigits_of_zero hg with hmin | hmin
    all_goals
      simp only [hmin, Option.getD_none, Option.getD_some, reduceCtorEq, and_true, and_false, if_false, if_true,
        true_and, List.length_nil, one_ne_zero]
      by_cases hzeros : d.zeros
      all_goals
        simp only [hzeros, if_true, if_false, true_and, and_true]
        omega
  · have ho : d.conv ≠ .o := by
      intro ho
      rw [ho] at hbase
      exact absurd hbase (by decide)
    have hcond : ¬(Flag.hash ∈ d.flags ∧ d.conv = .o) := fun h => ho h.2
    rw [if_neg hcond]
    refine iff_of_false (fun h => hhex h.1) fun h => ?_
    rw [h.2.2 hash] at hbase
    exact absurd hbase (by decide)
  · have ho : ¬(Flag.hash ∈ d.flags ∧ d.conv = .o) := by
      rintro ⟨hash, ho⟩
      have h10 := himp hash
      rw [ho] at h10
      exact absurd h10 (by decide)
    have hhash : (Flag.hash ∈ d.flags → d.conv.base = 10) ↔ True := iff_true_intro himp
    rw [if_neg ho, hhash, hmark, hhex]
    rcases d.minDigits_of_zero hg with hmin | hmin
    all_goals
      simp only [hmin, Option.getD_none, Option.getD_some, reduceCtorEq, and_true, and_false, false_and, true_and,
        if_false, if_true, iff_false, List.length_nil, one_ne_zero]
      by_cases hzeros : d.zeros
      all_goals
        simp only [hzeros, if_true, if_false, true_and, and_true]
        omega

theorem zero_some {p : ℕ} (h : d.Fits v) (hn : d.magnitude v = 0) (hg : d.given = some p) (hp : 0 < p) :
    output true d.format (d.args v) = some (d.text v) ↔
      (d.zeros → d.minWidth ≤ (d.sign v).length + d.special +
        max p (numeral d.conv.base false (d.magnitude v)).length) ∧
      (Flag.hash ∈ d.flags → d.conv.base ≠ 10 → d.magnitude v ≠ 0 ∧ (d.conv = .o → p = 1)) := by
  obtain ⟨hshown, hleast, hpad, hfill, hpadding⟩ := d.numbers_zero v hn
  have hnum : numeral d.conv.base false (d.magnitude v) = [] := numeral_nil.2 hn
  have hne : ¬p = 0 := by omega
  rw [d.minDigits_of_pos hg hp, Option.getD_some] at hfill
  rw [hg, Option.getD_some, max_eq_right hp] at hleast
  have hzeros : d.codeZeros v + 1 = d.octalMark + (if d.zeros then d.pad v else 0) + d.fillUp v := by
    rw [(d.spaces_eq v).2, hleast, hshown, hfill, add_assoc, Nat.sub_add_cancel hp]
  rw [zero_iff d v h hn, hnum, if_neg (by rw [hg, Option.some.injEq]; exact hne)]
  simp only [hn, ne_eq, not_true_eq_false, false_and, List.length_nil, Nat.max_zero]
  rcases d.marks_cases with ⟨hmark, hhex, hash, ho⟩ | ⟨hmark, hhex, hash, hbase⟩ | ⟨hmark, hhex, himp⟩
  · refine iff_of_false (fun h => ?_) fun h => h.2 hash (by rw [ho]; decide)
    have hsum := (d.same_some v hg hp (d.octalZero_eq v) (hleast.trans hfill.symm) hzeros hpad
      (by rw [hpadding, hhex, List.length_nil, Nat.add_zero, Nat.add_zero])).1 h.2
    exact hne (hfill.symm.trans (hsum.2 (by rw [hmark]; exact one_ne_zero)))
  · exact iff_of_false (fun h => hhex h.1) fun h => h.2 hash (by rw [hbase]; decide)
  · have hbase : (Flag.hash ∈ d.flags → ¬d.conv.base = 10 → False) ↔ True :=
      iff_true_intro fun hash h => h (himp hash)
    have hsum := d.same_some v hg hp (d.octalZero_eq v) (hleast.trans hfill.symm) hzeros hpad
      (by rw [hpadding, hhex, List.length_nil, Nat.add_zero, Nat.add_zero])
    rw [hbase, hsum, hfill, Nat.add_zero]
    exact ⟨fun h => ⟨h.2.1, trivial⟩, fun h => ⟨hhex, h.1, fun hoct => absurd hmark hoct⟩⟩

/-! ### The other values -/

theorem numbers_pos (hn : d.magnitude v ≠ 0) (ho : d.conv = .o → d.magnitude v < 8) :
    ∃ len, 1 ≤ len ∧ (d.conv = .o → len = 1) ∧ (d.shown v).length = len ∧
      (numeral d.conv.base false (d.magnitude v)).length = len ∧ d.least v = max len (d.given.getD 0) ∧
      d.pad v = d.minWidth - (d.special + d.least v + (d.sign v).length) ∧ d.fillUp v = d.minDigits.getD 1 - len ∧
      d.padding v = d.minWidth - ((d.sign v).length + d.hexMark.length + d.octalZero v + d.fillUp v + len) := by
  have hlength : ∀ large, (numeral d.conv.base large (d.magnitude v)).length = (d.shown v).length := by
    intro large
    unfold shown
    rw [if_neg hn, numeral_length, numeral_length]
    cases hconv : d.conv
    all_goals first
      | rfl
      | have hdigits : numeral 16 false _ = numeral 8 false _ := numeral_octal.2 (ho hconv)
        rw [IntConv.base, if_neg (by decide), ← numeral_length 8 false, ← hdigits, numeral_length]
  refine ⟨(d.shown v).length, d.shown_pos v, fun hconv => ?_, rfl, hlength false, rfl, rfl, ?_, ?_⟩
  · rw [← hlength false, hconv, numeral_length]
    have hlt := ho hconv
    have hle := (Nat.digits_length_le_iff (show 1 < 8 by decide) (k := 1) (d.magnitude v)).2 (by omega)
    have hpos := d.shown_pos v
    rw [← hlength false, hconv, numeral_length] at hpos
    exact Nat.le_antisymm hle hpos
  · unfold fillUp
    rw [hlength]
  · unfold padding
    rw [hlength, mark_eq d v hn]

theorem pos_omitted (h : d.Fits v) (hn : d.magnitude v ≠ 0) (hg : d.given = none) :
    output true d.format (d.args v) = some (d.text v) ↔ (d.conv = .o → d.magnitude v < 8) := by
  rw [pos_iff d v h hn, hg]
  simp only [reduceCtorEq, ne_eq, not_false_eq_true, true_and, and_iff_left_iff_imp]
  intro ho
  obtain ⟨len, hpos, -, hshown, -, hleast, hpad, hfill, hpadding⟩ := d.numbers_pos v hn ho
  have hmin := d.minDigits_of_none hg
  rw [hmin, Option.getD_none, Nat.sub_eq_zero_of_le hpos] at hfill
  rw [hg, Option.getD_none, Nat.max_zero] at hleast
  have hsame : d.pad v = d.padding v := by
    rw [hpad, hpadding, d.octalZero_eq v, hfill, if_pos rfl, hleast, special_eq]
    refine congrArg (d.minWidth - ·) ?_
    omega
  rw [(d.spaces_eq v).1, (d.spaces_eq v).2, (d.textSpaces_eq v).1, (d.textSpaces_eq v).2, d.octalZero_eq v, hfill,
    if_pos rfl, hleast, hshown, hsame, hmin]
  simp only [and_true, Nat.sub_self, Nat.add_zero, true_and]
  exact Nat.add_comm _ _

/-- The zero of `#` is one of the digits that the precision asks for. -/
theorem octal_fill {len p : ℕ} (hp : 0 < p) (hone : d.conv = .o → len = 1) :
    (d.octalMark ≠ 0 → p - len = 0) ↔ (Flag.hash ∈ d.flags → d.conv.base ≠ 10 → d.conv = .o → p = 1) := by
  rcases d.marks_cases with ⟨hmark, -, hash, hconv⟩ | ⟨hmark, -, -, hbase⟩ | ⟨hmark, -, himp⟩
  · have hlen := hone hconv
    have hbase : d.conv.base ≠ 10 := by
      rw [hconv]
      decide
    rw [hmark, hlen]
    constructor
    · intro h _ _ _
      have := h one_ne_zero
      omega
    · intro h _
      have := h hash hbase hconv
      omega
  · refine iff_of_true (fun h => absurd hmark h) fun _ _ hconv => ?_
    rw [hconv] at hbase
    exact absurd hbase (by decide)
  · exact iff_of_true (fun h => absurd hmark h) fun hash hbase => absurd (himp hash) hbase

theorem pos_some {p : ℕ} (h : d.Fits v) (hn : d.magnitude v ≠ 0) (hg : d.given = some p) (hp : 0 < p) :
    output true d.format (d.args v) = some (d.text v) ↔ (d.conv = .o → d.magnitude v < 8) ∧
      (d.zeros → d.minWidth ≤ (d.sign v).length + d.special +
        max p (numeral d.conv.base false (d.magnitude v)).length) ∧
      (Flag.hash ∈ d.flags → d.conv.base ≠ 10 → d.magnitude v ≠ 0 ∧ (d.conv = .o → p = 1)) := by
  have hne : ¬p = 0 := by omega
  rw [pos_iff d v h hn, hg]
  simp only [Option.some.injEq, ne_eq, hne, not_false_eq_true, true_and, hn, and_congr_right_iff]
  intro ho
  obtain ⟨len, hpos, hone, hshown, hnum, hleast, hpad, hfill, hpadding⟩ := d.numbers_pos v hn ho
  rw [d.minDigits_of_pos hg hp, Option.getD_some] at hfill
  have hmax : max p len = d.fillUp v + len := by rw [hfill, Nat.sub_add_eq_max]
  rw [hg, Option.getD_some, Nat.max_comm, hmax] at hleast
  have hzeros : d.codeZeros v + 0 = d.octalMark + (if d.zeros then d.pad v else 0) + d.fillUp v := by
    rw [(d.spaces_eq v).2, hleast, hshown, Nat.add_sub_cancel, Nat.add_zero]
  rw [hnum, hmax, ← d.octal_fill hp hone, ← hfill]
  exact d.same_some v hg hp (d.octalZero_eq v) hleast hzeros hpad hpadding

/-! ## The theorem -/

/-- A text with many digits is as long as its parts. -/
theorem text_length {p : ℕ} (hg : d.given = some p) (hp : 16 < p) (hw : d.minWidth ≤ p) :
    (d.text v).length ≤ (d.sign v).length + d.special + p := by
  have hmin := d.minDigits_of_pos hg (by omega)
  have hlen : (numeral d.conv.base (d.conv = .upperX) (d.magnitude v)).length ≤ 16 := by
    rw [numeral_length]
    have hlt := d.magnitude_lt v
    cases d.conv
    all_goals exact (Nat.digits_length_le_iff (by decide) _).2 (Nat.lt_of_lt_of_le hlt (by decide))
  have hfill : d.fillUp v = p - (numeral d.conv.base (d.conv = .upperX) (d.magnitude v)).length := by
    unfold fillUp
    rw [hmin, Option.getD_some]
  have hoct : d.octalZero v = 0 := by
    rw [octalZero_eq, if_neg (by omega)]
  have hmark : (d.mark v).length ≤ d.special := by
    rw [special_eq]
    by_cases hn : d.magnitude v = 0
    · rw [mark_zero d v hn]
      exact Nat.zero_le _
    · rw [mark_eq d v hn]
      exact Nat.le_add_left _ _
  have hpad : d.padding v = 0 := by
    unfold padding
    omega
  have hnone : ¬(Flag.zero ∈ d.flags ∧ d.minDigits = none) := by
    rintro ⟨-, h⟩
    rw [hmin] at h
    cases h
  rw [text_spaces, layout_length]
  have hspaces : d.textSpaces v = 0 := by
    rw [(d.textSpaces_eq v).1, hpad, ite_self]
  have hzeros : d.textZeros v = d.fillUp v := by
    rw [(d.textSpaces_eq v).2, hpad, ite_self, hoct, Nat.zero_add, Nat.zero_add]
  rw [hspaces, hzeros, ite_self]
  omega

theorem meets_omitted (h : d.Fits v) (hg : d.given = none) : d.Meets v ↔ (d.conv = .o → d.magnitude v < 8) ∧
    (Flag.hash ∈ d.flags → d.magnitude v = 0 → d.conv.base = 10 ∨ d.conv = .o ∧ d.zeros ∧ 2 ≤ d.minWidth) := by
  have hnot : ∀ p, d.given ≠ some p := by
    intro p hp
    rw [hg] at hp
    cases hp
  constructor
  · intro hm
    exact ⟨hm.octal, hm.omitted hg⟩
  · rintro ⟨ho, hash⟩
    exact ⟨ho, h, fun _ => hash, fun h0 => absurd h0 (hnot 0), fun p hp => absurd hp (hnot p)⟩

theorem meets_none (h : d.Fits v) (hg : d.given = some 0) : d.Meets v ↔ d.magnitude v = 0 ∧
    if Flag.hash ∈ d.flags ∧ d.conv = .o then d.minWidth ≤ 1
    else d.minDigits = some 0 ∧ d.minWidth ≤ (d.sign v).length ∧ (Flag.hash ∈ d.flags → d.conv.base = 10) := by
  constructor
  · intro hm
    exact hm.none hg
  · intro h0
    refine ⟨fun _ => by omega, h, fun hnone => ?_, fun _ => h0, fun p hp hpos => ?_⟩
    · rw [hg] at hnone
      cases hnone
    · rw [hg] at hp
      cases hp
      exact absurd hpos (Nat.lt_irrefl 0)

theorem meets_some {p : ℕ} (h : d.Fits v) (hg : d.given = some p) (hp : 0 < p) :
    d.Meets v ↔ (d.conv = .o → d.magnitude v < 8) ∧
      (d.zeros → d.minWidth ≤ (d.sign v).length + d.special +
        max p (numeral d.conv.base false (d.magnitude v)).length) ∧
      (Flag.hash ∈ d.flags → d.conv.base ≠ 10 → d.magnitude v ≠ 0 ∧ (d.conv = .o → p = 1)) := by
  constructor
  · intro hm
    exact ⟨hm.octal, hm.some p hg hp⟩
  · rintro ⟨ho, hs⟩
    refine ⟨ho, h, fun hnone => ?_, fun h0 => ?_, fun q hq _ => ?_⟩
    · rw [hg] at hnone
      cases hnone
    · rw [hg] at h0
      exact absurd (Option.some.inj h0) (Nat.ne_of_gt hp)
    · rw [hg] at hq
      cases hq
      exact hs

/-- **Number formatting**: the code produces the text that C prescribes exactly where the condition says. -/
theorem output_text_iff : output true d.format (d.args v) = some (d.text v) ↔ d.Meets v := by
  by_cases h : d.Fits v
  · cases hg : d.given with
    | none =>
      rw [meets_omitted d v h hg]
      by_cases hn : d.magnitude v = 0
      · rw [zero_omitted d v h hn hg]
        simp only [hn, forall_const, Nat.ofNat_pos, implies_true, true_and]
      · rw [pos_omitted d v h hn hg]
        simp only [hn, false_implies, implies_true, and_true]
    | some p =>
      rcases Nat.eq_zero_or_pos p with rfl | hp
      · rw [meets_none d v h hg]
        by_cases hn : d.magnitude v = 0
        · rw [zero_none d v h hn hg]
          simp only [hn, true_and]
        · refine iff_of_false (fun heq => ?_) fun h0 => hn h0.1
          exact ((pos_iff d v h hn).1 heq).1 hg
      · rw [meets_some d v h hg hp]
        by_cases hn : d.magnitude v = 0
        · rw [zero_some d v h hn hg hp]
          simp only [hn, Nat.ofNat_pos, implies_true, true_and]
        · exact pos_some d v h hn hg hp
  · refine iff_of_false (fun heq => ?_) fun hm => h hm.counter
    obtain ⟨p, l, hg, hp, hw, hout, hlt⟩ := d.output_long v h
    have hle := d.text_length v hg hp hw
    rw [hout] at heq
    rw [Option.some.inj heq] at hlt
    omega

/-- `%o` prints hexadecimal digits: of 8 it makes `8`. -/
theorem octal_text_wrong : ¬∀ (d : Directive) (v : BitVec 32), output true d.format (d.args v) = some (d.text v) := by
  intro h
  have hm := (pos_omitted ⟨[], none, none, none, .o, nofun, nofun, nofun⟩ 8 nofun (by decide) rfl).1 (h _ 8)
  exact absurd (hm rfl) (by decide)

end Directive

end RtThread.Kservice
