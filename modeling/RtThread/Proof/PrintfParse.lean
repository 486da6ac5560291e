import RtThread.Spec.PrintfText
import RtThread.Proof.Printf

/-!
# From a conversion to `print_number`

* `Directive.output_eq`: the format is read as it is meant, and `print_number` gets what it says.
* `printNumber_text`: the text of `print_number`, piece by piece.
* `fills_eq`, `fills_wrapped`: how often the loops fill, as long as the size does not pass the least `int`, and
  where it does.
-/

namespace RtThread.Kservice

open Emit

/-! ## The format is read -/

/-- What the code makes of the flags. -/
def Flags.and (f : Flags) (l : List Flag) : Flags :=
  { f with
    zeropad := f.zeropad || l.contains .zero
    plus := f.plus || l.contains .plus
    space := f.space || l.contains .space
    left := f.left || l.contains .minus
    special := f.special || l.contains .hash }

theorem Flags.and_cons (f : Flags) (x : Flag) (l : List Flag) : f.and (x :: l) = (f.and [x]).and l := by
  unfold Flags.and
  simp only [List.contains_cons, List.contains_nil, Bool.or_false, Bool.or_assoc]

theorem Flags.and_nil (f : Flags) : f.and [] = f := by
  unfold Flags.and
  simp only [List.contains_nil, Bool.or_false]

/-- Characters that are no flags. -/
def noFlag (c : Char) : Prop := c ≠ '-' ∧ c ≠ '+' ∧ c ≠ ' ' ∧ c ≠ '#' ∧ c ≠ '0'

theorem flagsOf_stop {f : Flags} {c : Char} {rest : List Char} (hc : noFlag c) :
    flagsOf f (c :: rest) = (f, c :: rest) := by
  obtain ⟨h₁, h₂, h₃, h₄, h₅⟩ := hc
  unfold flagsOf
  split <;> simp_all

theorem flagsOf_flags {c : Char} {rest : List Char} (hc : noFlag c) (f : Flags) (l : List Flag) :
    flagsOf f (l.map Flag.char ++ c :: rest) = (f.and l, c :: rest) := by
  induction l generalizing f with
  | nil => rw [Flags.and_nil, List.map_nil, List.nil_append, flagsOf_stop hc]
  | cons x l ih =>
    rw [Flags.and_cons, ← ih]
    cases x <;> simp [flagsOf, Flag.char, Flags.and]

theorem isdigit_digit (d : Fin 10) : isdigit (Char.ofNat ('0'.toNat + d.val)) = true := by
  revert d
  decide

theorem toNat_digit (d : Fin 10) : (Char.ofNat ('0'.toNat + d.val)).toNat - '0'.toNat = d.val := by
  revert d
  decide

theorem skipAtoi_stop {i : BitVec 32} {c : Char} {rest : List Char} (hc : isdigit c = false) :
    skipAtoi i (c :: rest) = (i, c :: rest) := by
  unfold skipAtoi
  rw [hc]
  rfl

/-- `skip_atoi` reads a number. -/
theorem skipAtoi_digits {c : Char} {rest : List Char} (hc : isdigit c = false) (ds : List (Fin 10)) (n : ℕ) :
    skipAtoi (BitVec.ofNat 32 n) ((Field.digits ds).text ++ c :: rest) =
      (BitVec.ofNat 32 (ds.foldl (fun n d => n * 10 + d.val) n), c :: rest) := by
  induction ds generalizing n with
  | nil => exact skipAtoi_stop hc
  | cons d ds ih =>
    have hstep : BitVec.ofNat 32 n * 10 + BitVec.ofNat 32 d.val = BitVec.ofNat 32 (n * 10 + d.val) := by
      rw [BitVec.ofNat_add, BitVec.ofNat_mul]
      rfl
    rw [List.foldl_cons, ← ih, Field.text, List.map_cons, List.cons_append, skipAtoi, isdigit_digit, if_pos rfl,
      toNat_digit, hstep]
    rfl

theorem skipAtoi_number {c : Char} (rest : List Char) (hc : isdigit c = false) (ds : List (Fin 10)) :
    skipAtoi 0 ((Field.digits ds).text ++ c :: rest) = (BitVec.ofNat 32 (number ds), c :: rest) :=
  skipAtoi_digits hc ds 0

namespace Directive

variable (d : Directive) (v : BitVec 32)

/-- The format behind the width, and behind the precision. -/
def typed : List Char := (d.qualifier.map Qualifier.char).toList ++ [d.conv.char]

def precise : List Char := (d.precision.elim [] fun f => '.' :: f.text) ++ d.typed

/-- No part of the format runs into the one behind it. -/
structure Stops (c : Char) : Prop where
  flag : noFlag c
  digit : isdigit c = false
  star : c ≠ '*'

theorem typed_head : ∃ c rest, d.typed = c :: rest ∧ Stops c ∧ c ≠ '.' := by
  unfold typed
  rcases d.qualifier with _ | q
  · refine ⟨d.conv.char, [], rfl, ?_⟩
    cases d.conv
    all_goals exact ⟨⟨by unfold noFlag; decide, by decide, by decide⟩, by decide⟩
  · refine ⟨q.char, [d.conv.char], rfl, ?_⟩
    cases q
    all_goals exact ⟨⟨by unfold noFlag; decide, by decide, by decide⟩, by decide⟩

theorem precise_head : ∃ c rest, d.precise = c :: rest ∧ Stops c := by
  unfold precise
  cases d.precision with
  | none =>
    obtain ⟨c, rest, h, hstop, -⟩ := d.typed_head
    exact ⟨c, rest, h, hstop⟩
  | some f => exact ⟨'.', f.text ++ d.typed, rfl, ⟨by unfold noFlag; decide, by decide, by decide⟩⟩

theorem fieldWidth_none {flags : Flags} {c : Char} {rest : List Char} {args : List Arg} (hc : Stops c) :
    Kservice.fieldWidth ⟨flags, c :: rest, args⟩ = some (-1, ⟨flags, c :: rest, args⟩) := by
  unfold Kservice.fieldWidth
  split
  · rename_i hfmt
    cases hfmt
    exact absurd rfl hc.star
  · rename_i hfmt
    cases hfmt
    rw [hc.digit]
    rfl
  · rfl

/-- The width that the code takes. -/
def codeWidth : BitVec 32 := BitVec.ofInt 32 (d.start - 1)

/-- The precision that the code takes. -/
def codePrecision : BitVec 32 := BitVec.ofInt 32 (d.given.elim (-1) Nat.cast)

theorem fieldWidth_digit {flags : Flags} {c : Char} {rest : List Char} {args : List Arg} (hc : isdigit c = true) :
    Kservice.fieldWidth ⟨flags, c :: rest, args⟩ =
      some ((skipAtoi 0 (c :: rest)).1, ⟨flags, (skipAtoi 0 (c :: rest)).2, args⟩) := by
  unfold Kservice.fieldWidth
  split
  · rename_i hfmt
    cases hfmt
    exact absurd hc (by decide)
  · rename_i hfmt
    cases hfmt
    rw [if_pos hc]
  · rename_i hfmt
    cases hfmt

theorem fieldWidth_eq {flags : Flags} {c : Char} {rest : List Char} {args : List Arg} (hc : Stops c)
    (hflags : flags.left = d.flags.contains .minus) :
    Kservice.fieldWidth ⟨flags, d.width.elim [] Field.text ++ c :: rest, d.width.elim [] Field.args ++ args⟩ =
      some (d.codeWidth, ⟨{ flags with left := d.left }, c :: rest, args⟩) := by
  unfold codeWidth start left minWidth
  rcases hw : d.width with _ | ds | w
  · simp only [Option.elim_none, List.nil_append, fieldWidth_none hc, Bool.or_false, ← hflags]
    rfl
  · obtain ⟨x, l, rfl, -⟩ := d.width_starts ds hw
    have hnum := skipAtoi_number rest hc.digit (x :: l)
    have hcons : (Field.digits (x :: l)).text ++ c :: rest =
        Char.ofNat ('0'.toNat + x.val) :: ((Field.digits l).text ++ c :: rest) := rfl
    simp only [Option.elim_some, Field.args, List.nil_append, Bool.or_false, ← hflags]
    rw [hcons, fieldWidth_digit (isdigit_digit x), ← hcons, hnum]
    simp only [Option.isSome_some, if_true, Nat.cast_add, Nat.cast_one, add_sub_cancel_right, BitVec.ofInt_natCast]
  · simp only [Option.elim_some, Field.args, Field.text, List.cons_append, List.nil_append, Option.isSome_some, if_true,
      Nat.cast_add, Nat.cast_one, add_sub_cancel_right, ← hflags]
    have hstar : Kservice.fieldWidth ⟨flags, '*' :: c :: rest, .int w :: args⟩ =
        some (if w.toInt < 0 then (-w, ⟨{ flags with left := true }, c :: rest, args⟩)
          else (w, ⟨flags, c :: rest, args⟩)) := rfl
    rw [hstar]
    by_cases hneg : w.toInt < 0
    · have habs : ((w.toInt.natAbs : ℕ) : ℤ) = -w.toInt := by omega
      rw [if_pos hneg, habs, BitVec.ofInt_neg, BitVec.ofInt_toInt]
      simp only [hneg, decide_true, Bool.or_true]
    · have habs : ((w.toInt.natAbs : ℕ) : ℤ) = w.toInt := by omega
      rw [if_neg hneg, habs, BitVec.ofInt_toInt]
      simp only [hneg, decide_false, Bool.or_false]

theorem precisionOf_none {flags : Flags} {c : Char} {rest : List Char} {args : List Arg} (hc : c ≠ '.') :
    precisionOf ⟨flags, c :: rest, args⟩ = some (-1, ⟨flags, c :: rest, args⟩) := by
  unfold precisionOf
  split
  all_goals first
    | rfl
    | rename_i hfmt
      cases hfmt
      exact absurd rfl hc

theorem precisionOf_dot {flags : Flags} {c : Char} {rest : List Char} {args : List Arg} (hc : c ≠ '*') :
    precisionOf ⟨flags, '.' :: c :: rest, args⟩ =
      if isdigit c then
        some (notNegative (skipAtoi 0 (c :: rest)).1, ⟨flags, (skipAtoi 0 (c :: rest)).2, args⟩)
      else some (0, ⟨flags, c :: rest, args⟩) := by
  unfold precisionOf
  split
  · rename_i hfmt
    cases hfmt
    exact absurd rfl hc
  · rename_i hfmt
    cases hfmt
    rfl
  · rename_i hfmt
    cases hfmt
  · rename_i h₁ h₂ h₃
    exact absurd rfl (h₂ c rest)

theorem notNegative_ofNat {n : ℕ} (hn : n < 2 ^ 31) : notNegative (BitVec.ofNat 32 n) = BitVec.ofNat 32 n := by
  have hint : (BitVec.ofNat 32 n).toInt = n := by
    rw [BitVec.toInt_ofNat', Int.bmod_eq_of_le (by omega) (by omega)]
  unfold notNegative
  rw [if_neg (by omega)]

theorem precisionOf_eq {flags : Flags} {args : List Arg} :
    precisionOf ⟨flags, d.precise, d.precision.elim [] Field.args ++ args⟩ =
      some (d.codePrecision, ⟨flags, d.typed, args⟩) := by
  obtain ⟨c, rest, htyped, hc, hdot⟩ := d.typed_head
  unfold codePrecision given precise
  rw [htyped]
  rcases hp : d.precision with _ | ds | p
  · exact precisionOf_none hdot
  · have hsmall : number ds < 2 ^ 31 := d.precision_small _ hp
    have hnum := skipAtoi_number rest hc.digit ds
    simp only [Option.elim_some, Option.map_some, Field.args, List.nil_append, BitVec.ofInt_natCast, List.cons_append]
    cases ds with
    | nil =>
      show precisionOf ⟨flags, '.' :: c :: rest, args⟩ = _
      rw [precisionOf_dot hc.star, hc.digit]
      rfl
    | cons x l =>
      have hcons : (Field.digits (x :: l)).text ++ c :: rest =
          Char.ofNat ('0'.toNat + x.val) :: ((Field.digits l).text ++ c :: rest) := rfl
      have hstar : Char.ofNat ('0'.toNat + x.val) ≠ '*' := by
        intro h
        have hdigit := isdigit_digit x
        rw [h] at hdigit
        exact absurd hdigit (by decide)
      rw [hcons, precisionOf_dot hstar, if_pos (isdigit_digit x), ← hcons, hnum, notNegative_ofNat hsmall]
  · have hstar : precisionOf ⟨flags, '.' :: '*' :: c :: rest, .int p :: args⟩ =
        some (notNegative p, ⟨flags, c :: rest, args⟩) := rfl
    refine hstar.trans ?_
    simp only [Option.map_some, Option.elim_some]
    unfold notNegative
    by_cases hneg : p.toInt < 0
    · have hzero : p.toInt.toNat = 0 := by omega
      rw [if_pos hneg, hzero]
      rfl
    · have hnat : ((p.toInt.toNat : ℕ) : ℤ) = p.toInt := by omega
      rw [if_neg hneg, hnat, BitVec.ofInt_toInt]

theorem qualifierOf_eq {flags : Flags} {args : List Arg} :
    qualifierOf ⟨flags, d.typed, args⟩ = (d.qualifier.map Qualifier.char, ⟨flags, [d.conv.char], args⟩) := by
  unfold typed
  rcases d.qualifier with _ | q
  · cases d.conv <;> rfl
  · cases q <;> rfl

/-- The flags that `print_number` gets. -/
def typeFlags : Flags :=
  ⟨d.flags.contains .zero, d.conv.signed, d.flags.contains .plus, d.flags.contains .space, d.left,
    d.flags.contains .hash, d.conv = .upperX⟩

theorem convert_eq {σ : Type} (put : σ → Char → σ) (str : σ) :
    convert true put str d.codeWidth d.codePrecision (d.qualifier.map Qualifier.char)
        ⟨{ d.typeFlags with sign := false, large := false }, [d.conv.char], [.int v]⟩ =
      some (printNumber true put str (numOf (d.qualifier.map Qualifier.char) d.typeFlags v) d.conv.base d.codeWidth
        d.codePrecision d.typeFlags, ⟨d.typeFlags, [], []⟩) := by
  unfold typeFlags
  cases d.conv <;> rfl

/-- **A conversion calls `print_number`.** -/
theorem output_eq : output true d.format (d.args v) = some (printNumber true (fun l c => l ++ [c]) []
    (numOf (d.qualifier.map Qualifier.char) d.typeFlags v) d.conv.base d.codeWidth d.codePrecision d.typeFlags) := by
  obtain ⟨c, rest, hprecise, hc⟩ := d.precise_head
  have hformat : d.format = '%' :: (d.flags.map Flag.char ++ (d.width.elim [] Field.text ++ c :: rest)) := by
    rw [← hprecise]
    rfl
  have hflags : flagsOf ⟨false, false, false, false, false, false, false⟩
      (d.flags.map Flag.char ++ (d.width.elim [] Field.text ++ c :: rest)) =
        (Flags.and ⟨false, false, false, false, false, false, false⟩ d.flags, d.width.elim [] Field.text ++ c :: rest) := by
    rcases hw : d.width with _ | ds | w
    · exact flagsOf_flags hc.flag _ _
    · obtain ⟨x, l, rfl, hx⟩ := d.width_starts ds hw
      refine flagsOf_flags ?_ _ _
      show noFlag (Char.ofNat ('0'.toNat + x.val))
      clear hw
      unfold noFlag
      revert x
      decide
    · exact flagsOf_flags (by unfold noFlag; decide) _ _
  unfold output
  rw [hformat, formatLoop_percent]
  unfold conversion args
  simp only [hflags, Option.bind_eq_bind]
  rw [d.fieldWidth_eq hc (by unfold Flags.and; exact Bool.false_or _), Option.bind_some]
  simp only [← hprecise, precisionOf_eq, Option.bind_some, qualifierOf_eq]
  have hconvert := d.convert_eq v (fun l c => l ++ [c]) []
  unfold typeFlags at hconvert ⊢
  unfold Flags.and
  simp only [Bool.false_or, hconvert, Option.bind_some]
  exact formatLoop_nil _ _

end Directive

/-! ## The text of `print_number` -/

/-- How often the loops that fill run: before the sign, before the digits, and behind them. -/
def fills (padLeft left sign : Bool) (size : BitVec 32) : ℕ × ℕ × ℕ :=
  let size := if padLeft ∧ sign ∧ 0 < size.toInt then size - 1 else size
  let before := if padLeft then runs size else 0
  let size := if padLeft then behind size else size
  let size := if sign then size - 1 else size
  (before, if left then 0 else runs size, runs (if left then size else behind size))

theorem fillIf_emits (c : Char) (n : ℕ) (p : Bool) :
    Emits (fun _ put s => if p then fill put c n s else s) (List.replicate (if p then n else 0) c) := by
  cases p
  · exact Emits.nothing
  · exact fill_emits c n

theorem fillUnless_emits (c : Char) (n : ℕ) (p : Bool) :
    Emits (fun _ put s => if p then s else fill put c n s) (List.replicate (if p then 0 else n) c) := by
  cases p
  · exact fill_emits c n
  · exact Emits.nothing

theorem printNumber_text (num : BitVec 32) (base : ℕ) (s precision : BitVec 32) (type : Flags) :
    let tmp := tmpDigits type.large base (if type.sign ∧ num.toInt < 0 then -num else num)
    let shown := if (tmp.length : ℤ) > precision.toInt then BitVec.ofNat 32 tmp.length else precision
    let size := (if type.special then (if base = 16 then s - 2 else if base = 8 then s - 1 else s) else s) - shown
    let f := fills (!((type.zeropad && !type.left) || type.left)) type.left (signOf type num).isSome size
    printNumber true (fun l c => l ++ [c]) [] num base s precision type =
      List.replicate f.1 ' ' ++ (signOf type num).toList ++ (if type.special ∧ base = 8 then ['0'] else []) ++
        (if type.special ∧ base = 16 then ['0'] ++ [if type.large then 'X' else 'x'] else []) ++
        List.replicate f.2.1 (if type.zeropad && !type.left then '0' else ' ') ++
        List.replicate (shown.toInt - tmp.length).toNat '0' ++
        (if precision = 0 then [] else tmp.reverse) ++ List.replicate f.2.2 ' ' := by
  intro tmp shown size f
  refine Emits.collect (f := fun _ put str => printNumber true put str num base s precision type) ?_
  unfold printNumber
  -- from the last characters to the first
  refine Emits.comp (fill_emits ' ' _) ?_
  refine Emits.comp (Emits.ite Emits.nothing (Emits.fold _)) ?_
  refine Emits.comp (fill_emits '0' _) ?_
  refine Emits.comp (fillUnless_emits _ _ _) ?_
  refine Emits.comp (Emits.ite (Emits.comp (Emits.one _) (Emits.one '0')) Emits.nothing) ?_
  refine Emits.comp (Emits.ite (Emits.one '0') Emits.nothing) ?_
  refine Emits.comp (Emits.fold _) ?_
  exact fillIf_emits ' ' _ _

/-! ## The size -/

theorem toInt_range (x : BitVec 32) : -2 ^ 31 ≤ x.toInt ∧ x.toInt < 2 ^ 31 := by
  have hle := BitVec.le_toInt x
  have hlt := BitVec.toInt_lt (x := x)
  simp only [Nat.add_one_sub_one] at hle hlt
  omega

theorem toInt_pred (x : BitVec 32) :
    (x - 1).toInt = if x.toInt = -2 ^ 31 then 2 ^ 31 - 1 else x.toInt - 1 := by
  have hrange := toInt_range x
  have hone : (1 : BitVec 32).toInt = 1 := rfl
  rw [BitVec.toInt_sub, hone, Int.bmod_def]
  split <;> omega

theorem toInt_neg_one : (-1 : BitVec 32).toInt = -1 := rfl

/-- Conditions on a size, as conditions on its number. -/
theorem toInt_ite {p : Prop} [Decidable p] (x y : BitVec 32) :
    (if p then x else y).toInt = if p then x.toInt else y.toInt := apply_ite BitVec.toInt p x y

/-- As long as the size does not pass the least `int`, one loop at most fills. -/
theorem fills_eq {padLeft left sign : Bool} {size : BitVec 32} (hleft : padLeft = true → left = false)
    (h : -2 ^ 31 ≤ size.toInt - sign.toNat - (if left then 0 else if padLeft then 2 else 1 : ℤ)) :
    fills padLeft left sign size =
      (if padLeft then (size.toInt - sign.toNat).toNat else 0,
        if padLeft || left then 0 else (size.toInt - sign.toNat).toNat,
        if left then (size.toInt - sign.toNat).toNat else 0) := by
  have hrange := toInt_range size
  unfold fills runs behind
  cases padLeft <;> cases left <;> cases sign
  all_goals
    simp only [Bool.toNat_true, Bool.toNat_false, Bool.false_eq_true, if_true, if_false, reduceCtorEq, true_and, false_and,
      Bool.or_true, Bool.or_false, toInt_ite, toInt_pred, toInt_neg_one, Prod.mk.injEq, forall_const] at h hleft ⊢
  all_goals
    try split_ifs
    all_goals omega

/-- Where the size passes the least `int`, some loop fills. -/
theorem fills_wrapped {padLeft left sign : Bool} {size : BitVec 32} {t : ℤ} (hleft : padLeft = true → left = false)
    (hsize : size = BitVec.ofInt 32 t) (ht : -2 ^ 31 - 2 ≤ t)
    (h : t - sign.toNat - (if left then 0 else if padLeft then 2 else 1 : ℤ) < -2 ^ 31) :
    0 < (fills padLeft left sign size).1 + (fills padLeft left sign size).2.1 + (fills padLeft left sign size).2.2 := by
  have hle := Bool.toNat_le sign
  rcases Int.lt_or_le t (-2 ^ 31) with hlt | hge
  · -- the size is huge from the start
    have htoInt : 1 < size.toInt := by
      rw [hsize, BitVec.toInt_ofInt, Int.bmod_def]
      split <;> omega
    clear h hsize ht
    unfold fills runs behind
    cases padLeft <;> cases left <;> cases sign
    all_goals
      simp only [Bool.false_eq_true, if_true, if_false, reduceCtorEq, true_and, false_and, toInt_pred, forall_const,
        if_pos (show 0 < size.toInt by omega)] at hleft ⊢
    all_goals
      try split_ifs
      all_goals omega
  · have htoInt : size.toInt = t := by
      rw [hsize, BitVec.toInt_ofInt, Int.bmod_def]
      split_ifs at h <;> split <;> omega
    have hneg : ¬0 < size.toInt := by
      split_ifs at h <;> omega
    unfold fills runs behind
    cases padLeft <;> cases left <;> cases sign
    all_goals
      simp only [Bool.toNat_true, Bool.toNat_false, Bool.false_eq_true, if_true, if_false, reduceCtorEq, toInt_ite,
        toInt_pred, toInt_neg_one, forall_const, hneg, and_false] at h hleft ⊢
    all_goals
      try split_ifs
      all_goals omega

end RtThread.Kservice
