import Mathlib.Algebra.Field.Rat
import Mathlib.Data.Rat.Cast.Defs
import Mathlib.Tactic.FieldSimp
import Mathlib.Tactic.Ring

/-!
# Numbers of JSON

A number literal has an integer part without leading zeros, and may have a minus sign, a fraction and an exponent.
It denotes a rational number.

* `Denotes.tenths`, `Denotes.neg`: an integer with one digit behind the point, and its negation.
* `Denotes.digit_of_point`: behind the first point there is a digit.
-/

namespace Json

/-- A run of at least one digit. -/
def Digits (l : List Char) : Prop := l ≠ [] ∧ ∀ c ∈ l, c.isDigit = true

inductive Sign
  | none
  | plus
  | minus

def Sign.text : Sign → List Char
  | .none => []
  | .plus => ['+']
  | .minus => ['-']

/-- An exponent: its letter, its sign and its digits. -/
structure Exponent where
  letter : Char
  sign : Sign
  digits : List Char

namespace Exponent

variable (e : Exponent)

def WellFormed : Prop := (e.letter = 'e' ∨ e.letter = 'E') ∧ Digits e.digits

def text : List Char := e.letter :: (e.sign.text ++ e.digits)

def value : ℚ :=
  match e.sign with
  | .minus => (10 ^ Nat.ofDigitChars 10 e.digits 0)⁻¹
  | _ => 10 ^ Nat.ofDigitChars 10 e.digits 0

end Exponent

/-- A number literal, by its parts. -/
structure Numeral where
  minus : Bool
  int : List Char
  frac : Option (List Char)
  exp : Option Exponent

namespace Numeral

variable (n : Numeral)

structure WellFormed : Prop where
  int : Digits n.int
  noZero : n.int.head? = some '0' → n.int = ['0']
  frac : ∀ f ∈ n.frac, Digits f
  exp : ∀ e ∈ n.exp, e.WellFormed

/-- What stands behind the integer part. -/
def tail : List Char := (n.frac.map (List.cons '.')).getD [] ++ (n.exp.map Exponent.text).getD []

def text : List Char := (if n.minus then ['-'] else []) ++ (n.int ++ n.tail)

def fracValue : ℚ := (n.frac.map fun f => (Nat.ofDigitChars 10 f 0 : ℚ) / 10 ^ f.length).getD 0

def value : ℚ :=
  (if n.minus then -1 else 1) * (Nat.ofDigitChars 10 n.int 0 + n.fracValue) * (n.exp.map Exponent.value).getD 1

end Numeral

/-- The text is a number literal that denotes `q`. -/
def Denotes (text : List Char) (q : ℚ) : Prop := ∃ n : Numeral, n.WellFormed ∧ n.text = text ∧ n.value = q

/-! ## Decimal digits -/

theorem digits_toDigits (n : ℕ) : Digits (Nat.toDigits 10 n) :=
  ⟨Nat.toDigits_ne_nil, fun _ hc => Nat.isDigit_of_mem_toDigits (by decide) (by decide) hc⟩

/-- A number is written without leading zeros. -/
theorem head_toDigits {n : ℕ} (hn : n ≠ 0) : (Nat.toDigits 10 n).head? ≠ some '0' := by
  induction n using Nat.strong_induction_on with
  | _ n ih =>
    rw [Nat.toDigits_eq_if (by decide)]
    split
    · rename_i hlt
      have hdigits : ∀ d : Fin 10, d.val ≠ 0 → [d.val.digitChar].head? ≠ some '0' := by decide
      exact hdigits ⟨n, hlt⟩ hn
    · rename_i hge
      have hhead := ih (n / 10) (by omega) (by omega)
      rwa [List.head?_append_of_ne_nil _ Nat.toDigits_ne_nil]

theorem toDigits_noZero {n : ℕ} (h : (Nat.toDigits 10 n).head? = some '0') : Nat.toDigits 10 n = ['0'] := by
  by_cases hn : n = 0
  · rw [hn, Nat.toDigits_zero]
  · exact absurd h (head_toDigits hn)

/-! ## What a text denotes -/

variable {text l : List Char} {q : ℚ}

/-- **One digit behind the point.** -/
theorem Denotes.tenths (n : ℕ) {d : ℕ} (hd : d < 10) :
    Denotes (Nat.toDigits 10 n ++ '.' :: Nat.toDigits 10 d) ((10 * n + d : ℕ) / 10) := by
  refine ⟨⟨false, Nat.toDigits 10 n, some (Nat.toDigits 10 d), none⟩, ?_, ?_, ?_⟩
  · refine ⟨digits_toDigits n, toDigits_noZero, fun f hf => ?_, fun e he => by cases he⟩
    rw [← Option.some.inj hf]
    exact digits_toDigits d
  · simp [Numeral.text, Numeral.tail]
  · have hone : (Nat.toDigits 10 d).length = 1 := by rw [Nat.toDigits_of_lt_base hd, List.length_singleton]
    simp only [Numeral.value, Numeral.fracValue, Option.map_some, Option.getD_some, Option.map_none, Option.getD_none,
      Nat.ofDigitChars_ten_toDigits, hone]
    rw [if_neg Bool.false_ne_true]
    push_cast
    ring

/-- **A minus sign** in front of a literal without one. -/
theorem Denotes.neg (h : Denotes text q) (hhead : text.head? ≠ some '-') : Denotes ('-' :: text) (-q) := by
  obtain ⟨⟨minus, int, frac, exp⟩, hn, rfl, rfl⟩ := h
  cases minus with
  | true => exact absurd rfl hhead
  | false =>
    refine ⟨⟨true, int, frac, exp⟩, ⟨hn.int, hn.noZero, hn.frac, hn.exp⟩, rfl, ?_⟩
    simp [Numeral.value, Numeral.fracValue]
    ring

theorem Digits.point_notMem (h : Digits l) : '.' ∉ l := fun hmem => absurd (h.2 _ hmem) (by decide)

theorem Exponent.point_notMem {e : Exponent} (h : e.WellFormed) : '.' ∉ e.text := by
  obtain ⟨hletter, hdigits⟩ := h
  have hsign : '.' ∉ e.sign.text := by cases e.sign <;> decide
  have hdot : '.' ≠ e.letter := by rcases hletter with h | h <;> rw [h] <;> decide
  simp [Exponent.text, hdot, hsign, hdigits.point_notMem]

/-- A text has one first point. -/
theorem split_point {l l' r r' : List Char} (h : l ++ '.' :: r = l' ++ '.' :: r') (hl : '.' ∉ l) (hl' : '.' ∉ l') :
    r = r' := by
  induction l generalizing l' with
  | nil =>
    cases l' with
    | nil => exact (List.cons.inj h).2
    | cons c l' => exact absurd ((List.cons.inj h).1 ▸ List.mem_cons_self) hl'
  | cons c l ih =>
    cases l' with
    | nil => exact absurd ((List.cons.inj h).1 ▸ List.mem_cons_self) hl
    | cons c' l' =>
      exact ih (List.cons.inj h).2 (fun hm => hl (List.mem_cons_of_mem _ hm)) fun hm => hl' (List.mem_cons_of_mem _ hm)

/-- **Behind the first point there is a digit.** -/
theorem Denotes.digit_of_point (h : Denotes (l ++ '.' :: text) q) (hl : '.' ∉ l) :
    ∃ c ∈ text.head?, c.isDigit = true := by
  obtain ⟨⟨minus, int, frac, exp⟩, hn, htext, -⟩ := h
  have hint : '.' ∉ (if minus then ['-'] else []) ++ int := by
    rw [List.mem_append, not_or]
    exact ⟨by cases minus <;> decide, hn.int.point_notMem⟩
  have hexp : '.' ∉ (exp.map Exponent.text).getD [] := by
    cases exp with
    | none => exact List.not_mem_nil
    | some e => exact Exponent.point_notMem (hn.exp e rfl)
  simp only [Numeral.text, Numeral.tail] at htext
  rw [← List.append_assoc] at htext
  cases frac with
  | none =>
    -- there is no point at all
    have hmem : '.' ∈ l ++ '.' :: text := by simp
    rw [← htext, Option.map_none, Option.getD_none, List.nil_append, List.mem_append] at hmem
    exact absurd hmem (not_or.2 ⟨hint, hexp⟩)
  | some f =>
    rw [Option.map_some, Option.getD_some, List.cons_append] at htext
    have hrest := split_point htext hint hl
    obtain ⟨c, f', rfl⟩ := List.exists_cons_of_ne_nil (hn.frac f rfl).1
    rw [← hrest]
    exact ⟨c, rfl, (hn.frac _ rfl).2 c List.mem_cons_self⟩

end Json
