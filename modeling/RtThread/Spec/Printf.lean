import RtThread.Lib.Emit
import Mathlib.Data.Nat.Digits.Defs

/-!
# Formatted output (`kservice.c`)

`print_number` and `rt_vsnprintf`, on 32 bits, with `RT_PRINTF_PRECISION` and without `RT_PRINTF_LONGLONG`.
Wherever the code emits a character it stores it if `str < end`, and increments `str`: here `put`. The
functions take any `put`, so that the same code writes to a buffer and to an unlimited one.

An `int` is a word of 32 bits, whose overflow wraps. Format and strings are lists of characters, which end where
the list ends or at a `'\0'`; they do not lie in the buffer. A function is `none` where an argument is missing
or of another type.

A loop that counts a variable down is how often it runs (`runs`) and what it leaves (`behind`).
-/

namespace RtThread.Kservice

/-- The type flags of a conversion. -/
structure Flags where
  zeropad : Bool
  sign : Bool
  plus : Bool
  space : Bool
  left : Bool
  special : Bool
  large : Bool

/-- An argument: an integer or a `void *`, or a string, which may be `RT_NULL`. -/
inductive Arg
  | int (v : BitVec 32)
  | str (s : Option (List Char))

/-- How often `while (n-- > 0)` runs. -/
def runs (n : BitVec 32) : ℕ := n.toInt.toNat

/-- What `while (n-- > 0)` leaves. -/
def behind (n : BitVec 32) : BitVec 32 := if 0 < n.toInt then -1 else n - 1

/-- What `while (--n > 0)` leaves; it runs `runs (n - 1)` times. -/
def behindPre (n : BitVec 32) : BitVec 32 := if 0 < (n - 1).toInt then 0 else n - 1

/-- What `while (len < n--)` leaves; it runs `n - len` times. -/
def behindLen (len n : BitVec 32) : BitVec 32 := if len.toInt < n.toInt then len - 1 else n - 1

def isdigit (c : Char) : Bool := c.isDigit

/-- `small_digits` or `large_digits`. -/
def digit (large : Bool) (n : ℕ) : Char :=
  if n < 10 then Char.ofNat ('0'.toNat + n)
  else if large then Char.ofNat ('A'.toNat + (n - 10))
  else Char.ofNat ('a'.toNat + (n - 10))

/-- `tmp`, from the last digit on; `divide` divides by 10 or by 16. -/
def tmpDigits (large : Bool) (base : ℕ) (num : BitVec 32) : List Char :=
  if num = 0 then ['0']
  else (Nat.digits (if base = 10 then 10 else 16) num.toNat).map (digit large)

section Sinks

-- `special` is `RT_PRINTF_SPECIAL`
variable (special : Bool) {σ : Type} (put : σ → Char → σ)

/-- `n` times the character `c`. -/
def fill (c : Char) : ℕ → σ → σ
  | 0, str => str
  | n + 1, str => fill c n (put str c)

/-- The sign that `print_number` shows. -/
def signOf (type : Flags) (num : BitVec 32) : Option Char :=
  if type.sign then
    if num.toInt < 0 then some '-'
    else if type.plus then some '+'
    else if type.space then some ' '
    else none
  else none

def printNumber (str : σ) (num : BitVec 32) (base : ℕ) (s precision : BitVec 32) (type : Flags) : σ :=
  let zeropad := type.zeropad && !type.left
  let c := if zeropad then '0' else ' '
  let sign := signOf type num
  let num := if type.sign ∧ num.toInt < 0 then -num else num
  let isSpecial := special && type.special
  let size := if isSpecial then (if base = 16 then s - 2 else if base = 8 then s - 1 else s) else s
  let tmp := tmpDigits type.large base num
  let precisionBak := precision
  let precision := if (tmp.length : ℤ) > precision.toInt then BitVec.ofNat 32 tmp.length else precision
  let size := size - precision
  let padLeft := !(zeropad || type.left)
  let size := if padLeft ∧ sign.isSome ∧ 0 < size.toInt then size - 1 else size
  let str := if padLeft then fill put ' ' (runs size) str else str
  let size := if padLeft then behind size else size
  let str := (sign.toList).foldl put str
  let size := if sign.isSome then size - 1 else size
  let str := if isSpecial ∧ base = 8 then put str '0' else str
  let str := if isSpecial ∧ base = 16 then put (put str '0') (if type.large then 'X' else 'x') else str
  -- no align to the left
  let str := if type.left then str else fill put c (runs size) str
  let size := if type.left then size else behind size
  let str := fill put '0' (precision.toInt - tmp.length).toNat str
  -- put number in the temporary buffer
  let str := if precisionBak = 0 then str else tmp.reverse.foldl put str
  fill put ' ' (runs size) str

end Sinks

/-- The loop over the flags. -/
def flagsOf (flags : Flags) : List Char → Flags × List Char
  | '-' :: fmt => flagsOf { flags with left := true } fmt
  | '+' :: fmt => flagsOf { flags with plus := true } fmt
  | ' ' :: fmt => flagsOf { flags with space := true } fmt
  | '#' :: fmt => flagsOf { flags with special := true } fmt
  | '0' :: fmt => flagsOf { flags with zeropad := true } fmt
  | fmt => (flags, fmt)

/-- `skip_atoi`, with the number so far. -/
def skipAtoi (i : BitVec 32) : List Char → BitVec 32 × List Char
  | c :: s => if isdigit c then skipAtoi (i * 10 + BitVec.ofNat 32 (c.toNat - '0'.toNat)) s else (i, c :: s)
  | [] => (i, [])

/-- Where a conversion is: its flags, and what is left of the format and of the arguments. -/
structure Conv where
  flags : Flags
  fmt : List Char
  args : List Arg

/-- `va_arg(args, int)`. -/
def vaInt : List Arg → Option (BitVec 32 × List Arg)
  | .int v :: args => some (v, args)
  | _ => none

/-- `field_width`. -/
def fieldWidth (s : Conv) : Option (BitVec 32 × Conv) :=
  match s.fmt with
  | '*' :: fmt => (vaInt s.args).map fun (width, args) =>
    if width.toInt < 0 then (-width, ⟨{ s.flags with left := true }, fmt, args⟩) else (width, { s with fmt, args })
  | c :: fmt =>
    if isdigit c then
      let (width, fmt) := skipAtoi 0 (c :: fmt)
      some (width, { s with fmt })
    else some (-1, s)
  | [] => some (-1, s)

/-- `if (precision < 0) precision = 0`. -/
def notNegative (precision : BitVec 32) : BitVec 32 := if precision.toInt < 0 then 0 else precision

/-- `precision`. -/
def precisionOf (s : Conv) : Option (BitVec 32 × Conv) :=
  match s.fmt with
  | '.' :: '*' :: fmt => (vaInt s.args).map fun (precision, args) => (notNegative precision, { s with fmt, args })
  | '.' :: c :: fmt =>
    if isdigit c then
      let (precision, fmt) := skipAtoi 0 (c :: fmt)
      some (notNegative precision, { s with fmt })
    else some (notNegative (-1), { s with fmt := c :: fmt })
  | ['.'] => some (notNegative (-1), { s with fmt := [] })
  | _ => some (-1, s)

/-- `qualifier`. -/
def qualifierOf (s : Conv) : Option Char × Conv :=
  match s.fmt with
  | 'h' :: fmt => (some 'h', { s with fmt })
  | 'l' :: fmt => (some 'l', { s with fmt })
  | _ => (none, s)

/-- `num`, from its argument. -/
def numOf (qualifier : Option Char) (flags : Flags) (v : BitVec 32) : BitVec 32 :=
  if qualifier = some 'h' then
    if flags.sign then (v.setWidth 16).signExtend 32 else (v.setWidth 16).setWidth 32
  else v

/-- The characters of a string, to its `'\0'`. -/
def cString (s : List Char) : List Char := s.takeWhile (· ≠ '\x00')

section Sinks

variable (special : Bool) {σ : Type} (put : σ → Char → σ)

/-- The conversion `c`. -/
def convChar (str : σ) (width : BitVec 32) (s : Conv) : Option (σ × Conv) := do
  let str := if s.flags.left then str else fill put ' ' (runs (width - 1)) str
  let width := if s.flags.left then width else behindPre width
  let (v, args) ← vaInt s.args
  let str := put str (Char.ofNat (v.toNat % 256))
  return (fill put ' ' (runs (width - 1)) str, { s with args })

/-- The conversion `s`. -/
def convStr (str : σ) (width precision : BitVec 32) (s : Conv) : Option (σ × Conv) :=
  match s.args with
  | .str p :: args =>
    let p := cString (p.getD ['(', 'N', 'U', 'L', 'L', ')'])
    let len := BitVec.ofNat 32 p.length
    let len := if 0 < precision.toInt ∧ precision.toInt < len.toInt then precision else len
    let str := if s.flags.left then str else fill put ' ' (width.toInt - len.toInt).toNat str
    let width := if s.flags.left then width else behindLen len width
    let str := (p.take (runs len)).foldl put str
    some (fill put ' ' (width.toInt - len.toInt).toNat str, { s with args })
  | _ => none

/-- An integer conversion. -/
def convInt (str : σ) (base : ℕ) (width precision : BitVec 32) (qualifier : Option Char) (s : Conv) :
    Option (σ × Conv) :=
  (vaInt s.args).map fun (v, args) =>
    (printNumber special put str (numOf qualifier s.flags v) base width precision s.flags, { s with args })

/-- The `switch` over the conversion. -/
def convert (str : σ) (width precision : BitVec 32) (qualifier : Option Char) (s : Conv) : Option (σ × Conv) :=
  match s.fmt with
  | 'c' :: fmt => convChar put str width { s with fmt }
  | 's' :: fmt => convStr put str width precision { s with fmt }
  | 'p' :: fmt =>
    if width = -1 then convInt special put str 16 8 precision none ⟨{ s.flags with zeropad := true }, fmt, s.args⟩
    else convInt special put str 16 width precision none { s with fmt }
  | '%' :: fmt => some (put str '%', { s with fmt })
  | 'o' :: fmt => convInt special put str 8 width precision qualifier { s with fmt }
  | 'X' :: fmt => convInt special put str 16 width precision qualifier ⟨{ s.flags with large := true }, fmt, s.args⟩
  | 'x' :: fmt => convInt special put str 16 width precision qualifier { s with fmt }
  | 'd' :: fmt | 'i' :: fmt =>
    convInt special put str 10 width precision qualifier ⟨{ s.flags with sign := true }, fmt, s.args⟩
  | 'u' :: fmt => convInt special put str 10 width precision qualifier { s with fmt }
  | c :: fmt => if c = '\x00' then some (put str '%', s) else some (put (put str '%') c, { s with fmt })
  | [] => some (put str '%', s)

/-- A conversion, behind its `'%'`. -/
def conversion (str : σ) (fmt : List Char) (args : List Arg) : Option (σ × Conv) := do
  let (flags, fmt) := flagsOf ⟨false, false, false, false, false, false, false⟩ fmt
  let (width, s) ← fieldWidth ⟨flags, fmt, args⟩
  let (precision, s) ← precisionOf s
  let (qualifier, s) := qualifierOf s
  convert special put str width precision qualifier s

end Sinks

/-! ## The format gets shorter -/

theorem flagsOf_length (flags : Flags) (fmt : List Char) : (flagsOf flags fmt).2.length ≤ fmt.length := by
  fun_induction flagsOf flags fmt with
  | case1 _ _ ih | case2 _ _ ih | case3 _ _ ih | case4 _ _ ih | case5 _ _ ih => exact Nat.le_succ_of_le ih
  | case6 => exact Nat.le_refl _

theorem skipAtoi_length (i : BitVec 32) (s : List Char) : (skipAtoi i s).2.length ≤ s.length := by
  fun_induction skipAtoi i s with
  | case1 i c s h ih => exact Nat.le_succ_of_le ih
  | case2 => exact Nat.le_refl _
  | case3 => exact Nat.le_refl _

theorem fieldWidth_length {s s' : Conv} {width : BitVec 32} (h : fieldWidth s = some (width, s')) :
    s'.fmt.length ≤ s.fmt.length := by
  unfold fieldWidth at h
  split at h
  · rename_i fmt hfmt
    obtain ⟨⟨v, args⟩, -, he⟩ := Option.map_eq_some_iff.1 h
    simp only at he
    rw [hfmt, List.length_cons]
    split at he
    all_goals
      cases he
      exact Nat.le_succ _
  · rename_i c fmt _ hfmt
    rw [hfmt]
    split at h
    · cases h
      exact skipAtoi_length 0 (c :: fmt)
    · cases h
      rw [hfmt]
  · cases h
    exact Nat.le_refl _

theorem precisionOf_length {s s' : Conv} {precision : BitVec 32} (h : precisionOf s = some (precision, s')) :
    s'.fmt.length ≤ s.fmt.length := by
  unfold precisionOf at h
  split at h
  · rename_i fmt hfmt
    obtain ⟨⟨v, args⟩, -, he⟩ := Option.map_eq_some_iff.1 h
    cases he
    rw [hfmt, List.length_cons, List.length_cons]
    exact Nat.le_trans (Nat.le_succ _) (Nat.le_succ _)
  · rename_i c fmt _ hfmt
    rw [hfmt, List.length_cons]
    split at h
    · cases h
      exact Nat.le_succ_of_le (skipAtoi_length 0 (c :: fmt))
    · cases h
      exact Nat.le_succ _
  · rename_i hfmt
    cases h
    exact Nat.zero_le _
  · cases h
    exact Nat.le_refl _

theorem qualifierOf_length (s : Conv) : (qualifierOf s).2.fmt.length ≤ s.fmt.length := by
  unfold qualifierOf
  split
  · rename_i fmt hfmt
    rw [hfmt]
    exact Nat.le_succ _
  · rename_i fmt hfmt
    rw [hfmt]
    exact Nat.le_succ _
  · exact Nat.le_refl _

section Sinks

variable {special : Bool} {σ : Type} {put : σ → Char → σ} {str str' : σ} {width precision : BitVec 32}
  {qualifier : Option Char} {s s' : Conv}

theorem convChar_fmt (h : convChar put str width s = some (str', s')) : s'.fmt = s.fmt := by
  unfold convChar at h
  obtain ⟨x, -, he⟩ := Option.bind_eq_some_iff.1 h
  cases he
  rfl

theorem convStr_fmt (h : convStr put str width precision s = some (str', s')) : s'.fmt = s.fmt := by
  unfold convStr at h
  split at h
  · cases h
    rfl
  · cases h

theorem convInt_fmt {base : ℕ} (h : convInt special put str base width precision qualifier s = some (str', s')) :
    s'.fmt = s.fmt := by
  unfold convInt at h
  obtain ⟨x, -, he⟩ := Option.map_eq_some_iff.1 h
  cases he
  rfl

theorem convert_length (h : convert special put str width precision qualifier s = some (str', s')) :
    s'.fmt.length ≤ s.fmt.length := by
  unfold convert at h
  split at h
  case h_1 _ hfmt =>
    rw [convChar_fmt h, hfmt]
    exact Nat.le_succ _
  case h_2 _ hfmt =>
    rw [convStr_fmt h, hfmt]
    exact Nat.le_succ _
  case h_3 _ hfmt =>
    split at h
    all_goals
      rw [convInt_fmt h, hfmt]
      exact Nat.le_succ _
  case h_4 _ hfmt =>
    cases h
    rw [hfmt]
    exact Nat.le_succ _
  case h_11 _ _ _ _ _ _ _ _ _ _ _ _ hfmt =>
    split at h
    · cases h
      exact Nat.le_refl _
    · cases h
      rw [hfmt]
      exact Nat.le_succ _
  case h_12 hfmt =>
    cases h
    exact Nat.le_refl _
  all_goals
    rename_i hfmt
    rw [convInt_fmt h, hfmt]
    exact Nat.le_succ _

theorem conversion_length {fmt : List Char} {args : List Arg}
    (h : conversion special put str fmt args = some (str', s')) : s'.fmt.length ≤ fmt.length := by
  unfold conversion at h
  simp only [Option.bind_eq_bind, Option.bind_eq_some_iff] at h
  obtain ⟨⟨w, s₁⟩, h₁, ⟨p, s₂⟩, h₂, h⟩ := h
  have h₃ := convert_length h
  have h₄ := qualifierOf_length s₂
  have h₅ := precisionOf_length h₂
  have h₆ := fieldWidth_length h₁
  have h₇ := flagsOf_length ⟨false, false, false, false, false, false, false⟩ fmt
  simp only at h₃ h₅ h₆
  omega

end Sinks

/-! ## The loop -/

/-- The `for` loop of `rt_vsnprintf`. -/
def formatLoop (special : Bool) {σ : Type} (put : σ → Char → σ) (str : σ) (fmt : List Char) (args : List Arg) :
    Option σ :=
  match fmt with
  | [] => some str
  | c :: fmt =>
    if c = '\x00' then some str
    else if c = '%' then
      match _h : conversion special put str fmt args with
      | none => none
      | some (str, s) => formatLoop special put str s.fmt s.args
    else formatLoop special put (put str c) fmt args
termination_by fmt.length
decreasing_by
  · exact Nat.lt_succ_of_le (conversion_length _h)
  · exact Nat.lt_succ_self _

/-- A 32-bit address. -/
def address (n : ℕ) : ℕ := n % 2 ^ 32

/-- `rt_vsnprintf` with the bytes of the memory: the bytes behind it, and what it returns. -/
def rtVsnprintf (special : Bool) (mem : ℕ → Char) (buf size : ℕ) (fmt : List Char) (args : List Arg) :
    Option ((ℕ → Char) × BitVec 32) := do
  let bound := address (buf + size)
  let (bound, size) := if bound < buf then (2 ^ 32 - 1, 2 ^ 32 - 1 - buf) else (bound, size)
  let s ← formatLoop special (Emit.Cursor.put 32 bound) ⟨mem, buf⟩ fmt args
  let mem :=
    if 0 < size then
      if s.str < bound then Function.update s.mem s.str '\x00' else Function.update s.mem (bound - 1) '\x00'
    else s.mem
  return (mem, BitVec.ofNat 32 s.str - BitVec.ofNat 32 buf)

/-- What an unlimited buffer receives. -/
def output (special : Bool) (fmt : List Char) (args : List Arg) : Option (List Char) :=
  formatLoop special (fun l c => l ++ [c]) [] fmt args

/-- What `rt_vsnprintf` uses of the buffer: an end behind the address space is cut to the last address. -/
def room (buf size : ℕ) : ℕ := min size (2 ^ 32 - 1 - buf)

end RtThread.Kservice
