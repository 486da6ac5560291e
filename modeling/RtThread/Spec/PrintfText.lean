import RtThread.Spec.Printf

/-!
# The text of a conversion

What the C standard prescribes for a conversion `%[flags][width][.precision][h|l]` to `d`, `i`, `u`, `o`, `x` or `X`,
and where the code produces it. For `d`, `i` and `u` the standard leaves the flag `#` without a meaning: it changes
nothing.
-/

namespace RtThread.Kservice

inductive Flag
  | minus
  | plus
  | space
  | hash
  | zero
  deriving DecidableEq

def Flag.char : Flag → Char
  | .minus => '-'
  | .plus => '+'
  | .space => ' '
  | .hash => '#'
  | .zero => '0'

inductive Qualifier
  | h
  | l
  deriving DecidableEq

def Qualifier.char : Qualifier → Char
  | .h => 'h'
  | .l => 'l'

inductive IntConv
  | d
  | i
  | u
  | o
  | x
  | upperX
  deriving DecidableEq

def IntConv.char : IntConv → Char
  | .d => 'd'
  | .i => 'i'
  | .u => 'u'
  | .o => 'o'
  | .x => 'x'
  | .upperX => 'X'

def IntConv.base : IntConv → ℕ
  | .d | .i | .u => 10
  | .o => 8
  | .x | .upperX => 16

def IntConv.signed : IntConv → Bool
  | .d | .i => true
  | .u | .o | .x | .upperX => false

/-- A width or a precision: decimal digits, or `*` with the argument that it takes. -/
inductive Field
  | digits (ds : List (Fin 10))
  | star (v : BitVec 32)

/-- The number that decimal digits denote. -/
def number (ds : List (Fin 10)) : ℕ := ds.foldl (fun n d => n * 10 + d.val) 0

def Field.text : Field → List Char
  | .digits ds => ds.map fun d => Char.ofNat ('0'.toNat + d.val)
  | .star _ => ['*']

def Field.args : Field → List Arg
  | .digits _ => []
  | .star v => [.int v]

/-- The number fits an `int`. -/
def Field.Small : Field → Prop
  | .digits ds => number ds < 2 ^ 31
  | .star _ => True

/-- A conversion. A width in digits does not start with the flag `0`; a precision may have no digits. -/
structure Directive where
  flags : List Flag
  width : Option Field
  precision : Option Field
  qualifier : Option Qualifier
  conv : IntConv
  width_starts : ∀ ds, width = some (.digits ds) → ∃ d l, ds = d :: l ∧ d ≠ 0
  width_small : ∀ f, width = some f → f.Small
  precision_small : ∀ f, precision = some f → f.Small

/-- A numeral without leading zeros; there are no digits for 0. -/
def numeral (base : ℕ) (large : Bool) (n : ℕ) : List Char := ((Nat.digits base n).map (digit large)).reverse

namespace Directive

variable (d : Directive) (v : BitVec 32)

def format : List Char :=
  '%' :: (d.flags.map Flag.char ++ ((d.width.elim [] Field.text) ++
    ((d.precision.elim [] fun f => '.' :: f.text) ++ ((d.qualifier.map Qualifier.char).toList ++ [d.conv.char]))))

/-- The arguments of the conversion, `v` the one that it converts. -/
def args : List Arg := d.width.elim [] Field.args ++ (d.precision.elim [] Field.args ++ [.int v])

/-! ## What C prescribes -/

/-- A negative width is a flag `-` and a positive width. -/
def left : Bool :=
  d.flags.contains .minus || match d.width with
    | some (.star w) => decide (w.toInt < 0)
    | _ => false

def minWidth : ℕ :=
  match d.width with
  | none => 0
  | some (.digits ds) => number ds
  | some (.star w) => w.toInt.natAbs

/-- The precision. One that is negative is as good as none. -/
def minDigits : Option ℕ :=
  match d.precision with
  | none => none
  | some (.digits ds) => some (number ds)
  | some (.star p) => if p.toInt < 0 then none else some p.toInt.toNat

/-- The value that is converted: the argument, made a `short` by `h`. -/
def value : ℤ :=
  if d.qualifier = some .h then
    if d.conv.signed then (v.setWidth 16).toInt else (v.setWidth 16).toNat
  else if d.conv.signed then v.toInt else v.toNat

def magnitude : ℕ := (d.value v).natAbs

def sign : List Char :=
  if d.conv.signed then
    if d.value v < 0 then ['-']
    else if Flag.plus ∈ d.flags then ['+']
    else if Flag.space ∈ d.flags then [' ']
    else []
  else []

/-- The digits, at least as many as the precision says; `#` makes the first digit of an octal number a `0`. -/
def digits : List Char :=
  let num := numeral d.conv.base (d.conv = .upperX) (d.magnitude v)
  let num := List.replicate (d.minDigits.getD 1 - num.length) '0' ++ num
  if Flag.hash ∈ d.flags ∧ d.conv = .o ∧ num.head? ≠ some '0' then '0' :: num else num

/-- The mark that `#` puts before a hexadecimal number other than 0. -/
def mark : List Char :=
  if Flag.hash ∈ d.flags ∧ d.magnitude v ≠ 0 then
    match d.conv with
    | .x => ['0', 'x']
    | .upperX => ['0', 'X']
    | _ => []
  else []

/-- The text of a conversion. -/
def text : List Char :=
  let pad := d.minWidth - (d.sign v ++ d.mark v ++ d.digits v).length
  if d.left then d.sign v ++ d.mark v ++ d.digits v ++ List.replicate pad ' '
  else if Flag.zero ∈ d.flags ∧ d.minDigits = none then
    d.sign v ++ d.mark v ++ List.replicate pad '0' ++ d.digits v
  else List.replicate pad ' ' ++ d.sign v ++ d.mark v ++ d.digits v

/-! ## Where the code meets it -/

/-- The precision that the code takes: 0 for a negative one. -/
def given : Option ℕ := d.precision.map fun f =>
  match f with
  | .digits ds => number ds
  | .star p => p.toInt.toNat

/-- The code pads with zeros. -/
def zeros : Prop := Flag.zero ∈ d.flags ∧ d.left = false

instance : Decidable d.zeros := inferInstanceAs (Decidable (_ ∧ _))

/-- What `#` takes of the size, also for the value 0. -/
def special : ℕ :=
  if Flag.hash ∈ d.flags then
    match d.conv with
    | .x | .upperX => 2
    | .o => 1
    | _ => 0
  else 0

/-- How often the code takes one from a size that is used up. -/
def steps : ℕ := if d.left then 0 else if Flag.zero ∈ d.flags then 1 else 2

/-- The size as an `int` starts at -1 where there is no width. -/
def start : ℕ := if d.width.isSome then d.minWidth + 1 else 0

/-- **The condition** on which the code produces the text. -/
structure Meets : Prop where
  /-- The digits of an octal number are those of the hexadecimal one. -/
  octal : d.conv = .o → d.magnitude v < 8
  /-- The size does not pass the least `int`. -/
  counter : ∀ p, d.given = some p → p + d.special + (d.sign v).length + d.steps + 1 ≤ 2 ^ 31 + d.start
  omitted : d.given = none → Flag.hash ∈ d.flags → d.magnitude v = 0 →
    d.conv.base = 10 ∨ d.conv = .o ∧ d.zeros ∧ 2 ≤ d.minWidth
  /-- No digits are printed: the value is 0 and leaves no room for one. -/
  none : d.given = some 0 → d.magnitude v = 0 ∧
    if Flag.hash ∈ d.flags ∧ d.conv = .o then d.minWidth ≤ 1
    else d.minDigits = some 0 ∧ d.minWidth ≤ (d.sign v).length ∧ (Flag.hash ∈ d.flags → d.conv.base = 10)
  /-- A precision makes the flag `0` void. -/
  some : ∀ p, d.given = some p → 0 < p →
    (d.zeros → d.minWidth ≤ (d.sign v).length + d.special +
      max p (numeral d.conv.base false (d.magnitude v)).length) ∧
    (Flag.hash ∈ d.flags → d.conv.base ≠ 10 → d.magnitude v ≠ 0 ∧ (d.conv = .o → p = 1))

end Directive

end RtThread.Kservice
