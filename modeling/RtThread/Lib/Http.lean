import Mathlib.Data.List.Basic

/-!
# HTTP/1.1 requests

A request is read off a stream of characters: lines up to the first empty one, of which the first is the request line
and the others are fields, and as many characters more as the one field `Content-Length` says. What is left over is
where the next request begins.

* `head_lines`: the lines of a header, read back.
* `parse_format`: **a well-formed request reads back**, with all that is behind it left over.
-/

namespace Http

def crlf : List Char := ['\r', '\n']

/-- The lines up to the first empty one, and what is behind it; `cur` has been read of the first line. -/
def head (cur : List Char) : List Char → Option (List (List Char) × List Char)
  | '\r' :: '\n' :: rest =>
    if cur = [] then some ([], rest) else (head [] rest).map fun h => (cur :: h.1, h.2)
  | c :: rest => head (cur ++ [c]) rest
  | [] => none

/-- A name, a colon, and a value. -/
def field (line : List Char) : Option (List Char × List Char) :=
  if ':' ∈ line then some (line.takeWhile (· ≠ ':'), (line.dropWhile (· ≠ ':')).tail) else none

/-- A decimal number. -/
def decimal (text : List Char) : Option ℕ :=
  if text ≠ [] ∧ text.all Char.isDigit then some (Nat.ofDigitChars 10 text 0) else none

/-- The name of a field is not case-sensitive. -/
def isContentLength (field : List Char × List Char) : Bool :=
  field.1.map Char.toLower = "content-length".toList

structure Request where
  method : List Char
  target : List Char
  fields : List (List Char × List Char)
  body : List Char
  deriving DecidableEq

/-- The first request, and what is left over. -/
def parse (text : List Char) : Option (Request × List Char) := do
  let (lines, rest) ← head [] text
  let fields ← lines.tail.mapM field
  match lines.head?.map (List.splitOn ' '), fields.filter isContentLength with
  | some [method, target, version], [(_, value)] =>
    let n ← decimal value
    if version = "HTTP/1.1".toList ∧ n ≤ rest.length then
      some (⟨method, target, fields, rest.take n⟩, rest.drop n)
    else none
  | _, _ => none

namespace Request

variable (r : Request)

def requestLine : List Char := r.method ++ ' ' :: r.target ++ ' ' :: "HTTP/1.1".toList

def lines : List (List Char) := r.requestLine :: r.fields.map fun f => f.1 ++ ':' :: f.2

/-- The request as it is sent. -/
def format : List Char := r.lines.flatMap (· ++ crlf) ++ crlf ++ r.body

structure WellFormed : Prop where
  method : ' ' ∉ r.method ∧ '\r' ∉ r.method
  target : ' ' ∉ r.target ∧ '\r' ∉ r.target
  names : ∀ f ∈ r.fields, ':' ∉ f.1 ∧ '\r' ∉ f.1
  values : ∀ f ∈ r.fields, '\r' ∉ f.2
  length : ∃ f, r.fields.filter isContentLength = [f] ∧ decimal f.2 = some r.body.length

end Request

theorem decimal_toDigits (n : ℕ) : decimal (Nat.toDigits 10 n) = some n := by
  have hdigits : ∀ c ∈ Nat.toDigits 10 n, c.isDigit := fun c hc =>
    Nat.isDigit_of_mem_toDigits (by decide) (by decide) hc
  rw [decimal, if_pos ⟨Nat.toDigits_ne_nil, List.all_eq_true.2 hdigits⟩, Nat.ofDigitChars_toDigits (by decide) (by decide)]

/-- A line is read as a whole. -/
theorem head_line {line : List Char} (h : '\r' ∉ line) (cur rest : List Char) (hne : cur ++ line ≠ []) :
    head cur (line ++ (crlf ++ rest)) = (head [] rest).map fun h => ((cur ++ line) :: h.1, h.2) := by
  induction line generalizing cur with
  | nil =>
    rw [List.append_nil] at hne
    rw [List.nil_append, List.append_nil, crlf, List.cons_append, List.cons_append, List.nil_append, head, if_neg hne]
  | cons c line ih =>
    obtain ⟨hc, hline⟩ := not_or.1 (List.mem_cons.not.1 h)
    rw [List.cons_append, head]
    · rw [ih hline (cur ++ [c]) (by simp)]
      simp
    · rintro rest' rfl
      exact absurd rfl hc

theorem head_lines {lines : List (List Char)} (h : ∀ l ∈ lines, l ≠ [] ∧ '\r' ∉ l) (rest : List Char) :
    head [] (lines.flatMap (· ++ crlf) ++ (crlf ++ rest)) = some (lines, rest) := by
  induction lines with
  | nil => rfl
  | cons l lines ih =>
    obtain ⟨hl, hlines⟩ := List.forall_mem_cons.1 h
    rw [List.flatMap_cons, List.append_assoc, List.append_assoc, head_line hl.2 _ _ (by simpa using hl.1), ih hlines]
    rfl

theorem field_colon {name : List Char} (h : ':' ∉ name) (value : List Char) :
    field (name ++ ':' :: value) = some (name, value) := by
  have hmem : ':' ∈ name ++ ':' :: value := by simp
  have hname : ∀ c ∈ name, decide (c ≠ ':') = true := by
    intro c hc
    apply decide_eq_true
    rintro rfl
    exact h hc
  rw [field, if_pos hmem, List.takeWhile_append_of_pos hname, List.dropWhile_append_of_pos hname]
  simp

theorem mapM_field {fields : List (List Char × List Char)} (h : ∀ f ∈ fields, ':' ∉ f.1) :
    (fields.map fun f => f.1 ++ ':' :: f.2).mapM field = some fields := by
  induction fields with
  | nil => rfl
  | cons f fields ih =>
    obtain ⟨hf, hfields⟩ := List.forall_mem_cons.1 h
    rw [List.map_cons, List.mapM_cons, field_colon hf, ih hfields]
    rfl

namespace Request

variable {r : Request}

theorem splitOn_requestLine (h : r.WellFormed) :
    r.requestLine.splitOn ' ' = [r.method, r.target, "HTTP/1.1".toList] := by
  have hline : r.requestLine = [' '].intercalate [r.method, r.target, "HTTP/1.1".toList] := by
    simp [requestLine, List.intercalate]
  rw [hline]
  apply List.splitOn_intercalate
  · intro l hl
    simp only [List.mem_cons, List.not_mem_nil, or_false] at hl
    obtain rfl | rfl | rfl := hl
    · exact h.method.1
    · exact h.target.1
    · decide
  · nofun

theorem mem_lines (h : r.WellFormed) : ∀ l ∈ r.lines, l ≠ [] ∧ '\r' ∉ l := by
  intro l hl
  obtain rfl | hl := List.mem_cons.1 hl
  · refine ⟨by simp [requestLine], ?_⟩
    simp [requestLine, h.method.2, h.target.2]
  · obtain ⟨f, hf, rfl⟩ := List.mem_map.1 hl
    refine ⟨by simp, ?_⟩
    simp [(h.names f hf).2, h.values f hf]

end Request

/-- **A well-formed request reads back**, with all that is behind it left over. -/
theorem parse_format {r : Request} (h : r.WellFormed) (rest : List Char) :
    parse (r.format ++ rest) = some (r, rest) := by
  have hhead : head [] (r.format ++ rest) = some (r.lines, r.body ++ rest) := by
    rw [Request.format, List.append_assoc, List.append_assoc]
    exact head_lines (Request.mem_lines h) _
  have hfields : r.lines.tail.mapM field = some r.fields := mapM_field fun f hf => (h.names f hf).1
  have hline : r.lines.head?.map (List.splitOn ' ') = some [r.method, r.target, "HTTP/1.1".toList] :=
    congrArg some (Request.splitOn_requestLine h)
  obtain ⟨⟨name, value⟩, hfilter, hlength⟩ := h.length
  have hfits : r.body.length ≤ (r.body ++ rest).length := by
    rw [List.length_append]
    exact Nat.le_add_right _ _
  rw [parse, hhead]
  simp only [Option.bind_eq_bind, Option.bind_some, hfields, hline, hfilter]
  rw [hlength, Option.bind_some, if_pos ⟨trivial, hfits⟩, List.take_left, List.drop_left]

end Http
