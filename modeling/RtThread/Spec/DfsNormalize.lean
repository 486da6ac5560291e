import RtThread.Spec.DfsFs

/-!
# `dfs_normalize_path` in its buffer (`dfs.c`)

The allocated string with its terminating zero, and the two cursors `src` and `dst`. Every read and every write is of
one character; a function that reads or writes outside the allocated string is `none`. The inner `none` of
`dfs_normalize_path` is the null pointer.
-/

namespace RtThread.DfsNormalize

open Pathname

def NUL : Char := '\x00'

/-- A write of one character. -/
def store (buf : Text) (i : ℕ) (c : Char) : Option Text := if i < buf.length then some (buf.set i c) else none

/-- `while ((*src == '/') && (*src != '\0')) src ++`: the cursor in front of what is not a slash. The first argument
bounds the rounds by the length of the string, outside of which the next one would read. -/
def skipSlashes (buf : Text) : ℕ → ℕ → Option ℕ
  | 0, _ => none
  | n + 1, src =>
    match buf[src]? with
    | none => none
    | some c => if c = '/' then skipSlashes buf n (src + 1) else some src

/-- `while ((c = *src++) != '\0' && c != '/') *dst ++ = c`: the last `c`, the string and the cursors. -/
def copyUp : ℕ → Text → ℕ → ℕ → Option (Char × Text × ℕ × ℕ)
  | 0, _, _, _ => none
  | n + 1, buf, src, dst =>
    match buf[src]? with
    | none => none
    | some c =>
      if c ≠ NUL ∧ c ≠ '/' then (store buf dst c).bind fun buf => copyUp n buf (src + 1) (dst + 1)
      else some (c, buf, src + 1, dst)

/-- `while (dst0 < dst && dst[-1] != '/') dst --`. -/
def back (buf : Text) : ℕ → Option ℕ
  | 0 => some 0
  | dst + 1 =>
    match buf[dst]? with
    | none => none
    | some c => if c ≠ '/' then back buf dst else some (dst + 1)

/-- Where the tests for dots lead, with `src`: to the copy of a component, to the next round, or to `up_one`. -/
inductive Branch
  | copy (src : ℕ)
  | next (src : ℕ)
  | upOne (src : ℕ)
  deriving DecidableEq

def branch (buf : Text) (src : ℕ) : Option Branch :=
  match buf[src]? with
  | none => none
  | some c =>
    if c ≠ '.' then some (.copy src)
    else
      match buf[src + 1]? with
      | none => none
      | some c₁ =>
        if c₁ = NUL then some (.copy (src + 1))
        else if c₁ = '/' then (skipSlashes buf buf.length (src + 2)).map .next
        else if c₁ = '.' then
          match buf[src + 2]? with
          | none => none
          | some c₂ =>
            if c₂ = NUL then some (.upOne (src + 2))
            else if c₂ = '/' then (skipSlashes buf buf.length (src + 3)).map .upOne
            else some (.copy src)
        else some (.copy src)

/-- The string from the end of the loop on. In front of an empty string a byte is read that is not part of it. -/
def ending (buf : Text) (dst : ℕ) : Option Text :=
  match store buf dst NUL with
  | none => none
  | some buf =>
    if dst = 0 then none
    else
      match if dst - 1 ≠ 0 ∧ buf[dst - 1]? = some '/' then store buf (dst - 1) NUL else some buf with
      | none => none
      | some buf => if buf[0]? = some NUL then (store buf 0 '/').bind fun buf => store buf 1 NUL else some buf

/-- The loop, and what follows it. A round takes `src` further, so that there are no more rounds than characters. -/
def normalizeLoop : ℕ → Text → ℕ → ℕ → Option (Option Text)
  | 0, _, _, _ => none
  | n + 1, buf, src, dst =>
    match branch buf src with
    | none => none
    | some (.next src) => normalizeLoop n buf src dst
    | some (.upOne src) =>
      if dst = 0 then some none
      else
        match back buf (dst - 1) with
        | none => none
        | some dst => normalizeLoop n buf src dst
    | some (.copy src) =>
      match copyUp buf.length buf src dst with
      | none => none
      | some (c, buf, src, dst) =>
        if c = '/' then
          match store buf dst '/' with
          | none => none
          | some buf =>
            -- `while (c == '/') c = *src++; src --`
            match skipSlashes buf buf.length src with
            | none => none
            | some src => normalizeLoop n buf src (dst + 1)
        else (ending buf dst).map some

/-- What a pointer to a string points to. -/
def str (buf : Text) : Text := buf.takeWhile (· ≠ NUL)

/-- `dfs_normalize_path`, where there is memory. -/
def dfsNormalizePath (directory filename : Text) : Option (Option Text) :=
  let fullpath := DfsFs.fullName directory filename ++ [NUL]
  (normalizeLoop fullpath.length fullpath 0 0).map (Option.map str)

/-! ## What a file name stands for -/

/-- A string: no character of it is zero. -/
structure Name where
  text : Text
  noNul : NUL ∉ text

/-- A canonical absolute directory. -/
structure Directory where
  components : List Text
  valid : ∀ c ∈ components, Component c
  noNul : ∀ c ∈ components, NUL ∉ c

def Directory.text (directory : Directory) : Text := render directory.components

/-- A component of a file name: `..` takes the last component away, and above the root there is nothing. -/
def climb (stack : List Text) (c : Text) : Option (List Text) :=
  if c = [] ∨ c = ['.'] then some stack
  else if c = ['.', '.'] then if stack = [] then none else some stack.dropLast
  else some (stack ++ [c])

/-- Where a file name starts: at the root, or in the directory. -/
def origin (directory : Directory) (filename : Text) : List Text :=
  if filename.head? = some '/' then [] else directory.components

/-- The lexical resolution of a file name against a directory; `none` above the root. -/
def resolve (directory : Directory) (filename : Text) : Option (List Text) :=
  (filename.splitOn '/').foldlM climb (origin directory filename)

/-- **A path is normalized**: nothing outside of the allocated string is read or written; the null pointer is returned
where the file name leads above the root, and there alone; a path that is returned is canonical, the resolution of the
file name, and normalized to itself in every directory. -/
def Normalizes (directory : Directory) (filename : Text) : Prop :=
  ∃ r, dfsNormalizePath directory.text filename = some r ∧ (r = none ↔ resolve directory filename = none) ∧
    ∀ p ∈ r, Canonical p ∧ (resolve directory filename).map render = some p ∧
      ∀ directory' : Directory, dfsNormalizePath directory'.text p = some (some p)

/-- Exactly one `..` leads above the root: in front of it there is nothing left, and what follows it does not lead
above the root once more. -/
def ClimbsOnce (directory : Directory) (filename : Text) : Prop :=
  ∃ front rest, filename.splitOn '/' = front ++ ['.', '.'] :: rest ∧
    front.foldlM climb (origin directory filename) = some [] ∧ (rest.foldlM climb []).isSome = true

end RtThread.DfsNormalize
