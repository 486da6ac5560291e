import RtThread.Spec.Shell

/-!
# The arguments of a command line (`components/finsh/msh.c`)

What `msh_split` is for: a line as a sequence of tokens. A word is a run without blanks that does not begin with a
quote; a quoted token is what lies between a quote and the next one that is not behind a backslash, or the end of
the line.
-/

namespace RtThread.Shell

/-- A token, with the place of its first character. -/
structure Token where
  offset : ℕ
  text : Text
  deriving DecidableEq

/-- What lies before the next quote that is not behind a backslash; `prev` is the character before it. -/
def quotedText (prev : Byte) : Text → Text
  | [] => []
  | c :: line => if c = 0x22 ∧ prev ≠ 0x5c then [] else c :: quotedText c line

theorem length_quotedText (prev : Byte) (line : Text) : (quotedText prev line).length ≤ line.length := by
  induction line generalizing prev with
  | nil => exact Nat.le_refl 0
  | cons c line ih =>
    rw [quotedText]
    split
    · exact Nat.zero_le _
    · exact Nat.succ_le_succ (ih c)

/-- The tokens of a line that begins at `position`. -/
def tokens (position : ℕ) : Text → List Token
  | [] => []
  | c :: line =>
    if blank c then tokens (position + 1) line
    else if c = 0x22 then
      let text := quotedText c line
      ⟨position + 1, text⟩ :: tokens (position + text.length + 2) (line.drop (text.length + 1))
    else
      let text := line.takeWhile fun d => !blank d
      ⟨position, c :: text⟩ :: tokens (position + text.length + 1) (line.drop text.length)
termination_by line => line.length
decreasing_by
  · exact Nat.lt_succ_self _
  · rw [List.length_drop]
    exact Nat.lt_succ_of_le (Nat.sub_le _ _)
  · rw [List.length_drop]
    exact Nat.lt_succ_of_le (Nat.sub_le _ _)

/-- **The line is split**: `argv` are the places of the first tokens, in order and apart from each other with their
zeros; in `cmd`, which is the line with zeros in it and unchanged behind it, each of them is a string. -/
structure Splits (line rest : Text) (argv : List ℕ) (cmd : Text) : Prop where
  argc : argv.length ≤ FINSH_ARG_MAX
  argv : argv = ((tokens 0 line).take FINSH_ARG_MAX).map (·.offset)
  apart : ((tokens 0 line).take FINSH_ARG_MAX).Pairwise fun a b => a.offset + a.text.length < b.offset
  strings : ∀ t ∈ (tokens 0 line).take FINSH_ARG_MAX, Buffer.string cmd t.offset = some t.text
  inside : cmd.length = (line ++ 0 :: rest).length ∧ cmd.drop line.length = 0 :: rest

end RtThread.Shell
