import RtThread.Lib.Recent
import RtThread.Spec.Shell

/-!
# The history of the shell (`components/finsh/shell.c`)

What `cmd_history` is for: the last lines entered.
-/

namespace RtThread.Shell

open Buffer Recent

/-- The key ends the line, whatever arrow it comes after. -/
def Ends (k : Env × Byte) : Prop := k.2 = 0x0d ∨ k.2 = 0x0a

instance (k : Env × Byte) : Decidable (Ends k) := inferInstanceAs (Decidable (_ ∨ _))

/-- The lines entered with a sequence of keys. -/
def entered (s : FinshShell) : List (Env × Byte) → List Text
  | [] => []
  | k :: ks =>
    (if Ends k then [s.line.take s.linePosition] else []) ++
      match step s k with
      | some (s', _) => entered s' ks
      | none => []

/-- The last of the non-empty lines; a line that repeats the one before counts once. -/
def kept (lines : List Text) : List Text := recent FINSH_HISTORY_LINES (lines.filter (· ≠ []))

/-- **The history is that of these lines.** -/
structure Remembers (s : FinshShell) (lines : List Text) : Prop where
  count : s.historyCount = (kept lines).length
  rows : s.cmdHistory.take s.historyCount = (kept lines).map (pad FINSH_CMD_SIZE)
  current : s.currentHistory ≤ s.historyCount

end RtThread.Shell
