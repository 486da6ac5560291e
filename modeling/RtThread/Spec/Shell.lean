import RtThread.Lib.Buffer
import RtThread.Lib.Editing
import RtThread.Lib.Run
import Mathlib.Data.BitVec

/-!
# The line editor of the shell (`shell.c`, `msh.c`)

`finsh_thread_entry` takes one character after the other. Arrows come as three of them, the other keys as one. The
line is an array of `FINSH_CMD_SIZE` characters with two positions; enter hands it to `msh_exec`, or to `finsh_run_line`
after `msh_exit`.

A read or write outside the line, or a reader that finds no zero in it, is `none`. What the rest of the system holds
while a key is handled (the tables of names, the directories, the modes) is an `Env`; it may differ from key to key.
-/

namespace RtThread.Shell

open Buffer Editing

abbrev Byte := BitVec 8

abbrev Text := List Byte

def FINSH_CMD_SIZE : ℕ := 80
def FINSH_HISTORY_LINES : ℕ := 5
def FINSH_ARG_MAX : ℕ := 10

/-- A value stored in a `rt_uint8_t`. -/
def u8 (n : ℕ) : ℕ := n % 2 ^ 8

/-- A C string, without its zero. -/
structure Name where
  chars : Text
  noZero : 0 ∉ chars

/-- What the rest of the system holds. -/
structure Env where
  /-- `msh_is_used` -/
  msh : Bool
  echo : Bool
  /-- the names in `_syscall_table` -/
  syscalls : List Name
  /-- `global_syscall_list` -/
  syscallItems : List Name
  /-- `_sysvar_table` -/
  sysvars : List Name
  /-- `global_sysvar_list` -/
  sysvarItems : List Name
  /-- the entries of a directory, if there is memory and it can be opened -/
  listing : Text → Option (List Name)
  /-- whether `msh_exec_script` finds a file -/
  script : Text → Bool

/-- `enum input_stat`. -/
inductive Stat
  | waitNormal
  | waitSpecKey
  | waitFuncKey
  deriving DecidableEq

/-- `struct finsh_shell`, without what the line editor does not touch. -/
structure FinshShell where
  stat : Stat
  currentHistory : ℕ
  historyCount : ℕ
  cmdHistory : List Text
  line : Text
  linePosition : ℕ
  lineCurpos : ℕ
  deriving DecidableEq

/-- `rt_calloc`. -/
def FinshShell.init : FinshShell where
  stat := .waitNormal
  currentHistory := 0
  historyCount := 0
  cmdHistory := List.replicate FINSH_HISTORY_LINES (List.replicate FINSH_CMD_SIZE 0)
  line := List.replicate FINSH_CMD_SIZE 0
  linePosition := 0
  lineCurpos := 0

/-- What enter hands on: to `msh_exec` the first `line_position` characters, with the text it sees up to a zero; to
`finsh_parser_run` a text. -/
inductive Submission
  | msh (bytes : Text) (seen : Option Text)
  | finsh (text : Text)
  deriving DecidableEq

/-! ## Completion -/

/-- `__cmd_`. -/
def cmdMark : Text := [0x5f, 0x5f, 0x63, 0x6d, 0x64, 0x5f]

/-- The built-in commands, under the names a user types. -/
def Env.commands (env : Env) : List Text :=
  env.syscalls.filterMap fun name =>
    if cmdMark.isPrefixOf name.chars then some (name.chars.drop 6) else none

/-- What `list_prefix` goes through. -/
def Env.symbols (env : Env) : List Text :=
  (env.syscalls.filter fun name => !([0x5f, 0x5f] : Text).isPrefixOf name.chars).map (·.chars) ++
    (env.syscallItems ++ env.sysvars ++ env.sysvarItems).map (·.chars)

/-- `str_common`. -/
def strCommon : Text → Text → ℕ
  | a :: str1, b :: str2 => if a = b then strCommon str1 str2 + 1 else 0
  | _, _ => 0

/-- One name in the loop over the names: `name_ptr` and `min_length`, set at the first match. -/
def matchName (unset : Option Text × ℕ → Bool) (typed : Text) (acc : Option Text × ℕ) (name : Text) :
    Option Text × ℕ :=
  if typed.isPrefixOf name then
    let acc := if unset acc then (some name, name.length) else acc
    (acc.1, min acc.2 (strCommon (acc.1.getD []) name))
  else acc

/-- The loops of `msh_auto_complete` and `msh_auto_complete_path`. -/
def matchCommands (typed : Text) (names : List Text) : Option Text × ℕ :=
  names.foldl (matchName (fun acc => acc.2 = 0) typed) (none, 0)

/-- The loops of `list_prefix`; its two counts decide what is printed. -/
def matchSymbols (typed : Text) (names : List Text) : Option Text × ℕ :=
  names.foldl (matchName (fun acc => acc.1 = none) typed) (none, 0)

/-- What `rt_strncpy` writes. -/
def rtStrncpy (src : Text) (n : ℕ) : Text := src.take n ++ List.replicate (n - src.length) 0

/-- Where the last part of a path begins. -/
def lastPart (ptr index : ℕ) : Text → ℕ
  | [] => index
  | c :: cs => lastPart (ptr + 1) (if c = 0x2f then ptr + 1 else index) cs

/-- `msh_auto_complete_path`, for the path that begins at `path`. -/
def mshAutoCompletePath (env : Env) (line : Text) (path : ℕ) : Option Text := do
  let typed ← string line path
  let length := lastPart 0 0 typed
  match env.listing (typed.take length) with
  | none => some line
  | some names =>
    let index := typed.drop length
    if index = [] then some line
    else
      match matchCommands index (names.map (·.chars)) with
      | (fullPath, minLength) =>
        if minLength ≠ 0 then do
          let line ← blit line (path + length) ((fullPath.getD []).take minLength)
          store line (path + length + minLength) 0
        else some line

/-- Looking for a blank from the end of the line; the first character is not looked at. -/
def lastBlank (typed : Text) : ℕ → Option ℕ
  | 0 => none
  | ptr + 1 => if typed[ptr + 1]? = some 0x20 then some (ptr + 1) else lastBlank typed ptr

/-- Writing the common beginning of the names found. -/
def writeMatch (line : Text) : Option Text × ℕ → Option Text
  | (some namePtr, minLength) => blit line 0 (rtStrncpy namePtr minLength)
  | (none, _) => some line

/-- The part of `msh_auto_complete` for a command with an argument. -/
def completeBehindBlank (env : Env) (line typed : Text) : Option Text :=
  match lastBlank typed typed.length with
  | some ptr => mshAutoCompletePath env line (ptr + 1)
  | none => some line

/-- `msh_auto_complete`. -/
def mshAutoComplete (env : Env) (line : Text) : Option Text := do
  let typed ← string line 0
  if typed = [] then some line
  else
    let line ← completeBehindBlank env line typed
    let typed ← string line 0
    writeMatch line (matchCommands typed env.commands)

/-- `list_prefix`. -/
def listPrefix (env : Env) (line : Text) : Option Text := do
  let typed ← string line 0
  if typed = [] then some line else writeMatch line (matchSymbols typed env.symbols)

/-- `shell_auto_complete`. -/
def shellAutoComplete (env : Env) (line : Text) : Option Text :=
  if env.msh then mshAutoComplete env line else listPrefix env line

/-! ## Commands -/

def blank (c : Byte) : Bool := c = 0x20 ∨ c = 0x09

/-- The loop over the blanks at the beginning of a command; a length is a `rt_size_t`. -/
def strim : Text → ℕ → Option (Text × ℕ)
  | [], _ => none
  | c :: cmd, length => if blank c then strim cmd ((length + (2 ^ 32 - 1)) % 2 ^ 32) else some (c :: cmd, length)

/-- The size of the first word. -/
def cmd0Size : Text → ℕ → Option ℕ
  | [], _ => none
  | c :: cmd, length => if !blank c ∧ 0 < length then (cmd0Size cmd (length - 1)).map (· + 1) else some 0

/-- Where `msh_split` is: before an argument, in one, in a quoted one. -/
inductive Splitting
  | before
  | word
  | quoted

/-- `msh_split`: the offsets of the arguments, and the command with a zero behind each. `length` counts what is left
of the command, `position` is the offset of the next character. -/
def mshSplit : Splitting → Text → ℕ → ℕ → List ℕ → Option (List ℕ × Text)
  | _, [], _, _, _ => none
  | .before, c :: cmd, length, position, argv =>
    if blank c ∧ 0 < length then
      (mshSplit .before cmd (length - 1) (position + 1) argv).map fun r => (r.1, 0 :: r.2)
    else if argv.length ≥ FINSH_ARG_MAX ∨ length = 0 then some (argv, c :: cmd)
    else if c = 0x22 then
      (mshSplit .quoted cmd (length - 1) (position + 1) (argv ++ [position + 1])).map fun r => (r.1, c :: r.2)
    else
      (mshSplit .word cmd (length - 1) (position + 1) (argv ++ [position])).map fun r => (r.1, c :: r.2)
  | .word, c :: cmd, length, position, argv =>
    if length = 0 then some (argv, c :: cmd)
    else if blank c then
      (mshSplit .before cmd (length - 1) (position + 1) argv).map fun r => (r.1, 0 :: r.2)
    else (mshSplit .word cmd (length - 1) (position + 1) argv).map fun r => (r.1, c :: r.2)
  | .quoted, c :: cmd, length, position, argv =>
    if length = 0 then some (argv, c :: cmd)
    else if c = 0x22 then
      if length = 1 then some (argv, 0 :: cmd)
      else (mshSplit .before cmd (length - 1) (position + 1) argv).map fun r => (r.1, 0 :: r.2)
    else if c = 0x5c then
      match cmd with
      | [] => none
      | d :: rest =>
        if d = 0x22 then
          (mshSplit .quoted rest (length - 2) (position + 2) argv).map fun r => (r.1, c :: d :: r.2)
        else (mshSplit .quoted (d :: rest) (length - 1) (position + 1) argv).map fun r => (r.1, c :: r.2)
    else (mshSplit .quoted cmd (length - 1) (position + 1) argv).map fun r => (r.1, c :: r.2)

/-- The truncation of a command at its first blank. -/
def truncateCmd : Text → Option Text
  | [] => none
  | c :: cmd => if c = 0x20 ∨ c = 0 then some [] else (truncateCmd cmd).map (c :: ·)

/-- What became of a command line. -/
inductive Executed
  | nothing
  /-- a built-in command, called with the arguments at these offsets of the text -/
  | command (argv : List ℕ) (cmd : Text)
  | script (name : Text)
  | notFound (name : Text)
  deriving DecidableEq

/-- `_msh_exec_cmd`; `none` inside when there is no such command. -/
def mshExecCmd (env : Env) (cmd : Text) (length : ℕ) : Option (Option (List ℕ × Text)) := do
  let size ← cmd0Size cmd length
  if size = 0 then some none
  else if env.commands.contains (cmd.take size) then
    let r ← mshSplit .before cmd length 0 []
    some (if r.1 = [] then none else some r)
  else some none

/-- `msh_exec`, with `msh_exec_script`. -/
def mshExec (env : Env) (line : Text) (linePosition : ℕ) : Option Executed := do
  let (cmd, length) ← strim line linePosition
  if length = 0 then some .nothing
  else
    match ← mshExecCmd env cmd length with
    | some (argv, cmd) => some (.command argv cmd)
    | none =>
      let size ← cmd0Size cmd length
      if env.script (cmd.take size) then some (.script (cmd.take size))
      else (truncateCmd cmd).map .notFound

/-! ## The keys -/

/-- `shell_push_history`. -/
def shellPushHistory (s : FinshShell) : Option FinshShell :=
  if s.linePosition ≠ 0 then do
    let text ← read s.line 0 s.linePosition
    let row ← blit (List.replicate FINSH_CMD_SIZE 0) 0 text
    if s.historyCount ≥ FINSH_HISTORY_LINES then
      if s.cmdHistory[FINSH_HISTORY_LINES - 1]? ≠ some s.line then
        some { s with
          cmdHistory := s.cmdHistory.drop 1 ++ [row]
          historyCount := FINSH_HISTORY_LINES
          currentHistory := FINSH_HISTORY_LINES }
      else some { s with currentHistory := s.historyCount }
    else if s.historyCount = 0 ∨ s.cmdHistory[s.historyCount - 1]? ≠ some s.line then do
      let cmdHistory ← store s.cmdHistory s.historyCount row
      some { s with
        cmdHistory := cmdHistory
        historyCount := s.historyCount + 1
        currentHistory := s.historyCount + 1 }
    else some { s with currentHistory := s.historyCount }
  else some { s with currentHistory := s.historyCount }

/-- A command from the history becomes the line. -/
def recallLine (s : FinshShell) (current : ℕ) : Option FinshShell := do
  let row ← s.cmdHistory[current]?
  let text ← string row 0
  some { s with
    currentHistory := current
    line := row
    linePosition := u8 text.length
    lineCurpos := u8 text.length }

def upKey (s : FinshShell) : Option FinshShell :=
  if s.currentHistory > 0 then recallLine s (s.currentHistory - 1) else some s

def downKey (s : FinshShell) : Option FinshShell :=
  if (s.currentHistory : ℤ) < s.historyCount - 1 then recallLine s (s.currentHistory + 1)
  else if s.historyCount ≠ 0 then recallLine s (s.historyCount - 1)
  else some s

def leftKey (s : FinshShell) : Option FinshShell :=
  some (if s.lineCurpos ≠ 0 then { s with lineCurpos := s.lineCurpos - 1 } else s)

/-- The character under the cursor is printed. -/
def rightKey (s : FinshShell) : Option FinshShell :=
  if s.lineCurpos < s.linePosition then do
    let _ ← s.line[s.lineCurpos]?
    some { s with lineCurpos := u8 (s.lineCurpos + 1) }
  else some s

def tabKey (env : Env) (s : FinshShell) : Option FinshShell := do
  let line ← shellAutoComplete env s.line
  let text ← string line 0
  some { s with line := line, linePosition := u8 text.length, lineCurpos := u8 text.length }

def backspaceKey (s : FinshShell) : Option FinshShell :=
  if s.lineCurpos = 0 then some s
  else do
    let linePosition := u8 (s.linePosition + (2 ^ 8 - 1))
    let lineCurpos := u8 (s.lineCurpos + (2 ^ 8 - 1))
    if linePosition > lineCurpos then
      let rest ← read s.line (lineCurpos + 1) (linePosition - lineCurpos)
      let line ← blit s.line lineCurpos rest
      let line ← store line linePosition 0
      -- the rest of the line is printed
      let _ ← string line lineCurpos
      some { s with line := line, linePosition := linePosition, lineCurpos := lineCurpos }
    else
      let line ← store s.line linePosition 0
      some { s with line := line, linePosition := linePosition, lineCurpos := lineCurpos }

def enterKey (env : Env) (s : FinshShell) : Option (FinshShell × List Submission) := do
  let s ← shellPushHistory s
  let clear := { s with line := List.replicate FINSH_CMD_SIZE 0, linePosition := 0, lineCurpos := 0 }
  if env.msh then
    let bytes ← read s.line 0 s.linePosition
    let _ ← mshExec env s.line s.linePosition
    some (clear, [.msh bytes (string s.line 0)])
  else
    let line ← store s.line s.linePosition 0x3b
    if s.linePosition ≠ 0 then
      let text ← string line 0
      some (clear, [.finsh text])
    else some (clear, [])

/-- A character is put into the line at the cursor. -/
def putCharacter (env : Env) (ch : Byte) (line : Text) (linePosition lineCurpos : ℕ) : Option Text :=
  if lineCurpos < linePosition then do
    let rest ← read line lineCurpos (linePosition - lineCurpos)
    let line ← blit line (lineCurpos + 1) rest
    let line ← store line lineCurpos ch
    -- the echo is up to the zero of the line
    if env.echo then (string line lineCurpos).map fun _ => line else some line
  else store line linePosition ch

/-- A normal character. A line that becomes too large is discarded. -/
def normalCharacter (env : Env) (ch : Byte) (s : FinshShell) : Option FinshShell := do
  let linePosition := if s.linePosition ≥ FINSH_CMD_SIZE then 0 else s.linePosition
  let line ← putCharacter env ch s.line linePosition s.lineCurpos
  if u8 (linePosition + 1) ≥ FINSH_CMD_SIZE then
    some { s with line := line, linePosition := 0, lineCurpos := 0 }
  else some { s with line := line, linePosition := u8 (linePosition + 1), lineCurpos := u8 (s.lineCurpos + 1) }

/-- A key that hands nothing on. -/
def quiet (s : Option FinshShell) : Option (FinshShell × List Submission) := s.map fun s => (s, [])

/-- What `finsh_thread_entry` does with a character that is no part of an arrow. -/
def character (env : Env) (ch : Byte) (s : FinshShell) : Option (FinshShell × List Submission) :=
  if ch = 0 ∨ ch = 0xff then some (s, [])
  else if ch = 0x09 then quiet (tabKey env s)
  else if ch = 0x7f ∨ ch = 0x08 then quiet (backspaceKey s)
  else if ch = 0x0d ∨ ch = 0x0a then enterKey env s
  else quiet (normalCharacter env ch s)

/-- The loop body of `finsh_thread_entry`. -/
def step (s : FinshShell) (k : Env × Byte) : Option (FinshShell × List Submission) :=
  let (env, ch) := k
  if ch = 0x1b then some ({ s with stat := .waitSpecKey }, [])
  else
    match s.stat with
    | .waitSpecKey =>
      if ch = 0x5b then some ({ s with stat := .waitFuncKey }, [])
      else character env ch { s with stat := .waitNormal }
    | .waitFuncKey =>
      let s := { s with stat := .waitNormal }
      if ch = 0x41 then quiet (upKey s)
      else if ch = 0x42 then quiet (downKey s)
      else if ch = 0x44 then quiet (leftKey s)
      else if ch = 0x43 then quiet (rightKey s)
      else character env ch s
    | .waitNormal => character env ch s

/-- `finsh_thread_entry` on a sequence of keys, with what it has handed on. -/
def run (s : FinshShell) : List (Env × Byte) → Option (FinshShell × List Submission)
  | [] => some (s, [])
  | k :: ks => do
    let (s, out) ← step s k
    let (s, rest) ← run s ks
    some (s, out ++ rest)

/-! ## The editor that it is -/

/-- A line editor: a text with a cursor, and the lines entered before. -/
structure Editor where
  stat : Stat
  cursor : Cursor Byte
  history : List Text
  current : ℕ

namespace Editor

def init : Editor := ⟨.waitNormal, .empty, [], 0⟩

/-- A text that does not fit is discarded as a whole. -/
def fit (c : Cursor Byte) : Cursor Byte := if c.text.length < FINSH_CMD_SIZE then c else .empty

/-- The path that a text ends with, completed among the entries of its directory. -/
def completePath (env : Env) (text : Text) : Text :=
  match env.listing (text.rdropWhile (· ≠ 0x2f)) with
  | none => text
  | some names =>
    let part := text.rtakeWhile (· ≠ 0x2f)
    if part = [] then text else text.rdropWhile (· ≠ 0x2f) ++ complete part (names.map (·.chars))

/-- The argument that a command line ends with is completed as a path. -/
def completeArgument (env : Env) (text : Text) : Text :=
  if 0x20 ∈ text.tail then
    text.rdropWhile (· ≠ 0x20) ++ completePath env (text.rtakeWhile (· ≠ 0x20))
  else text

def completed (env : Env) (text : Text) : Text :=
  if text = [] then []
  else if env.msh then complete (completeArgument env text) env.commands
  else complete text env.symbols

/-- The last lines entered; a line that repeats the one before is not kept. -/
def remember (history : List Text) (text : Text) : List Text :=
  if text = [] ∨ history.getLast? = some text then history
  else if history.length < FINSH_HISTORY_LINES then history ++ [text]
  else history.tail ++ [text]

def recallLine (e : Editor) (current : ℕ) : Editor :=
  match e.history[current]? with
  | some text => { e with current := current, cursor := .atEnd text }
  | none => e

def up (e : Editor) : Editor := if e.current = 0 then e else e.recallLine (e.current - 1)

def down (e : Editor) : Editor :=
  if e.current + 1 < e.history.length then e.recallLine (e.current + 1) else e.recallLine (e.history.length - 1)

/-- What is handed on at enter. -/
def submit (env : Env) (text : Text) : List Submission :=
  if env.msh then [.msh text (some text)]
  else if text = [] then []
  else [.finsh (text ++ [0x3b])]

def enter (env : Env) (e : Editor) : Editor × List Submission :=
  let history := remember e.history e.cursor.text
  ({ e with cursor := .empty, history := history, current := history.length }, submit env e.cursor.text)

def character (env : Env) (ch : Byte) (e : Editor) : Editor × List Submission :=
  if ch = 0 ∨ ch = 0xff then (e, [])
  else if ch = 0x09 then ({ e with cursor := fit (.atEnd (completed env e.cursor.text)) }, [])
  else if ch = 0x7f ∨ ch = 0x08 then ({ e with cursor := e.cursor.backspace }, [])
  else if ch = 0x0d ∨ ch = 0x0a then e.enter env
  else ({ e with cursor := fit (e.cursor.insert ch) }, [])

def step (e : Editor) (k : Env × Byte) : Editor × List Submission :=
  let (env, ch) := k
  if ch = 0x1b then ({ e with stat := .waitSpecKey }, [])
  else
    match e.stat with
    | .waitSpecKey =>
      if ch = 0x5b then ({ e with stat := .waitFuncKey }, []) else character env ch { e with stat := .waitNormal }
    | .waitFuncKey =>
      let e := { e with stat := .waitNormal }
      if ch = 0x41 then (e.up, [])
      else if ch = 0x42 then (e.down, [])
      else if ch = 0x44 then ({ e with cursor := e.cursor.left }, [])
      else if ch = 0x43 then ({ e with cursor := e.cursor.right }, [])
      else character env ch e
    | .waitNormal => character env ch e

def run (e : Editor) : List (Env × Byte) → Editor × List Submission
  | [] => (e, [])
  | k :: ks => (((e.step k).1.run ks).1, (e.step k).2 ++ ((e.step k).1.run ks).2)

/-- The character leaves room for a zero: a completed text and a longer text fit, and so does the semicolon that enter
adds outside `msh`. -/
def RoomFor (env : Env) (ch : Byte) (text : Text) : Prop :=
  if ch = 0 ∨ ch = 0xff then True
  else if ch = 0x09 then (completed env text).length < FINSH_CMD_SIZE
  else if ch = 0x7f ∨ ch = 0x08 then True
  else if ch = 0x0d ∨ ch = 0x0a then env.msh = true ∨ text = [] ∨ text.length + 1 < FINSH_CMD_SIZE
  else text.length + 1 < FINSH_CMD_SIZE

/-- The same for a key, which may belong to an arrow. -/
def Fits (e : Editor) (k : Env × Byte) : Prop :=
  k.2 = 0x1b ∨ e.stat = .waitSpecKey ∧ k.2 = 0x5b ∨
    e.stat = .waitFuncKey ∧ (k.2 = 0x41 ∨ k.2 = 0x42 ∨ k.2 = 0x44 ∨ k.2 = 0x43) ∨ RoomFor k.1 k.2 e.cursor.text

/-- Every key does. -/
def AllFit (e : Editor) : List (Env × Byte) → Prop
  | [] => True
  | k :: ks => e.Fits k ∧ (e.step k).1.AllFit ks

end Editor

/-! ## What is promised -/

/-- The line is a text with a cursor in it. -/
structure FinshShell.Ok (s : FinshShell) : Prop where
  cursor : s.lineCurpos ≤ s.linePosition
  short : s.linePosition < FINSH_CMD_SIZE
  zero : s.line[s.linePosition]? = some 0
  noZero : ∀ i < s.linePosition, s.line[i]? ≠ some 0

instance (s : FinshShell) : Decidable s.Ok :=
  decidable_of_iff (s.lineCurpos ≤ s.linePosition ∧ s.linePosition < FINSH_CMD_SIZE ∧
      s.line[s.linePosition]? = some 0 ∧ ∀ i < s.linePosition, s.line[i]? ≠ some 0)
    ⟨fun h => ⟨h.1, h.2.1, h.2.2.1, h.2.2.2⟩, fun h => ⟨h.1, h.2, h.3, h.4⟩⟩

/-- At every point of a sequence of keys, no access has been outside the line, the line is a text, and what has been
handed on is what the line editor `e` hands on. -/
def EditsFrom (s : FinshShell) (e : Editor) (ks : List (Env × Byte)) : Prop :=
  ∀ ks', ks' <+: ks → ∃ s', run s ks' = some (s', (e.run ks').2) ∧ s'.Ok

def Edits (ks : List (Env × Byte)) : Prop := EditsFrom FinshShell.init Editor.init ks

end RtThread.Shell
