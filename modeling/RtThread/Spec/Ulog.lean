import RtThread.Spec.Printf

/-!
# Log lines and backends (`components/utilities/ulog/ulog.c`)

`ulog_formater` with colour, level, tag and thread name, in a thread, on a memory of characters; and
`ulog_output_to_all_backend` with colour. A function is `none` where an assertion fails or where a string is read
through a null pointer.
-/

namespace RtThread.Ulog

open Kservice

/-- The levels of the tables, from `LOG_LVL_ASSERT` to `LOG_LVL_DBG`. -/
abbrev Level := Fin 8

def logLvlDbg : Level := 7

def csiStart : List Char := ['\x1b', '[']

def csiEnd : List Char := ['\x1b', '[', '0', 'm']

def ulogNewlineSign : List Char := ['\r', '\n']

/-- The configuration; the bounds are that of the `#error` directive, that of an `int`, and that strings lie in the
address space. -/
structure Config where
  /-- `ULOG_LINE_BUF_SIZE` -/
  lineBufSize : ℕ
  lineBufSize_ge : 80 ≤ lineBufSize
  lineBufSize_lt : lineBufSize < 2 ^ 31
  /-- `RT_NAME_MAX` -/
  nameMax : ℕ
  /-- `color_output_info`, from the macros `ULOG_COLOR_DEBUG` and so on -/
  colorOutputInfo : Level → Option (List Char)
  colorOutputInfo_lt : ∀ level s, colorOutputInfo level = some s → s.length + 6 < 2 ^ 32
  /-- `RT_PRINTF_SPECIAL` -/
  special : Bool

/-- `level_output_info`. -/
def levelOutputInfo : Level → Option (List Char)
  | 0 => some ['A', '/']
  | 3 => some ['E', '/']
  | 4 => some ['W', '/']
  | 6 => some ['I', '/']
  | 7 => some ['D', '/']
  | _ => none

/-- The default of `color_output_info`. -/
def defaultColor : Level → Option (List Char)
  | 0 => some ['3', '5', 'm']
  | 3 => some ['3', '1', 'm']
  | 4 => some ['3', '3', 'm']
  | 6 => some ['3', '2', 'm']
  | _ => none

/-- The default configuration. -/
def Config.default : Config where
  lineBufSize := 128
  lineBufSize_ge := by decide
  lineBufSize_lt := by decide
  nameMax := 8
  colorOutputInfo := defaultColor
  colorOutputInfo_lt := by
    intro level s h
    have hlen : ∀ level, ((defaultColor level).getD []).length ≤ 3 := by decide
    have := hlen level
    rw [h] at this
    exact Nat.lt_of_le_of_lt (Nat.add_le_add_right this 6) (by decide)
  special := true

/-! ## Formatting -/

namespace Config

variable (cfg : Config)

/-- The loop of `ulog_strcpy`: the memory, and how many characters it has copied. -/
def strcpyLoop (curLen dst : ℕ) (mem : ℕ → Char) : List Char → (ℕ → Char) × ℕ
  | [] => (mem, 0)
  | c :: src =>
    if curLen < cfg.lineBufSize then
      let (mem, n) := strcpyLoop (curLen + 1) (dst + 1) (Function.update mem dst c) src
      (mem, n + 1)
    else (mem, 0)

/-- `ulog_strcpy`, which asserts that it has a source. -/
def ulogStrcpy (curLen dst : ℕ) (src : Option (List Char)) (mem : ℕ → Char) : Option ((ℕ → Char) × ℕ) :=
  src.map (cfg.strcpyLoop curLen dst mem)

/-- The memory and `log_len`. -/
@[ext] structure Line where
  mem : ℕ → Char
  logLen : ℕ

/-- `log_len += ulog_strcpy(log_len, log_buf + log_len, src)`. -/
def append (logBuf : ℕ) (src : Option (List Char)) (s : Line) : Option Line :=
  (cfg.ulogStrcpy s.logLen (logBuf + s.logLen) src s.mem).map fun (mem, n) => ⟨mem, s.logLen + n⟩

/-- The same behind an `if`. -/
def appendIf (c : Bool) (logBuf : ℕ) (src : Option (List Char)) (s : Line) : Option Line :=
  if c then cfg.append logBuf src s else some s

/-- `rt_strncpy`, which pads with `'\0'`. -/
def rtStrncpy (dst : ℕ) (mem : ℕ → Char) : List Char → ℕ → ℕ → Char
  | _, 0 => mem
  | [], n + 1 => rtStrncpy (dst + 1) (Function.update mem (address dst) '\x00') [] n
  | c :: src, n + 1 => rtStrncpy (dst + 1) (Function.update mem (address dst) c) src n

/-- The thread name: it goes into the buffer as it is. -/
def appendName (logBuf : ℕ) (name : List Char) (s : Line) : Line :=
  let nameLen := min name.length cfg.nameMax
  ⟨rtStrncpy (logBuf + s.logLen) s.mem name nameLen, s.logLen + nameLen⟩

/-- The message. -/
def appendMessage (logBuf : ℕ) (fmt : List Char) (args : List Arg) (s : Line) : Option Line := do
  let (mem, fmtResult) ← rtVsnprintf cfg.special s.mem (logBuf + s.logLen)
    (address (cfg.lineBufSize + 2 ^ 32 - s.logLen)) fmt args
  if address (s.logLen + fmtResult.toNat) ≤ cfg.lineBufSize ∧ -1 < fmtResult.toInt then
    return ⟨mem, s.logLen + fmtResult.toNat⟩
  else return ⟨mem, cfg.lineBufSize⟩

/-- Cut the line where there is no room for its end. -/
def reserve (s : Line) : Line :=
  if cfg.lineBufSize < s.logLen + csiEnd.length + ulogNewlineSign.length then
    ⟨s.mem, cfg.lineBufSize - csiEnd.length - ulogNewlineSign.length⟩
  else s

/-- `ulog_formater`: the memory, and the length of the line in the buffer at `logBuf`. -/
def ulogFormater (mem : ℕ → Char) (logBuf : ℕ) (level : Level) (tag name : List Char) (newline : Bool)
    (fmt : List Char) (args : List Arg) : Option ((ℕ → Char) × ℕ) := do
  let colored := (cfg.colorOutputInfo level).isSome
  let s : Line := ⟨mem, 0⟩
  let s ← cfg.appendIf colored logBuf (some csiStart) s
  let s ← cfg.appendIf colored logBuf (cfg.colorOutputInfo level) s
  let s ← cfg.append logBuf (levelOutputInfo level) s
  let s ← cfg.append logBuf (some tag) s
  let s ← cfg.append logBuf (some [' ']) s
  let s := cfg.appendName logBuf name s
  let s ← cfg.append logBuf (some [':', ' ']) s
  let s ← cfg.appendMessage logBuf fmt args s
  let s := cfg.reserve s
  let s ← cfg.appendIf newline logBuf (some ulogNewlineSign) s
  let s ← cfg.appendIf colored logBuf (some csiEnd) s
  return (s.mem, s.logLen)

/-! ## Well-formed lines -/

/-- The header of a line. -/
def start (level : Level) (info tag : List Char) : List Char :=
  ((cfg.colorOutputInfo level).elim [] (csiStart ++ ·)) ++ info ++ tag ++ [' ']

/-- The end of a line. -/
def trailer (level : Level) (newline : Bool) : List Char :=
  (if newline then ulogNewlineSign else []) ++ (if (cfg.colorOutputInfo level).isSome then csiEnd else [])

/-- **Well formed**: whatever was in the memory, only the buffer changes, and it begins with the header and the
message, cut where they do not fit, and the whole end of the line. -/
def WellFormed (logBuf : ℕ) (level : Level) (tag name : List Char) (newline : Bool) (fmt : List Char)
    (args : List Arg) (message : List Char) : Prop :=
  ∀ mem, ∃ mem' logLen info body, cfg.ulogFormater mem logBuf level tag name newline fmt args = some (mem', logLen) ∧
    (∀ i, ¬(logBuf ≤ i ∧ i < logBuf + cfg.lineBufSize) → mem' i = mem i) ∧ logLen ≤ cfg.lineBufSize ∧
    levelOutputInfo level = some info ∧ body <+: cfg.start level info tag ++ name ++ [':', ' '] ++ message ∧
    (List.range logLen).map (fun i => mem' (logBuf + i)) = body ++ cfg.trailer level newline

/-- **The condition**: the level has a name, the thread name fits behind the tag, and the message does not go round
the address space. -/
def Fits (logBuf : ℕ) (level : Level) (tag name message : List Char) : Prop :=
  ∃ info, levelOutputInfo level = some info ∧
    (name = [] ∨ (cfg.start level info tag).length + name.length ≤ cfg.lineBufSize) ∧
    if (cfg.start level info tag).length + name.length + 2 < cfg.lineBufSize then
      logBuf + ((cfg.start level info tag).length + name.length + 2) + message.length < 2 ^ 32
    else logBuf + cfg.lineBufSize + message.length ≤ 2 ^ 32

end Config

/-! ## Backends -/

/-- A backend, as far as the loop looks at it. -/
structure Backend where
  supportColor : Bool
  deriving DecidableEq

/-- A call `backend->output(backend, level, tag, is_raw, log, size)`. -/
structure Call where
  backend : Backend
  level : Level
  tag : Option (List Char)
  isRaw : Bool
  log : ℕ
  size : BitVec 32

/-- `rt_strlen`, which reads through the pointer. -/
def rtStrlen (s : Option (List Char)) : Option (BitVec 32) := s.map fun s => BitVec.ofNat 32 s.length

namespace Config

variable (cfg : Config)

/-- The loop of `ulog_output_to_all_backend`. -/
def outputLoop (level : Level) (tag : Option (List Char)) (isRaw : Bool) (log : ℕ) (size : BitVec 32) :
    List Backend → Option (List Call)
  | [] => some []
  | backend :: rest =>
    if backend.supportColor then do
      let calls ← outputLoop level tag isRaw log size rest
      return ⟨backend, level, tag, isRaw, log, size⟩ :: calls
    else do
      -- the address and the size are those of the rest of the list, too
      let colorInfoLen ← rtStrlen (cfg.colorOutputInfo level)
      let colorHdrLen := BitVec.ofNat 32 csiStart.length + colorInfoLen
      let log := if colorInfoLen ≠ 0 then address (log + colorHdrLen.toNat) else log
      let size := if colorInfoLen ≠ 0 then size - (colorHdrLen + BitVec.ofNat 32 csiEnd.length) else size
      let calls ← outputLoop level tag isRaw log size rest
      return ⟨backend, level, tag, isRaw, log, size⟩ :: calls

/-- `ulog_output_to_all_backend`: the calls that it makes. -/
def ulogOutputToAllBackend (initOk : Bool) (backendList : List Backend) (level : Level) (tag : Option (List Char))
    (isRaw : Bool) (log : ℕ) (size : BitVec 32) : Option (List Call) :=
  if ¬initOk then some [] else cfg.outputLoop level tag isRaw log size backendList

end Config

/-- The text of a call. -/
def Call.text (mem : ℕ → Char) (c : Call) : List Char :=
  (List.range c.size.toNat).map fun i => mem (address (c.log + i))

/-- A log as its parts: the colour header, the text and the end sequence. A raw log and a log of a level without
colour are only a text. -/
inductive Config.Log (cfg : Config) (level : Level) : Bool → List Char → List Char → Prop
  | raw (plain : List Char) : Log cfg level true plain plain
  | plain (plain : List Char) (h : cfg.colorOutputInfo level = none) : Log cfg level false plain plain
  | colored (color plain : List Char) (h : cfg.colorOutputInfo level = some color) :
    Log cfg level false (csiStart ++ color ++ plain ++ csiEnd) plain

/-- **Each backend gets the right text**, once and in the order of the list. -/
def Right (backends : List Backend) (level : Level) (tag : Option (List Char)) (isRaw : Bool) (mem : ℕ → Char)
    (full plain : List Char) (calls : Option (List Call)) : Prop :=
  ∃ l, calls = some l ∧ l.map (fun c => (c.backend, c.level, c.tag, c.isRaw, c.text mem)) =
    backends.map fun b => (b, level, tag, isRaw, if b.supportColor then full else plain)

/-- **The condition**: no backend is without colour; or the level has a colour string, and a raw log comes with the
empty one, a formatted log with another one and with no backend behind the first that is without colour. -/
def Config.Separate (cfg : Config) (backends : List Backend) (level : Level) (isRaw : Bool) : Prop :=
  (∀ b ∈ backends, b.supportColor = true) ∨ ∃ color, cfg.colorOutputInfo level = some color ∧
    if isRaw then color = [] else color ≠ [] ∧ ∀ b ∈ backends.dropLast, b.supportColor = true

end RtThread.Ulog
