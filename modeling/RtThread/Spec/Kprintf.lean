import RtThread.Spec.Printf

/-!
# Printers with a static buffer (`kservice.c`, `at_utils.c`)

`rt_kprintf` formats into `rt_log_buf`, `at_vprintf` into `send_buf`, and both pass the buffer to a device with the
length that the formatter returned. `rt_device_write` sees the bytes of the buffer: here `handed`.

`at_vprintf` calls the `vsnprintf` of the C library, which is a parameter (`Libc`) with what the standard says of it
(`Libc.Standard`).
-/

namespace RtThread.Kservice

/-- A device, as far as `rt_kprintf` looks at it. -/
structure Device where
  openFlag : BitVec 16
  deriving DecidableEq

def rtDeviceFlagStream : BitVec 16 := 0x040

/-- A call `rt_device_write(dev, 0, buffer, size)`. -/
structure Write where
  buffer : ℕ
  size : BitVec 32
  deriving DecidableEq

/-- Where a text goes: `rt_hw_console_output(str)`, or a device with its flags at that time. -/
inductive Sent
  | hw (str : ℕ)
  | write (openFlag : BitVec 16) (w : Write)

/-- `rt_kprintf` with `rt_log_buf` at the address `logBuf`; the console device is `none` for `RT_NULL`. -/
def rtKprintf (special : Bool) (consolebufSize : ℕ) (mem : ℕ → Char) (logBuf : ℕ) (console : Option Device)
    (fmt : List Char) (args : List Arg) : Option ((ℕ → Char) × Option Device × Sent) := do
  let (mem, length) ← rtVsnprintf special mem logBuf (consolebufSize - 1) fmt args
  let length :=
    if BitVec.ofNat 32 (consolebufSize - 1) < length then BitVec.ofNat 32 (consolebufSize - 1) else length
  match console with
  | none => return (mem, none, .hw logBuf)
  | some dev =>
    let oldFlag := dev.openFlag
    let dev := { dev with openFlag := dev.openFlag ||| rtDeviceFlagStream }
    let sent := Sent.write dev.openFlag ⟨logBuf, length⟩
    let dev := { dev with openFlag := oldFlag }
    return (mem, some dev, sent)

/-- The bytes that the device sees. -/
def handed (mem : ℕ → Char) (w : Write) : List Char :=
  (List.range w.size.toNat).map fun i => mem (address (w.buffer + i))

/-- Where `rt_vsnprintf` puts the terminating `'\0'` of a text of `len` characters. -/
def nulAt (buf size len : ℕ) : ℕ :=
  if address (buf + len) < buf + size then address (buf + len) else buf + size - 1

/-- The device gets a prefix of the text, out of the buffer of `n` bytes at `buf`, without the terminating `'\0'`
at `nul`; and the whole text, if it fits. -/
structure HandsText (mem : ℕ → Char) (w : Write) (buf n nul : ℕ) (text : List Char) : Prop where
  buffer : w.buffer = buf
  inside : w.size.toNat ≤ n
  noNul : ¬(buf ≤ nul ∧ nul < buf + w.size.toNat)
  start : handed mem w <+: text
  whole : text.length < n → handed mem w = text

/-- When `rt_kprintf` hands over its text: the characters count from the start of the buffer and stop before its last
two bytes. A text that goes round the address space leaves its last round in the buffer. -/
def Shown (n buf : ℕ) (text : List Char) : Prop :=
  address (buf + text.length) < buf + (n - 1) ∧
    (text.drop (text.length / 2 ^ 32 * 2 ^ 32)).take (n - 1) <+: text

/-! ## The AT device -/

/-- The formatter of the C library, with arguments of any kind; `text` is what it prints without a bound. -/
structure Libc (Args : Type) where
  text : List Char → Args → Option (List Char)
  vsnprintf : (ℕ → Char) → ℕ → ℕ → List Char → Args → (ℕ → Char) × BitVec 32

/-- What the standard says of `vsnprintf` on a buffer of at least one byte: the beginning of the text and a `'\0'`,
the length of the text, and a negative value for a text whose length is no `int`. -/
structure Libc.Standard {Args : Type} (l : Libc Args) : Prop where
  length : ∀ mem buf n fmt args text, l.text fmt args = some text → 0 < n → buf + n ≤ 2 ^ 32 →
    text.length < 2 ^ 31 → (l.vsnprintf mem buf n fmt args).2 = BitVec.ofNat 32 text.length
  chars : ∀ mem buf n fmt args text, l.text fmt args = some text → 0 < n → buf + n ≤ 2 ^ 32 →
    text.length < 2 ^ 31 → ∀ i, i < min text.length (n - 1) →
      some ((l.vsnprintf mem buf n fmt args).1 (buf + i)) = text[i]?
  nul : ∀ mem buf n fmt args text, l.text fmt args = some text → 0 < n → buf + n ≤ 2 ^ 32 →
    text.length < 2 ^ 31 → (l.vsnprintf mem buf n fmt args).1 (buf + min text.length (n - 1)) = '\x00'
  frame : ∀ mem buf n fmt args, 0 < n → buf + n ≤ 2 ^ 32 → ∀ i, ¬(buf ≤ i ∧ i < buf + n) →
    (l.vsnprintf mem buf n fmt args).1 i = mem i
  overflow : ∀ mem buf n fmt args text, l.text fmt args = some text → 0 < n → buf + n ≤ 2 ^ 32 →
    2 ^ 31 ≤ text.length → (l.vsnprintf mem buf n fmt args).2.toInt < 0

/-- `at_vprintf` with `send_buf`, of `cmdMaxLen` bytes, at the address `sendBuf`: the memory, `last_cmd_len`, and
the call of `rt_device_write`, whose result it returns. -/
def atVprintf {Args : Type} (l : Libc Args) (cmdMaxLen : ℕ) (mem : ℕ → Char) (sendBuf : ℕ) (fmt : List Char)
    (args : Args) : (ℕ → Char) × BitVec 32 × Write :=
  let (mem, lastCmdLen) := l.vsnprintf mem sendBuf cmdMaxLen fmt args
  (mem, lastCmdLen, ⟨sendBuf, lastCmdLen⟩)

end RtThread.Kservice
