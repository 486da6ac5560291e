import RtThread.Lib.Buffer
import RtThread.Lib.Crc
import RtThread.Lib.Run
import Mathlib.Data.Vector.Basic

/-!
# The YMODEM receiver (`ymodem.c`)

A frame is a code (`SOH` or `STX`), a sequence number and its complement, 128 or 1024 bytes, and a CRC. The receiver
asks for the header with `C`, hands the header to `on_begin` and each data frame to `on_data`, and answers with `ACK`.

What the device, the semaphore, the clock and the callbacks answer is a list of events; a function that meets an event
of another kind, or none, is `none`.
-/

namespace RtThread.Ymodem

open Buffer

abbrev Byte := BitVec 8

set_option maxRecDepth 2000 in
def ccittTable : Vector (BitVec 16) 256 := #v[
  0x0000, 0x1021, 0x2042, 0x3063, 0x4084, 0x50A5, 0x60C6, 0x70E7, 0x8108, 0x9129, 0xA14A, 0xB16B, 0xC18C, 0xD1AD,
  0xE1CE, 0xF1EF, 0x1231, 0x0210, 0x3273, 0x2252, 0x52B5, 0x4294, 0x72F7, 0x62D6, 0x9339, 0x8318, 0xB37B, 0xA35A,
  0xD3BD, 0xC39C, 0xF3FF, 0xE3DE, 0x2462, 0x3443, 0x0420, 0x1401, 0x64E6, 0x74C7, 0x44A4, 0x5485, 0xA56A, 0xB54B,
  0x8528, 0x9509, 0xE5EE, 0xF5CF, 0xC5AC, 0xD58D, 0x3653, 0x2672, 0x1611, 0x0630, 0x76D7, 0x66F6, 0x5695, 0x46B4,
  0xB75B, 0xA77A, 0x9719, 0x8738, 0xF7DF, 0xE7FE, 0xD79D, 0xC7BC, 0x48C4, 0x58E5, 0x6886, 0x78A7, 0x0840, 0x1861,
  0x2802, 0x3823, 0xC9CC, 0xD9ED, 0xE98E, 0xF9AF, 0x8948, 0x9969, 0xA90A, 0xB92B, 0x5AF5, 0x4AD4, 0x7AB7, 0x6A96,
  0x1A71, 0x0A50, 0x3A33, 0x2A12, 0xDBFD, 0xCBDC, 0xFBBF, 0xEB9E, 0x9B79, 0x8B58, 0xBB3B, 0xAB1A, 0x6CA6, 0x7C87,
  0x4CE4, 0x5CC5, 0x2C22, 0x3C03, 0x0C60, 0x1C41, 0xEDAE, 0xFD8F, 0xCDEC, 0xDDCD, 0xAD2A, 0xBD0B, 0x8D68, 0x9D49,
  0x7E97, 0x6EB6, 0x5ED5, 0x4EF4, 0x3E13, 0x2E32, 0x1E51, 0x0E70, 0xFF9F, 0xEFBE, 0xDFDD, 0xCFFC, 0xBF1B, 0xAF3A,
  0x9F59, 0x8F78, 0x9188, 0x81A9, 0xB1CA, 0xA1EB, 0xD10C, 0xC12D, 0xF14E, 0xE16F, 0x1080, 0x00A1, 0x30C2, 0x20E3,
  0x5004, 0x4025, 0x7046, 0x6067, 0x83B9, 0x9398, 0xA3FB, 0xB3DA, 0xC33D, 0xD31C, 0xE37F, 0xF35E, 0x02B1, 0x1290,
  0x22F3, 0x32D2, 0x4235, 0x5214, 0x6277, 0x7256, 0xB5EA, 0xA5CB, 0x95A8, 0x8589, 0xF56E, 0xE54F, 0xD52C, 0xC50D,
  0x34E2, 0x24C3, 0x14A0, 0x0481, 0x7466, 0x6447, 0x5424, 0x4405, 0xA7DB, 0xB7FA, 0x8799, 0x97B8, 0xE75F, 0xF77E,
  0xC71D, 0xD73C, 0x26D3, 0x36F2, 0x0691, 0x16B0, 0x6657, 0x7676, 0x4615, 0x5634, 0xD94C, 0xC96D, 0xF90E, 0xE92F,
  0x99C8, 0x89E9, 0xB98A, 0xA9AB, 0x5844, 0x4865, 0x7806, 0x6827, 0x18C0, 0x08E1, 0x3882, 0x28A3, 0xCB7D, 0xDB5C,
  0xEB3F, 0xFB1E, 0x8BF9, 0x9BD8, 0xABBB, 0xBB9A, 0x4A75, 0x5A54, 0x6A37, 0x7A16, 0x0AF1, 0x1AD0, 0x2AB3, 0x3A92,
  0xFD2E, 0xED0F, 0xDD6C, 0xCD4D, 0xBDAA, 0xAD8B, 0x9DE8, 0x8DC9, 0x7C26, 0x6C07, 0x5C64, 0x4C45, 0x3CA2, 0x2C83,
  0x1CE0, 0x0CC1, 0xEF1F, 0xFF3E, 0xCF5D, 0xDF7C, 0xAF9B, 0xBFBA, 0x8FD9, 0x9FF8, 0x6E17, 0x7E36, 0x4E55, 0x5E74,
  0x2E93, 0x3EB2, 0x0ED1, 0x1EF0]

/-- `CRC16`, from a value on. -/
def crcLoop (crc : BitVec 16) : List Byte → BitVec 16
  | [] => crc
  | b :: q =>
    let i : Fin 256 := ((crc >>> 8).setWidth 8 ^^^ b).toFin
    crcLoop (crc <<< 8 ^^^ ccittTable[i]) q

/-- `CRC16`. -/
def crc16 (q : List Byte) : BitVec 16 := crcLoop 0 q

/-- **CRC-16/XMODEM**, bit by bit. -/
def xmodemCrc (msg : List Byte) : BitVec 16 := Crc.runUp 0x1021 0 msg

/-! ## The receiver -/

def RYM_CODE_NONE : Byte := 0x00
def RYM_CODE_SOH : Byte := 0x01
def RYM_CODE_STX : Byte := 0x02
def RYM_CODE_EOT : Byte := 0x04
def RYM_CODE_ACK : Byte := 0x06
def RYM_CODE_NAK : Byte := 0x15
def RYM_CODE_CAN : Byte := 0x18
def RYM_CODE_C : Byte := 0x43

def RYM_SOH_PKG_SZ : ℕ := 1 + 2 + 128 + 2
def RYM_STX_PKG_SZ : ℕ := 1 + 2 + 1024 + 2
def RYM_END_SESSION_SEND_CAN_NUM : ℕ := 7

inductive RymErr
  | tmo
  | code
  | seq
  | crc
  | dsz
  | can
  deriving DecidableEq

inductive Stage
  | none
  | establishing
  | established
  | transmitting
  | finishing
  | finished
  deriving DecidableEq

/-- A callback with the bytes it is called with. -/
inductive Call
  | onBegin (buf : List Byte)
  | onData (buf : List Byte)
  | onEnd (buf : List Byte)
  deriving DecidableEq

/-- What the surroundings answer. -/
inductive Event
  /-- `rt_device_read` has put these bytes -/
  | read (bytes : List Byte)
  /-- `rt_sem_take` has succeeded, or not -/
  | take (ok : Bool)
  /-- `rt_tick_get` -/
  | tick (t : BitVec 32)
  /-- a callback has returned -/
  | returned (code : Byte)
  deriving DecidableEq

/-- `struct rym_ctx`, with what the device has delivered, what has been written to it, and the calls of callbacks. -/
structure Ctx where
  stage : Stage
  buf : List Byte
  /-- whether there is a callback -/
  hasBegin : Bool
  hasData : Bool
  hasEnd : Bool
  heard : List Byte
  sent : List Byte
  calls : List Call
  events : List Event
  deriving DecidableEq

/-- `rt_device_read` of `bytes` into the buffer at `i`. -/
def Ctx.receive (c : Ctx) (i : ℕ) (bytes : List Byte) : Option Ctx :=
  (blit c.buf i bytes).map fun buf => { c with buf := buf, heard := c.heard ++ bytes }

/-- `_rym_putchar`. -/
def Ctx.putchar (c : Ctx) (code : Byte) : Ctx := { c with sent := c.sent ++ [code] }

/-- A callback and what it returns. -/
def Ctx.call (c : Ctx) (x : Call) : Option (Byte × Ctx) :=
  match c.events with
  | .returned code :: es => some (code, { c with calls := c.calls ++ [x], events := es })
  | _ => none

/-- The slow path of `_rym_read_code`. -/
def readCodeSlow : List Event → Ctx → Option (Byte × Ctx)
  | .take false :: es, c => some (RYM_CODE_NONE, { c with events := es })
  | .take true :: .read [b] :: es, c => ({ c with events := es }.receive 0 [b]).map fun c => (b, c)
  | .take true :: .read [] :: es, c => readCodeSlow es c
  | _, _ => none

/-- `_rym_read_code`. -/
def rymReadCode (c : Ctx) : Option (Byte × Ctx) :=
  match c.events with
  | .read [b] :: es => ({ c with events := es }.receive 0 [b]).map fun c => (b, c)
  | .read [] :: es => readCodeSlow es c
  | _ => none

/-- The loop of `_rym_read_data`. -/
def readDataLoop (len : ℕ) : List Event → ℕ → Ctx → Option (ℕ × Ctx)
  | .read bytes :: es, readlen, c =>
    if bytes.length ≤ len - readlen then do
      let c ← c.receive (1 + readlen) bytes
      let readlen := readlen + bytes.length
      if readlen ≥ len then some (readlen, { c with events := es })
      else
        match es with
        | .take true :: es => readDataLoop len es readlen c
        | .take false :: es => some (readlen, { c with events := es })
        | _ => none
    else none
  | _, _, _ => none

/-- `_rym_read_data`. -/
def rymReadData (len : ℕ) (c : Ctx) : Option (ℕ × Ctx) := readDataLoop len c.events 0 c

/-- The comparison of the CRC field, which ends at `last`, with the CRC of the `n` bytes of the payload. -/
def crcMatches (c : Ctx) (last n : ℕ) : Option (List Byte × Bool) := do
  let high ← c.buf[last - 1]?
  let low ← c.buf[last]?
  let data ← read c.buf 3 n
  some (data, high ++ low == crc16 data)

/-- `on_begin`, if there is one. -/
def beginWith (c : Ctx) (data : List Byte) : Option (Except RymErr Unit × Ctx) :=
  if c.hasBegin then do
    let (code, c) ← c.call (.onBegin data)
    some (if code ≠ RYM_CODE_ACK then .error .can else .ok (), c)
  else some (.ok (), c)

/-- Asking for the header: the size of its frame, or nothing before the time is over. -/
def askHeader : ℕ → Ctx → Option (Option ℕ × Ctx)
  | 0, c => some (none, c)
  | tmSec + 1, c => do
    let (code, c) ← rymReadCode (c.putchar RYM_CODE_C)
    if code = RYM_CODE_SOH then some (some RYM_SOH_PKG_SZ, c)
    else if code = RYM_CODE_STX then some (some RYM_STX_PKG_SZ, c)
    else askHeader tmSec c

/-- `rt_tick_from_millisecond(100)`. -/
def headerTicks : BitVec 32 := 10

/-- The loop of `_rym_do_handshake` over the clock, from the tick `tick` on. A round takes an event from the list, so
that as many rounds as there are events are enough. -/
def headerLoop (dataSz : ℕ) (tick : BitVec 32) : ℕ → ℕ → Ctx → Option (ℕ × Ctx)
  | 0, _, _ => none
  | rounds + 1, i, c =>
    match c.events with
    | .tick now :: es =>
      let c := { c with events := es }
      if now ≤ tick + headerTicks ∧ i < dataSz - 1 then do
        let (n, c) ← rymReadData (dataSz - 1) c
        headerLoop dataSz tick rounds (i + n) c
      else some (i, c)
    | _ => none

/-- `_rym_do_handshake`. -/
def rymDoHandshake (tmSec : ℕ) (c : Ctx) : Option (Except RymErr Unit × Ctx) := do
  let (size, c) ← askHeader tmSec { c with stage := .establishing }
  match size, c.events with
  | none, _ => some (.error .tmo, c)
  | some dataSz, .tick tick :: es =>
    let (i, c) ← headerLoop dataSz tick es.length 0 { c with events := es }
    if i ≠ dataSz - 1 then some (.error .dsz, c)
    else
      let seq ← c.buf[1]?
      let nseq ← c.buf[2]?
      if seq ≠ 0 ∨ nseq ≠ 0xFF then some (.error .seq, c)
      else
        let (data, ok) ← crcMatches c (dataSz - 1) (dataSz - 5)
        if !ok then some (.error .crc, c) else beginWith c data
  | _, _ => none

/-- `on_data`, if there is one; the value is the code that `_rym_trans_data` sets. -/
def dataWith (c : Ctx) (data : List Byte) : Option (Except RymErr Byte × Ctx) :=
  if c.hasData then do
    let (code, c) ← c.call (.onData data)
    some (.ok code, c)
  else some (.ok RYM_CODE_ACK, c)

/-- `_rym_trans_data`; the value is the code that it sets. -/
def rymTransData (dataSz : ℕ) (c : Ctx) : Option (Except RymErr Byte × Ctx) := do
  let (i, c) ← rymReadData (2 + dataSz + 2) c
  if i ≠ 2 + dataSz + 2 then some (.error .dsz, c)
  else
    let seq ← c.buf[1]?
    let nseq ← c.buf[2]?
    if seq.toNat + nseq.toNat ≠ 0xFF then some (.error .seq, c)
    -- the header again
    else if c.stage = .established ∧ seq = 0 then some (.ok RYM_CODE_NONE, c)
    else
      let c := { c with stage := .transmitting }
      let (data, ok) ← crcMatches c (2 + dataSz + 2) dataSz
      if !ok then some (.error .crc, c) else dataWith c data

/-- What `_rym_do_trans` answers; the value says whether its loop goes on. -/
def answerWith (r : Except RymErr Byte) (c : Ctx) : Except RymErr Bool × Ctx :=
  match r with
  | .error err => (.error err, c)
  | .ok code =>
    if code = RYM_CODE_CAN then
      (.error .can, { c with sent := c.sent ++ List.replicate RYM_END_SESSION_SEND_CAN_NUM RYM_CODE_CAN })
    else if code = RYM_CODE_ACK then (.ok true, c.putchar RYM_CODE_ACK)
    else (.ok true, c)

/-- The loop body of `_rym_do_trans`. -/
def transStep (c : Ctx) : Option (Except RymErr Bool × Ctx) := do
  let (code, c) ← rymReadCode c
  if code = RYM_CODE_EOT then some (.ok false, c)
  else if code = RYM_CODE_SOH ∨ code = RYM_CODE_STX then
    let (r, c) ← rymTransData (if code = RYM_CODE_SOH then 128 else 1024) c
    some (answerWith r c)
  else some (.error .code, c)

/-- How `_rym_do_trans` begins. -/
def transBegin (c : Ctx) : Ctx := { (c.putchar RYM_CODE_ACK).putchar RYM_CODE_C with stage := .established }

/-- `on_end`, if there is one. -/
def endWith (c : Ctx) : Option Ctx :=
  if c.hasEnd then do
    let data ← read c.buf 3 128
    let (_, c) ← c.call (.onEnd data)
    some c
  else some c

/-- `_rym_do_fin`. Also after `STX`, it reads a short frame. -/
def rymDoFin (c : Ctx) : Option (Except RymErr Unit × Ctx) := do
  let c ← endWith { c with stage := .finishing }
  let (code, c) ← rymReadCode (c.putchar RYM_CODE_NAK)
  if code ≠ RYM_CODE_EOT then some (.error .code, c)
  else
    let (code, c) ← rymReadCode ((c.putchar RYM_CODE_ACK).putchar RYM_CODE_C)
    if code = RYM_CODE_SOH ∨ code = RYM_CODE_STX then
      let dataSz := if code = RYM_CODE_SOH then RYM_SOH_PKG_SZ else RYM_STX_PKG_SZ
      let (i, c) ← rymReadData (RYM_SOH_PKG_SZ - 1) c
      if i ≠ RYM_SOH_PKG_SZ - 1 then some (.error .dsz, c)
      else
        let seq ← c.buf[1]?
        let nseq ← c.buf[2]?
        if seq ≠ 0 ∨ nseq ≠ 0xFF then some (.error .seq, c)
        else
          let (_, ok) ← crcMatches c (RYM_SOH_PKG_SZ - 1) (RYM_SOH_PKG_SZ - 5)
          if !ok then some (.error .crc, c)
          else
            let first ← c.buf[3]?
            if first ≠ 0 then
              -- the next file
              let data ← read c.buf 3 (dataSz - 5)
              beginWith c data
            else some (.ok (), { c with stage := .finished }.putchar RYM_CODE_ACK)
    else some (.error .code, c)

/-! ## What is promised -/

/-- The bytes that the device delivers. -/
def delivered (es : List Event) : List Byte :=
  es.flatMap fun
    | .read bytes => bytes
    | _ => []

/-- A call of one of the functions that call `on_begin` or `on_data`. -/
inductive Entry
  | handshake (tmSec : ℕ)
  | trans (dataSz : ℕ)
  | fin

/-- The call, and what it leaves. -/
def Entry.run : Entry → Ctx → Option Ctx
  | .handshake tmSec, c => (rymDoHandshake tmSec c).map (·.2)
  | .trans dataSz, c => (rymTransData dataSz c).map (·.2)
  | .fin, c => (rymDoFin c).map (·.2)

/-- What stands before the sequence number of a frame: the code that goes with the length of the payload, unless it has
been read before the call. -/
def Entry.Begins : Entry → List Byte → List Byte → Prop
  | .trans dataSz, pre, data => pre = [] ∧ data.length = dataSz
  | _, pre, data =>
    ∃ pre', pre = pre' ++ [RYM_CODE_SOH] ∧ data.length = 128 ∨ pre = pre' ++ [RYM_CODE_STX] ∧ data.length = 1024

/-- **A verified payload**: what the call has heard ends with the frame, and its CRC is right. -/
def Verified (e : Entry) (c c' : Ctx) (data : List Byte) : Prop :=
  ∃ pre seq nseq high low, c'.heard = c.heard ++ (pre ++ seq :: nseq :: (data ++ [high, low])) ∧
    e.Begins pre data ∧ high ++ low = xmodemCrc data

/-- The callbacks of a call see only verified bytes. -/
def SeesVerified (e : Entry) (c : Ctx) : Prop :=
  ∀ c', e.run c = some c' → ∀ data,
    .onBegin data ∈ c'.calls.drop c.calls.length ∨ .onData data ∈ c'.calls.drop c.calls.length → Verified e c c' data

/-- A wait that ends without data takes more than the 100 milliseconds of `_rym_do_handshake`, as the clock shows. -/
def ClockRuns (es : List Event) : Prop :=
  ∀ a b d t₀ t, es = a ++ .tick t₀ :: (b ++ .tick t :: d) → .take false ∈ b → ¬t ≤ t₀ + headerTicks

/-- The clock runs in the handshake, and the last header does not begin with `STX`, behind the `EOT`. -/
def Entry.Clean : Entry → Ctx → Prop
  | .handshake _, c => ClockRuns c.events
  | .trans _, _ => True
  | .fin, c => (delivered c.events)[1]? ≠ some RYM_CODE_STX

end RtThread.Ymodem
