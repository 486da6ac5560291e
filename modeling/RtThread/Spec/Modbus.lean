import RtThread.Lib.Crc
import RtThread.Lib.Run
import Mathlib.Data.Nat.Notation
import Mathlib.Logic.Function.Basic

/-!
# The Modbus sensors (`modbus.c`)

A weather sensor answers over a serial line. `AM_uart_irqhandler` puts its bytes into `AM_BUFF`, `get_ambuff` copies
the first twenty of them, and one of the `Process_` functions looks for frames in the copy and publishes what it
measures.

A function that reads behind an array, or a byte that has not been written, is `none`.
-/

namespace RtThread.Modbus

abbrev Byte := BitVec 8

/-! ## The CRC -/

set_option maxRecDepth 2000 in
def auchCRCHi : Vector Byte 256 := #v[
  0x00, 0xC1, 0x81, 0x40, 0x01, 0xC0, 0x80, 0x41, 0x01, 0xC0, 0x80, 0x41, 0x00, 0xC1, 0x81, 0x40, 0x01, 0xC0,
  0x80, 0x41, 0x00, 0xC1, 0x81, 0x40, 0x00, 0xC1, 0x81, 0x40, 0x01, 0xC0, 0x80, 0x41, 0x01, 0xC0, 0x80, 0x41,
  0x00, 0xC1, 0x81, 0x40, 0x00, 0xC1, 0x81, 0x40, 0x01, 0xC0, 0x80, 0x41, 0x00, 0xC1, 0x81, 0x40, 0x01, 0xC0,
  0x80, 0x41, 0x01, 0xC0, 0x80, 0x41, 0x00, 0xC1, 0x81, 0x40, 0x01, 0xC0, 0x80, 0x41, 0x00, 0xC1, 0x81, 0x40,
  0x00, 0xC1, 0x81, 0x40, 0x01, 0xC0, 0x80, 0x41, 0x00, 0xC1, 0x81, 0x40, 0x01, 0xC0, 0x80, 0x41, 0x01, 0xC0,
  0x80, 0x41, 0x00, 0xC1, 0x81, 0x40, 0x00, 0xC1, 0x81, 0x40, 0x01, 0xC0, 0x80, 0x41, 0x01, 0xC0, 0x80, 0x41,
  0x00, 0xC1, 0x81, 0x40, 0x01, 0xC0, 0x80, 0x41, 0x00, 0xC1, 0x81, 0x40, 0x00, 0xC1, 0x81, 0x40, 0x01, 0xC0,
  0x80, 0x41, 0x01, 0xC0, 0x80, 0x41, 0x00, 0xC1, 0x81, 0x40, 0x00, 0xC1, 0x81, 0x40, 0x01, 0xC0, 0x80, 0x41,
  0x00, 0xC1, 0x81, 0x40, 0x01, 0xC0, 0x80, 0x41, 0x01, 0xC0, 0x80, 0x41, 0x00, 0xC1, 0x81, 0x40, 0x00, 0xC1,
  0x81, 0x40, 0x01, 0xC0, 0x80, 0x41, 0x01, 0xC0, 0x80, 0x41, 0x00, 0xC1, 0x81, 0x40, 0x01, 0xC0, 0x80, 0x41,
  0x00, 0xC1, 0x81, 0x40, 0x00, 0xC1, 0x81, 0x40, 0x01, 0xC0, 0x80, 0x41, 0x00, 0xC1, 0x81, 0x40, 0x01, 0xC0,
  0x80, 0x41, 0x01, 0xC0, 0x80, 0x41, 0x00, 0xC1, 0x81, 0x40, 0x01, 0xC0, 0x80, 0x41, 0x00, 0xC1, 0x81, 0x40,
  0x00, 0xC1, 0x81, 0x40, 0x01, 0xC0, 0x80, 0x41, 0x01, 0xC0, 0x80, 0x41, 0x00, 0xC1, 0x81, 0x40, 0x00, 0xC1,
  0x81, 0x40, 0x01, 0xC0, 0x80, 0x41, 0x00, 0xC1, 0x81, 0x40, 0x01, 0xC0, 0x80, 0x41, 0x01, 0xC0, 0x80, 0x41,
  0x00, 0xC1, 0x81, 0x40]

set_option maxRecDepth 2000 in
def auchCRCLo : Vector Byte 256 := #v[
  0x00, 0xC0, 0xC1, 0x01, 0xC3, 0x03, 0x02, 0xC2, 0xC6, 0x06, 0x07, 0xC7, 0x05, 0xC5, 0xC4, 0x04, 0xCC, 0x0C,
  0x0D, 0xCD, 0x0F, 0xCF, 0xCE, 0x0E, 0x0A, 0xCA, 0xCB, 0x0B, 0xC9, 0x09, 0x08, 0xC8, 0xD8, 0x18, 0x19, 0xD9,
  0x1B, 0xDB, 0xDA, 0x1A, 0x1E, 0xDE, 0xDF, 0x1F, 0xDD, 0x1D, 0x1C, 0xDC, 0x14, 0xD4, 0xD5, 0x15, 0xD7, 0x17,
  0x16, 0xD6, 0xD2, 0x12, 0x13, 0xD3, 0x11, 0xD1, 0xD0, 0x10, 0xF0, 0x30, 0x31, 0xF1, 0x33, 0xF3, 0xF2, 0x32,
  0x36, 0xF6, 0xF7, 0x37, 0xF5, 0x35, 0x34, 0xF4, 0x3C, 0xFC, 0xFD, 0x3D, 0xFF, 0x3F, 0x3E, 0xFE, 0xFA, 0x3A,
  0x3B, 0xFB, 0x39, 0xF9, 0xF8, 0x38, 0x28, 0xE8, 0xE9, 0x29, 0xEB, 0x2B, 0x2A, 0xEA, 0xEE, 0x2E, 0x2F, 0xEF,
  0x2D, 0xED, 0xEC, 0x2C, 0xE4, 0x24, 0x25, 0xE5, 0x27, 0xE7, 0xE6, 0x26, 0x22, 0xE2, 0xE3, 0x23, 0xE1, 0x21,
  0x20, 0xE0, 0xA0, 0x60, 0x61, 0xA1, 0x63, 0xA3, 0xA2, 0x62, 0x66, 0xA6, 0xA7, 0x67, 0xA5, 0x65, 0x64, 0xA4,
  0x6C, 0xAC, 0xAD, 0x6D, 0xAF, 0x6F, 0x6E, 0xAE, 0xAA, 0x6A, 0x6B, 0xAB, 0x69, 0xA9, 0xA8, 0x68, 0x78, 0xB8,
  0xB9, 0x79, 0xBB, 0x7B, 0x7A, 0xBA, 0xBE, 0x7E, 0x7F, 0xBF, 0x7D, 0xBD, 0xBC, 0x7C, 0xB4, 0x74, 0x75, 0xB5,
  0x77, 0xB7, 0xB6, 0x76, 0x72, 0xB2, 0xB3, 0x73, 0xB1, 0x71, 0x70, 0xB0, 0x50, 0x90, 0x91, 0x51, 0x93, 0x53,
  0x52, 0x92, 0x96, 0x56, 0x57, 0x97, 0x55, 0x95, 0x94, 0x54, 0x9C, 0x5C, 0x5D, 0x9D, 0x5F, 0x9F, 0x9E, 0x5E,
  0x5A, 0x9A, 0x9B, 0x5B, 0x99, 0x59, 0x58, 0x98, 0x88, 0x48, 0x49, 0x89, 0x4B, 0x8B, 0x8A, 0x4A, 0x4E, 0x8E,
  0x8F, 0x4F, 0x8D, 0x4D, 0x4C, 0x8C, 0x44, 0x84, 0x85, 0x45, 0x87, 0x47, 0x46, 0x86, 0x82, 0x42, 0x43, 0x83,
  0x41, 0x81, 0x80, 0x40]

/-- The loop of `CRC16`, with `uchCRCHi` and `uchCRCLo`. -/
def crcLoop : ℕ → List Byte → Byte → Byte → Option (BitVec 16)
  | 0, _, uchCRCHi, uchCRCLo => some (uchCRCLo.setWidth 16 <<< 8 ||| uchCRCHi.setWidth 16)
  | _ + 1, [], _, _ => none
  | usDataLen + 1, b :: puchMsg, uchCRCHi, uchCRCLo =>
    let uIndex : Fin 256 := (uchCRCHi ^^^ b).toFin
    crcLoop usDataLen puchMsg (uchCRCLo ^^^ auchCRCHi[uIndex]) auchCRCLo[uIndex]

/-- `CRC16`. -/
def crc16 (puchMsg : List Byte) (usDataLen : BitVec 16) : Option (BitVec 16) :=
  crcLoop usDataLen.toNat puchMsg 0xFF 0xFF

/-- **The CRC of Modbus**, bit by bit. -/
def modbusCrc (msg : List Byte) : BitVec 16 := Crc.run 0xA001 0xFFFF msg

/-- The low byte of a CRC, which is sent first. -/
def crcLow (crc : BitVec 16) : Byte := crc.setWidth 8

def crcHigh (crc : BitVec 16) : Byte := (crc >>> 8).setWidth 8

/-! ## The measurements -/

/-- The global variables that the `Process_` functions set. -/
structure Published where
  temperature_1 : BitVec 16
  humidity_1 : BitVec 16
  wind_direct : BitVec 16
  direct_1 : BitVec 16
  wind_speed : BitVec 16
  speed_1 : BitVec 16
  pressure_1 : BitVec 16
  deriving DecidableEq

/-- `change`; `temperature_value` is not initialized. -/
def change (temperature_value temperature : BitVec 16) : BitVec 16 :=
  if temperature &&& 0x8000 = 0 then temperature else ~~~(temperature_value &&& 0x7FFF) + 1 + 1

/-- `speed_change`. The first test of the source is always true. -/
def speedChange (wind_speed : BitVec 16) : BitVec 16 :=
  let w := wind_speed.toNat
  if w < 2 then 0
  else if w < 15 then 1
  else if w < 33 then 2
  else if w < 54 then 3
  else if w < 79 then 4
  else if w < 107 then 5
  else if w < 138 then 6
  else if w < 171 then 7
  else if w < 207 then 8
  else if w < 244 then 9
  else if w < 284 then 10
  else if w < 326 then 11
  else if w < 369 then 12
  else if w < 414 then 13
  else if w < 461 then 14
  else if w < 509 then 15
  else if w < 560 then 16
  else if w < 612 then 17
  else if w < 615 then 0
  else 18

/-- `direct_change`; `direct_1` is not initialized. -/
def directChange (direct_1 wind_direct : BitVec 16) : BitVec 16 :=
  let w := wind_direct.toNat
  if w = 0 then 0
  else if w < 90 then 1
  else if w = 90 then 2
  else if w < 180 then 3
  else if w = 180 then 4
  else if w < 270 then 5
  else if w = 270 then 6
  else if w < 360 then 7
  else direct_1

/-! ## The frames -/

/-- `Pro_BUFF`. -/
abbrev Snapshot := Vector Byte 20

/-- `AM_direct` and the like. -/
abbrev Data := Vector Byte 10

/-- Two bytes, the high one first. -/
def word (data : Data) (high low : Fin 10) : BitVec 16 := data[high].setWidth 16 <<< 8 ||| data[low].setWidth 16

/-- What a `Process_` function changes. -/
structure Out where
  data : Data
  p : BitVec 16
  published : Published
  deriving DecidableEq

/-- The loop that copies the data: `AM_direct[j] = Pro_BUFF[i + 3 + j]`. -/
def copyData (pro : Snapshot) (i n : ℕ) (data : Data) : Option Data :=
  (List.range n).foldlM (fun data j => do
    let b ← pro[i + 3 + j]?
    if h : j < 10 then some (data.set j b h) else none) data

/-- The loop that fills `CRC_BUFF`. -/
def crcBuff (pro : Snapshot) (i n : ℕ) : Option (List Byte) := (List.range (n + 3)).mapM fun j => pro[i + j]?

/-- `Pro_BUFF[i] == addr && Pro_BUFF[i + 1] == 3`: the second is read only where the first is true. -/
def matched (addr : Byte) (pro : Snapshot) (i : ℕ) : Option Bool := do
  if (← pro[i]?) = addr then
    return (← pro[i + 1]?) = 3
  else return false

/-- The body of the loop, up to the CRC: the data and the byte count. The CRC is compared with nothing. -/
def takeFrame (pro : Snapshot) (i : ℕ) (data : Data) : Option (Data × BitVec 16) := do
  let p ← pro[i + 2]?
  let data ← copyData pro i p.toNat data
  let msg ← crcBuff pro i p.toNat
  let _ ← crc16 msg 7
  return (data, p.setWidth 16)

/-- The body of the loop. `publish` sets the global variables; its second argument is an uninitialized local
variable. -/
def processStep (addr : Byte) (publish : Data → BitVec 16 → Published → Published) (pro : Snapshot)
    (junk : ℕ → BitVec 16) (out : Out) (i : ℕ) : Option Out := do
  if ← matched addr pro i then
    let (data, p) ← takeFrame pro i out.data
    return ⟨data, p, publish data (junk i) out.published⟩
  else return out

/-- What the `Process_` functions have in common. -/
def process (addr : Byte) (publish : Data → BitVec 16 → Published → Published) (pro : Snapshot)
    (junk : ℕ → BitVec 16) (out : Out) : Option Out :=
  (List.range 20).foldlM (processStep addr publish pro junk) out

def publishDirect (data : Data) (direct_1 : BitVec 16) (v : Published) : Published :=
  { v with wind_direct := word data 2 3, direct_1 := directChange direct_1 (word data 2 3) }

def publishSpeed (data : Data) (_ : BitVec 16) (v : Published) : Published :=
  { v with wind_speed := word data 2 3 * 10, speed_1 := speedChange (word data 2 3 * 10) }

def publishTemperature (data : Data) (temperature_value : BitVec 16) (v : Published) : Published :=
  { v with
    humidity_1 := word data 0 1 / 10
    temperature_1 := (change temperature_value (word data 2 3)).sdiv 10 }

def publishHumidity (data : Data) (_ : BitVec 16) (v : Published) : Published :=
  { v with humidity_1 := word data 2 3 }

def publishPressure (data : Data) (_ : BitVec 16) (v : Published) : Published :=
  { v with pressure_1 := word data 0 1 }

/-- `Process_direct`. -/
def processDirect := process 1 publishDirect

/-- `Process_speed`. -/
def processSpeed := process 2 publishSpeed

/-- `Process_temperature`. -/
def processTemperature := process 3 publishTemperature

/-- `Process_humidity`. -/
def processHumidity := process 1 publishHumidity

/-- `Process_pressure`. -/
def processPressure := process 6 publishPressure

/-- The sensors. -/
inductive Device
  | direct
  | speed
  | temperature
  | humidity
  | pressure
  deriving DecidableEq

namespace Device

/-- The first byte of a sensor's frames. -/
def addr : Device → Byte
  | direct => 1
  | speed => 2
  | temperature => 3
  | humidity => 1
  | pressure => 6

def process : Device → Snapshot → (ℕ → BitVec 16) → Out → Option Out
  | direct => processDirect
  | speed => processSpeed
  | temperature => processTemperature
  | humidity => processHumidity
  | pressure => processPressure

end Device

/-- **A complete frame** at `i`: address, function, byte count, the data, and the CRC of all of these. -/
def FrameAt (addr : Byte) (pro : Snapshot) (i : ℕ) : Prop :=
  pro[i]? = some addr ∧ pro[i + 1]? = some 3 ∧ ∃ n ∈ pro[i + 2]?, ∃ msg ∈ crcBuff pro i n.toNat,
    ∃ crc ∈ crc16 msg (BitVec.ofNat 16 msg.length),
      pro[i + 3 + n.toNat]? = some (crcLow crc) ∧ pro[i + 4 + n.toNat]? = some (crcHigh crc)

instance (addr : Byte) (pro : Snapshot) (i : ℕ) : Decidable (FrameAt addr pro i) := by
  unfold FrameAt
  infer_instance

/-- A complete frame of the sensor, anywhere. -/
def HasFrame (addr : Byte) (pro : Snapshot) : Prop := ∃ i < 20, FrameAt addr pro i

instance (addr : Byte) (pro : Snapshot) : Decidable (HasFrame addr pro) := by
  unfold HasFrame
  infer_instance

/-- **Only checked frames change measurements.** -/
def OnlyChecked (d : Device) (pro : Snapshot) : Prop :=
  ∀ junk out, HasFrame d.addr pro ∨ ∃ out', d.process pro junk out = some out' ∧ out'.published = out.published

/-- The address and the function of a frame, at `i`. -/
def HeaderAt (addr : Byte) (pro : Snapshot) (i : ℕ) : Prop := pro[i]? = some addr ∧ pro[i + 1]? = some 3

/-- No read, and no write, is out of bounds. -/
def InBounds (d : Device) (pro : Snapshot) : Prop := ∀ junk out, (d.process pro junk out).isSome

/-- The byte count of a frame at `i` has room in the data and in the snapshot, and covers the bytes whose CRC is
computed. -/
def CountFits (pro : Snapshot) (i : ℕ) : Prop :=
  ∃ n ∈ pro[i + 2]?, 4 ≤ n.toNat ∧ n.toNat ≤ 10 ∧ i + 3 + n.toNat ≤ 20

/-! ## The frames of the sensors -/

/-- `takeFrame`, where `CRC16` reads on in the memory behind a short `CRC_BUFF`. -/
def takeFrameBehind (behind : List Byte) (pro : Snapshot) (i : ℕ) (data : Data) : Option (Data × BitVec 16) := do
  let p ← pro[i + 2]?
  let data ← copyData pro i p.toNat data
  let msg ← crcBuff pro i p.toNat
  let _ ← crc16 (msg ++ behind) 7
  return (data, p.setWidth 16)

def processStepBehind (addr : Byte) (publish : Data → BitVec 16 → Published → Published) (pro : Snapshot)
    (behind : ℕ → List Byte) (junk : ℕ → BitVec 16) (out : Out) (i : ℕ) : Option Out := do
  if ← matched addr pro i then
    let (data, p) ← takeFrameBehind (behind i) pro i out.data
    return ⟨data, p, publish data (junk i) out.published⟩
  else return out

/-- `process`, with the memory behind each `CRC_BUFF`. -/
def processBehind (addr : Byte) (publish : Data → BitVec 16 → Published → Published) (pro : Snapshot)
    (behind : ℕ → List Byte) (junk : ℕ → BitVec 16) (out : Out) : Option Out :=
  (List.range 20).foldlM (processStepBehind addr publish pro behind junk) out

def Device.publish : Device → Data → BitVec 16 → Published → Published
  | .direct => publishDirect
  | .speed => publishSpeed
  | .temperature => publishTemperature
  | .humidity => publishHumidity
  | .pressure => publishPressure

/-- A response with the given data. -/
def response (addr : Byte) (data : List Byte) : List Byte :=
  let msg := addr :: 3 :: BitVec.ofNat 8 data.length :: data
  msg ++ [crcLow (modbusCrc msg), crcHigh (modbusCrc msg)]

/-- A snapshot with one frame at offset 0, and zeros behind it. -/
def snapshot (frame : List Byte) : Snapshot := Vector.ofFn fun i => frame.getD i 0

/-- **A function leaves good values**, whatever is behind its buffers and in its uninitialized variables. -/
def Leaves (d : Device) (pro : Snapshot) (good : Published → Prop) : Prop :=
  ∀ behind junk out, (∀ i, 4 ≤ (behind i).length) →
    ∃ out', processBehind d.addr d.publish pro behind junk out = some out' ∧ good out'.published

/-- A header at `i` with the byte `k` of the data behind it. -/
def Covers (addr : Byte) (pro : Snapshot) (k i : ℕ) : Prop :=
  HeaderAt addr pro i ∧ ∃ n ∈ pro[i + 2]?, k < n.toNat

/-- The last header with the byte `k` of the data behind it has `b` there. -/
def LastAt (addr : Byte) (pro : Snapshot) (k : ℕ) (b : Byte) : Prop :=
  ∃ i < 20, Covers addr pro k i ∧ pro[i + 3 + k]? = some b ∧ ∀ i' < 20, i < i' → ¬Covers addr pro k i'

/-- Every header in the snapshot has room for its data, and the last ones that reach the bytes `k` and `k + 1` make a
good word of them. -/
def KeepsWord (addr : Byte) (pro : Snapshot) (k : ℕ) (good : ℕ → Prop) : Prop :=
  (∀ i < 20, HeaderAt addr pro i → ∀ n ∈ pro[i + 2]?, n.toNat ≤ 10) ∧
    ∃ high low, LastAt addr pro k high ∧ LastAt addr pro (k + 1) low ∧ good (256 * high.toNat + low.toNat)

/-! ## The receive buffer -/

namespace Rx

def AM_BUFF_SIZE : ℕ := 1024

/-- What the main loop is at: copying `AM_BUFF[i]` in `get_ambuff`, or clearing it in `clean_buff`. -/
inductive Pc
  | idle
  | get (i : ℕ)
  | clean (i : ℕ)
  deriving DecidableEq

/-- `AM_BUFF` with the memory behind it, `uart_p` and the copy that `get_ambuff` makes. -/
structure State where
  buff : ℕ → Byte
  uart_p : BitVec 16
  pc : Pc
  rebuff : ℕ → Byte

namespace State

/-- The buffer at startup. -/
def Init (s : State) : Prop := (∀ i < AM_BUFF_SIZE, s.buff i = 0) ∧ s.uart_p = 0 ∧ s.pc = .idle

def write (s : State) (i : ℕ) (b : Byte) : State := { s with buff := Function.update s.buff i b }

/-- A byte taken in by the loop of `AM_uart_irqhandler`, at any time. -/
def amUartIrqhandler (s : State) (b : Byte) : State :=
  { s.write s.uart_p.toNat b with uart_p := s.uart_p + 1 }

/-- The main loop goes on, by one round of the loop it is in. -/
def main (s : State) : Option State :=
  match s.pc with
  | .idle => none
  | .get i =>
    if i < 20 then some { s with rebuff := Function.update s.rebuff i (s.buff i), pc := .get (i + 1) }
    else some { s with pc := .idle }
  | .clean 0 => some { s with pc := .idle }
  | .clean (i + 1) => some { s.write (i + 1) 0 with pc := .clean i }

end State

inductive Act
  | byte (b : Byte)
  | getAmbuff
  | cleanBuff
  | main
  deriving DecidableEq

/-- `get_ambuff` and `clean_buff` begin where the main loop is in neither. -/
def State.step (s : State) : Act → Option State
  | .byte b => some (s.amUartIrqhandler b)
  | .getAmbuff => if s.pc = .idle then some { s with pc := .get 0 } else none
  | .cleanBuff => if s.pc = .idle then some { s with uart_p := 0, pc := .clean (AM_BUFF_SIZE + 1) } else none
  | .main => s.main

/-- The index that a step writes `AM_BUFF` at. -/
def State.writes (s : State) : Act → Option ℕ
  | .byte _ => some s.uart_p.toNat
  | .main => match s.pc with
    | .clean (i + 1) => some (i + 1)
    | _ => none
  | _ => none

/-- What has been done since the last byte: `clean_buff` has been called, or has returned, or neither. -/
inductive Quiet
  | no
  | cleaning
  | cleaned
  deriving DecidableEq

/-- The history of a run: the indices that have been written, and how quiet it has been. -/
structure Log where
  writes : List ℕ
  quiet : Quiet

def Log.start (_ : State) : Log := ⟨[], .no⟩

def log (s : State) (a : Act) (s' : State) (g : Log) : Log where
  writes := g.writes ++ (s.writes a).toList
  quiet := match a with
    | .byte _ => .no
    | .cleanBuff => .cleaning
    | .main => if g.quiet = .cleaning ∧ s'.pc = .idle then .cleaned else g.quiet
    | .getAmbuff => g.quiet

/-- The runs whose steps all satisfy `ok`. -/
abbrev Runs (ok : State → Act → Prop) : State × Log → Prop :=
  Run.Reach (fun p => p.1.Init ∧ p.2 = Log.start p.1) (Run.Logged (fun s a s' => s.step a = some s') log)
    fun p a => ok p.1 a

/-- **The receive buffer is never overrun**, and what `clean_buff` has cleared is all that the next `get_ambuff`
sees. -/
structure Sound (p : State × Log) : Prop where
  writes : ∀ i ∈ p.2.writes, i < AM_BUFF_SIZE
  uart_p : p.1.uart_p.toNat ≤ AM_BUFF_SIZE
  clear : p.2.quiet = .cleaned → ∀ i < AM_BUFF_SIZE, p.1.buff i = 0
  unseen : p.2.quiet = .cleaned → ∀ i, p.1.pc = .get i → ∀ j < i, p.1.rebuff j = 0

/-- A byte finds room. -/
def HasRoom (s : State) : Act → Prop
  | .byte _ => s.uart_p.toNat < AM_BUFF_SIZE
  | _ => True

/-- A byte finds room, and `clean_buff` is not called. -/
def KeepsBounds (s : State) : Act → Prop
  | .byte _ => s.uart_p.toNat < AM_BUFF_SIZE
  | .cleanBuff => False
  | _ => True

instance (s : State) (a : Act) : Decidable (KeepsBounds s a) := by
  unfold KeepsBounds
  split <;> infer_instance

/-- `clean_buff` finds its first byte clear. -/
def FirstClear (s : State) : Act → Prop
  | .cleanBuff => s.buff 0 = 0
  | _ => True

end Rx

end RtThread.Modbus
