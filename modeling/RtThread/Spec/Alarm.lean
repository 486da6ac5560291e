import RtThread.Spec.LibcTime
import RtThread.Lib.Run
import Mathlib.Algebra.Group.Int.Defs
import Mathlib.Data.List.Basic

/-!
# RTC alarms (`components/drivers/rtc/alarm.c`)

`State` is `_container` with the alarm of the RTC. An operation reads the clock first at `t₁`, and last at `t₂`:
callbacks may take their time. The device calls succeed; `precision` is the time that
`RT_DEVICE_CTRL_RTC_GET_ALARM` returns where one was set.
-/

namespace RtThread.Rtc

open Time

abbrev Addr := ℕ

/-- `RT_ALARM_DELAY`. -/
def rtAlarmDelay : ℤ := 2

/-- The modes, `flag & 0xFF00`. -/
def rtAlarmOneshot : ℕ := 0x000
def rtAlarmDaily : ℕ := 0x100
def rtAlarmWeekly : ℕ := 0x200
def rtAlarmMonthly : ℕ := 0x400
def rtAlarmYearly : ℕ := 0x800

/-- `RT_ALARM_TM_NOW`. -/
def rtAlarmTmNow : ℤ := -1

/-- `RT_RTC_YEARS_MAX`. -/
def rtRtcYearsMax : ℤ := 137

/-- `struct rt_alarm` at an address; `mode`, `inited` and `started` are the parts of `flag`. -/
structure Alarm where
  addr : Addr
  mode : ℕ
  inited : Bool
  started : Bool
  callback : Bool
  wktime : Tm
  deriving DecidableEq

/-- The alarm of the RTC. -/
structure Wkalarm where
  enable : Bool
  hms : Hms
  deriving DecidableEq

structure State where
  alarms : List Alarm
  current : Option Addr
  wkalarm : Wkalarm
  /-- the alarms whose callbacks have been called -/
  called : List Addr
  /-- the last reading of the clock -/
  clock : ℕ

inductive Err
  | eok
  | error
  deriving DecidableEq

/-- A value in a `rt_uint32_t`. -/
def uint32 (x : ℤ) : ℤ := x % 2 ^ 32

/-- A value in a `rt_int32_t`. -/
def int32 (x : ℤ) : ℤ := if uint32 x < 2 ^ 31 then uint32 x else uint32 x - 2 ^ 32

/-- `alarm_mkdaysec`. -/
def alarmMkdaysec (t : Hms) : ℤ := uint32 (t.tmSec + t.tmMin * 60 + t.tmHour * 3600)

/-! ## Setting up -/

/-- `days_of_year_month`. -/
def daysOfYearMonth (tmYear tmMon : ℤ) : ℤ :=
  let year := tmYear + 1900
  if tmMon = 1 then 28 + if year % 4 = 0 ∧ year % 100 ≠ 0 ∨ year % 400 = 0 then 1 else 0
  else if tmMon ≤ 6 ∧ tmMon % 2 = 0 ∨ tmMon > 6 ∧ tmMon % 2 = 1 then 31
  else 30

/-- `is_valid_date`. -/
def isValidDate (date : Tm) : Bool :=
  if date.tmYear < 0 ∨ date.tmYear > rtRtcYearsMax then false
  else if date.tmMon < 0 ∨ date.tmMon > 11 then false
  else if date.tmMday < 1 ∨ date.tmMday > daysOfYearMonth date.tmYear date.tmMon then false
  else true

/-- A field that is not in its range is set to now. -/
def orNow (lo hi x now : ℤ) : ℤ := if x < lo ∨ x > hi then now else x

/-- The time of day that `alarm_setup` starts with. -/
def setupHms (t now : Hms) : Hms :=
  ⟨orNow 0 59 t.tmSec now.tmSec, orNow 0 59 t.tmMin now.tmMin, orNow 0 23 t.tmHour now.tmHour⟩

/-- The date of `alarm_setup`; `none` where it gives up. -/
def setupDate (mode : ℕ) (t now : Tm) : Tm × Bool :=
  if mode = rtAlarmDaily then (t, true)
  else if mode = rtAlarmOneshot then
    let t :=
      { t with
        tmYear := if t.tmYear = rtAlarmTmNow then now.tmYear else t.tmYear
        tmMon := if t.tmMon = rtAlarmTmNow then now.tmMon else t.tmMon
        tmMday := if t.tmMday = rtAlarmTmNow then now.tmMday else t.tmMday }
    (t, isValidDate t)
  else if mode = rtAlarmWeekly then ({ t with tmWday := orNow 0 6 t.tmWday now.tmWday }, true)
  else if mode = rtAlarmMonthly then ({ t with tmMday := orNow 1 31 t.tmMday now.tmMday }, true)
  else if mode = rtAlarmYearly then
    let t := { t with tmMon := orNow 0 11 t.tmMon now.tmMon }
    let days :=
      if t.tmMon = 1 then 29
      else if t.tmMon ≤ 6 ∧ t.tmMon % 2 = 0 ∨ t.tmMon > 6 ∧ t.tmMon % 2 = 1 then 31
      else 30
    ({ t with tmMday := orNow 1 days t.tmMday now.tmMday }, true)
  else (t, false)

/-- The last second of a day is two seconds ahead. -/
def insure (t : Hms) : Hms :=
  if t.tmHour = 23 ∧ t.tmMin = 59 ∧ t.tmSec = 59 then { t with tmSec := 60 - rtAlarmDelay } else t

/-- `alarm_setup`, which works on the time of the alarm also where it fails. -/
def alarmSetup (a : Alarm) (now : Tm) : Err × Alarm :=
  let (t, valid) := setupDate a.mode { a.wktime with toHms := setupHms a.wktime.toHms now.toHms } now
  if valid then (.eok, { a with wktime := { t with toHms := insure t.toHms }, inited := true })
  else (.error, { a with wktime := t })

/-- `alarm_setup` of an alarm that has not been set up. -/
def setUp (a : Alarm) (t₁ : ℕ) : Err × Alarm := if a.inited then (.eok, a) else alarmSetup a (localtime t₁)

/-! ## Waking up -/

/-- `(sec_now - sec_alarm) <= RT_ALARM_DELAY`, for values in `rt_uint32_t`. -/
def soon (secNow secAlarm : ℤ) : Bool := uint32 (secNow - secAlarm) ≤ rtAlarmDelay

/-- `alarm_wakeup` finds that a started alarm is due. -/
def Alarm.wakes (a : Alarm) (now : Tm) : Bool :=
  let secAlarm := alarmMkdaysec a.wktime.toHms
  let secNow := alarmMkdaysec now.toHms
  a.started &&
    if a.mode = rtAlarmOneshot then
      let secAlarm := uint32 (mktime a.wktime)
      let secNow := uint32 (mktime now)
      soon secNow secAlarm && secNow ≥ secAlarm
    else if a.mode = rtAlarmDaily then soon secNow secAlarm && secNow ≥ secAlarm
    else if a.mode = rtAlarmWeekly then
      let secAlarm := uint32 (secAlarm + a.wktime.tmWday * 24 * 3600)
      let secNow := uint32 (secNow + now.tmWday * 24 * 3600)
      soon secNow secAlarm && secNow ≥ secAlarm
    else if a.mode = rtAlarmMonthly then a.wktime.tmMday = now.tmMday && soon secNow secAlarm
    else if a.mode = rtAlarmYearly then
      a.wktime.tmMday = now.tmMday && a.wktime.tmMon = now.tmMon && soon secNow secAlarm
    else false

/-- A one-shot alarm is due, and stops. -/
def Alarm.expires (a : Alarm) (now : Tm) : Bool := a.mode = rtAlarmOneshot && a.wakes now

variable (precision : Hms → Hms)

/-- `alarm_set`: the alarm, and what the RTC is set to. -/
def alarmSet (a : Alarm) : Alarm × Wkalarm :=
  let hms := precision a.wktime.toHms
  (if a.started then { a with wktime := { a.wktime with toHms := hms } } else a, ⟨a.started, hms⟩)

/-- The loop of `alarm_wakeup` over the alarms. -/
def wakeups (now : Tm) : List Alarm → Wkalarm → List Alarm × Wkalarm × List Addr
  | [], w => ([], w, [])
  | a :: l, w =>
    let (b, w) := if a.expires now then alarmSet precision { a with started := false } else (a, w)
    let (l, w, called) := wakeups now l w
    (b :: l, w, if a.wakes now ∧ a.callback then a.addr :: called else called)

/-! ## Choosing the next alarm -/

/-- `sec_next`, `alm_next`, `sec_prev` and `alm_prev`. -/
structure Scan where
  secNext : ℤ
  almNext : Option Alarm
  secPrev : ℤ
  almPrev : Option Alarm

/-- A pass of the second loop of `alarm_update`. -/
def scan (current : Option Addr) (secNow : ℤ) (x : Scan) (a : Alarm) : Scan :=
  if a.started ∧ current ≠ some a.addr then
    let secTmp := int32 (alarmMkdaysec a.wktime.toHms) - secNow
    if secTmp > 0 then if secTmp < x.secNext then { x with secNext := secTmp, almNext := some a } else x
    else if secTmp < x.secPrev then { x with secPrev := secTmp, almPrev := some a }
    else x
  else x

namespace State

variable (s : State)

def find (p : Addr) : Option Alarm := s.alarms.find? fun a => a.addr = p

def set (a : Alarm) : State := { s with alarms := s.alarms.map fun b => if b.addr = a.addr then a else b }

/-- `alarm_set`. -/
def alarmSet (a : Alarm) : State :=
  { s.set (Rtc.alarmSet precision a).1 with wkalarm := (Rtc.alarmSet precision a).2 }

/-- `alarm_set`, and the alarm is the current one. -/
def arm : Option Alarm → State
  | some a => { s.alarmSet precision a with current := some a.addr }
  | none => s

/-- The first loop of `alarm_update`. -/
def wakeups (t₁ : ℕ) : State :=
  let (alarms, wkalarm, called) := Rtc.wakeups precision (localtime t₁) s.alarms s.wkalarm
  { s with alarms, wkalarm, called := s.called ++ called }

/-- `alarm_update`. -/
def alarmUpdate (t₁ t₂ : ℕ) : State :=
  if s.alarms = [] then s
  else
    let s := s.wakeups precision t₁
    let secNow := int32 (alarmMkdaysec (localtime t₂).toHms)
    let x := s.alarms.foldl (scan s.current secNow) ⟨24 * 3600, none, 0, none⟩
    if x.secNext < 24 * 3600 then s.arm precision x.almNext
    else if x.secPrev < 0 then s.arm precision x.almPrev
    else s

/-- `rt_alarm_start` of an alarm that is set up and stopped. -/
def start (a : Alarm) (t₂ : ℕ) : Err × State :=
  let b := { a with started := true }
  let s := s.set b
  match s.current.bind s.find with
  | none => (.eok, s.arm precision (some b))
  | some c =>
    let secNow := int32 (alarmMkdaysec (localtime t₂).toHms)
    let secOld := int32 (alarmMkdaysec c.wktime.toHms)
    let secNew := int32 (alarmMkdaysec b.wktime.toHms)
    if secNew < secOld ∧ secNew > secNow ∨ secNew > secNow ∧ secOld < secNow ∨ secNew < secOld ∧ secOld < secNow then
      (.eok, s.arm precision (some b))
    else (.eok, s)

/-- `rt_alarm_start`. -/
def rtAlarmStart (a : Alarm) (t₁ t₂ : ℕ) : Err × State :=
  let (ret, b) := setUp a t₁
  let s := s.set b
  if ret = .error then (.error, s)
  else if b.started = false then s.start precision b t₂
  else (.error, s)

/-- `rt_alarm_stop`. -/
def rtAlarmStop (a : Alarm) (t₁ t₂ : ℕ) : Err × State :=
  if a.started then
    let a := { a with started := false }
    let s := s.set a
    if s.current = some a.addr then
      (.eok, { s.alarmSet precision a with current := none }.alarmUpdate precision t₁ t₂)
    else (.error, s)
  else (.error, s)

/-- `rt_alarm_delete`. -/
def rtAlarmDelete (a : Alarm) (t₁ t₂ : ℕ) : Err × State :=
  let a := { a with started := false }
  let s := s.set a
  let (ret, s) : Err × State :=
    if s.current = some a.addr then
      (.eok, { s.alarmSet precision a with current := none }.alarmUpdate precision t₁ t₂)
    else (.error, s)
  (ret, { s with alarms := s.alarms.filter fun b => b.addr ≠ a.addr })

/-- `rt_alarm_control`; `RT_ALARM_CTRL_MODIFY` is 1. -/
def rtAlarmControl (a : Alarm) (cmd flag : ℕ) (wktime : Tm) (t₁ t₂ : ℕ) : Err × State :=
  if cmd = 1 then
    let s := (s.rtAlarmStop precision a t₁ t₂).2
    let (ret, b) :=
      alarmSetup { a with mode := flag &&& 0xFF00, inited := false, started := false, wktime } (localtime t₂)
    (ret, s.set b)
  else (.error, s)

/-- `rt_alarm_create`, where `rt_malloc` returns `p`. -/
def rtAlarmCreate (p : Addr) (callback : Bool) (flag : ℕ) (wktime : Tm) : State :=
  { s with alarms := ⟨p, flag &&& 0xFF00, false, false, callback, wktime⟩ :: s.alarms }

end State

/-! ## Runs -/

inductive Act
  | create (p : Addr) (callback : Bool) (flag : ℕ) (wktime : Tm)
  | start (p : Addr)
  | stop (p : Addr)
  | delete (p : Addr)
  | control (p : Addr) (cmd flag : ℕ) (wktime : Tm)
  /-- the service thread receives an event -/
  | event

/-- An operation with its readings of the clock. -/
structure Op where
  act : Act
  t₁ : ℕ
  t₂ : ℕ

def State.act (s : State) (t₁ t₂ : ℕ) : Act → Option State
  | .create p callback flag wktime =>
    if s.find p = none then some (s.rtAlarmCreate p callback flag wktime) else none
  | .start p => (s.find p).map fun a => (s.rtAlarmStart precision a t₁ t₂).2
  | .stop p => (s.find p).map fun a => (s.rtAlarmStop precision a t₁ t₂).2
  | .delete p => (s.find p).map fun a => (s.rtAlarmDelete precision a t₁ t₂).2
  | .control p cmd flag wktime => (s.find p).map fun a => (s.rtAlarmControl precision a cmd flag wktime t₁ t₂).2
  | .event => some (s.alarmUpdate precision t₁ t₂)

/-- An operation on an alarm that exists, with a clock that does not go back. -/
def State.step (s : State) (o : Op) : Option State :=
  if s.clock ≤ o.t₁ ∧ o.t₁ ≤ o.t₂ then (s.act precision o.t₁ o.t₂ o.act).map fun s => { s with clock := o.t₂ } else none

/-- `_container` at the start of the service, with an RTC whose alarm is disabled. -/
def State.Init (s : State) : Prop := ∃ hms clock, s = ⟨[], none, ⟨false, hms⟩, [], clock⟩

abbrev Runs (ok : State → Op → Prop) : State → Prop :=
  Run.Reach State.Init (fun s o s' => s.step precision o = some s') ok

/-! ## What the alarm is to be set to -/

/-- The second of the day at which an alarm comes. -/
def Alarm.daysec (a : Alarm) : ℤ := alarmMkdaysec a.wktime.toHms

/-- The second of the day of a time. -/
def daysecAt (t : ℕ) : ℤ := alarmMkdaysec (localtime t).toHms

/-- The seconds from `now` until it is `x` again, within 24 hours. -/
def secondsUntil (now x : ℤ) : ℤ := if now < x then x - now else x - now + 24 * 3600

/-- **The RTC is armed for the next alarm**: if an alarm is started, then the RTC is set to the time of a started
alarm that comes first. -/
def Armed (s : State) : Prop :=
  (∃ a ∈ s.alarms, a.started = true) → s.wkalarm.enable = true ∧
    ∃ a ∈ s.alarms, a.started = true ∧ s.wkalarm.hms = a.wktime.toHms ∧
      ∀ b ∈ s.alarms, b.started = true →
        secondsUntil (daysecAt s.clock) a.daysec ≤ secondsUntil (daysecAt s.clock) b.daysec

/-! ## The operations that arm it -/

section

variable (now : ℤ) (current : Option Addr) (l : List Alarm)

/-- No time of another started alarm comes before that of the current one. -/
def Stays : Prop :=
  ∀ c ∈ l, current = some c.addr → c.started = true → ∀ b ∈ l, b.started = true →
    secondsUntil now c.daysec ≤ secondsUntil now b.daysec

/-- An alarm `a` is about to be started. The current one does not come in this very second, unless both do. If it
has stopped, then `a` comes before it; and of the started ones none comes before both. -/
def Starts (a : Alarm) : Prop :=
  ∀ c ∈ l, current = some c.addr → (c.daysec = now → a.daysec = now) ∧
    if c.started = true then
      ∀ b ∈ l, b.started = true →
        secondsUntil now c.daysec ≤ secondsUntil now b.daysec ∨ secondsUntil now a.daysec ≤ secondsUntil now b.daysec
    else c.daysec ≠ now ∧ secondsUntil now a.daysec < secondsUntil now c.daysec

/-- A new alarm is chosen from `l`, where the alarms were `old` before some expired. No alarm is started; or one
other than the current alarm is, which comes in a later second, and before the current one if this is started;
or the current one is, the others come in this very second, and none has expired. -/
def Rearms (old : List Alarm) : Prop :=
  (∀ a ∈ l, a.started = false) ∨
  (∃ a ∈ l, a.started = true ∧ current ≠ some a.addr ∧ a.daysec ≠ now ∧
    ∀ c ∈ l, current = some c.addr → c.started = true → secondsUntil now a.daysec ≤ secondsUntil now c.daysec) ∨
  (∃ c ∈ l, current = some c.addr ∧ c.started = true) ∧
    (∀ a ∈ l, a.started = true → current ≠ some a.addr → a.daysec = now) ∧ l = old

instance : Decidable (Stays now current l) := inferInstanceAs (Decidable (∀ _ ∈ _, _))

instance (a : Alarm) : Decidable (Starts now current l a) := inferInstanceAs (Decidable (∀ _ ∈ _, _))

instance (old : List Alarm) : Decidable (Rearms now current l old) := inferInstanceAs (Decidable (_ ∨ _ ∨ _))

end

/-- The one-shot alarms that are due have stopped. -/
def expire (now : Tm) (l : List Alarm) : List Alarm :=
  l.map fun a => if a.expires now then { a with started := false } else a

/-- The alarms, of which `a` has stopped. -/
def State.without (s : State) (a : Alarm) : List Alarm := (s.set { a with started := false }).alarms

/-- The alarm is stopped, and another one chosen if it was the current one. -/
def State.Stops (s : State) (o : Op) (a : Alarm) : Prop :=
  if a.started = true ∧ s.current = some a.addr then
    Rearms (daysecAt o.t₂) none (expire (localtime o.t₁) (s.without a)) (s.without a)
  else Stays (daysecAt o.t₂) s.current (s.without a)

/-- The alarm is started, if it can be set up and is stopped. -/
def State.StartsAt (s : State) (o : Op) (a : Alarm) : Prop :=
  if (setUp a o.t₁).1 = .eok ∧ a.started = false then
    Starts (daysecAt o.t₂) s.current (s.set (setUp a o.t₁).2).alarms (setUp a o.t₁).2
  else Stays (daysecAt o.t₂) s.current s.alarms

/-- The alarm is deleted, and another one chosen if it was the current one. -/
def State.Deletes (s : State) (o : Op) (a : Alarm) : Prop :=
  if s.current = some a.addr then
    Rearms (daysecAt o.t₂) none (expire (localtime o.t₁) (s.without a)) (s.without a)
  else Stays (daysecAt o.t₂) s.current (s.without a)

/-- An operation behind which the RTC is armed. -/
def Meets (s : State) (o : Op) : Prop :=
  match o.act with
  | .create _ _ _ _ => Stays (daysecAt o.t₂) s.current s.alarms
  | .start p => ∀ a ∈ s.find p, s.StartsAt o a
  | .stop p => ∀ a ∈ s.find p, s.Stops o a
  | .delete p => ∀ a ∈ s.find p, s.Deletes o a
  | .control p cmd _ _ =>
    if cmd = 1 then ∀ a ∈ s.find p, s.Stops o a else Stays (daysecAt o.t₂) s.current s.alarms
  | .event => Rearms (daysecAt o.t₂) s.current (expire (localtime o.t₁) s.alarms) s.alarms

instance (s : State) (o : Op) (a : Alarm) : Decidable (s.StartsAt o a) :=
  inferInstanceAs (Decidable (if (setUp a o.t₁).1 = .eok ∧ a.started = false then Starts (daysecAt o.t₂) s.current
    (s.set (setUp a o.t₁).2).alarms (setUp a o.t₁).2 else Stays (daysecAt o.t₂) s.current s.alarms))

instance (s : State) (o : Op) (a : Alarm) : Decidable (s.Stops o a) :=
  inferInstanceAs (Decidable (if a.started = true ∧ s.current = some a.addr then
    Rearms (daysecAt o.t₂) none (expire (localtime o.t₁) (s.without a)) (s.without a)
    else Stays (daysecAt o.t₂) s.current (s.without a)))

instance (s : State) (o : Op) (a : Alarm) : Decidable (s.Deletes o a) :=
  inferInstanceAs (Decidable (if s.current = some a.addr then
    Rearms (daysecAt o.t₂) none (expire (localtime o.t₁) (s.without a)) (s.without a)
    else Stays (daysecAt o.t₂) s.current (s.without a)))

instance (s : State) (o : Op) : Decidable (Meets s o) :=
  match o with
  | ⟨.create _ _ _ _, _, t₂⟩ => inferInstanceAs (Decidable (Stays (daysecAt t₂) s.current s.alarms))
  | ⟨.start p, t₁, t₂⟩ => inferInstanceAs (Decidable (∀ a ∈ s.find p, s.StartsAt ⟨.start p, t₁, t₂⟩ a))
  | ⟨.stop p, t₁, t₂⟩ => inferInstanceAs (Decidable (∀ a ∈ s.find p, s.Stops ⟨.stop p, t₁, t₂⟩ a))
  | ⟨.delete p, t₁, t₂⟩ => inferInstanceAs (Decidable (∀ a ∈ s.find p, s.Deletes ⟨.delete p, t₁, t₂⟩ a))
  | ⟨.control p cmd flag wktime, t₁, t₂⟩ =>
    inferInstanceAs (Decidable (if cmd = 1 then ∀ a ∈ s.find p, s.Stops ⟨.control p cmd flag wktime, t₁, t₂⟩ a
      else Stays (daysecAt t₂) s.current s.alarms))
  | ⟨.event, t₁, t₂⟩ =>
    inferInstanceAs (Decidable (Rearms (daysecAt t₂) s.current (expire (localtime t₁) s.alarms) s.alarms))

end RtThread.Rtc
