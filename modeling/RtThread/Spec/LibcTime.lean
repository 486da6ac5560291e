import Mathlib.Data.Int.Init

/-!
# Calendar time (`components/libc/compilers/minilibc/time.c`)

`time_t` counts seconds from 1970 on; the timezone is 0. `tm_yday`, which nothing reads, is left out.
-/

namespace RtThread.Time

/-- The time of day of a `struct tm`. -/
structure Hms where
  tmSec : ℤ
  tmMin : ℤ
  tmHour : ℤ
  deriving DecidableEq

/-- `struct tm`. -/
structure Tm extends Hms where
  tmMday : ℤ
  tmMon : ℤ
  tmYear : ℤ
  tmWday : ℤ
  deriving DecidableEq

/-- `__spm`: the days in front of a month, in a year that is no leap year. -/
def spm : List ℕ := [0, 31, 59, 90, 120, 151, 181, 212, 243, 273, 304, 334, 365]

def isleap (year : ℕ) : Bool := year % 4 = 0 && (year % 100 ≠ 0 || year % 400 = 0)

/-- The loop over the years; `fuel` is at least the number of days. -/
def yearLoop : ℕ → ℕ → ℕ → ℕ × ℕ
  | 0, i, work => (i, work)
  | fuel + 1, i, work =>
    let k := if isleap i then 366 else 365
    if work ≥ k then yearLoop fuel (i + 1) (work - k) else (i, work)

/-- The loop over the months, downwards. -/
def monthLoop (work : ℕ) : ℕ → ℕ
  | 0 => 0
  | i + 1 => if spm.getD (i + 1) 0 > work then monthLoop work i else i + 1

/-- `gmtime_r`. -/
def gmtime (time : ℕ) : Tm :=
  let sec := time % (24 * 60 * 60)
  let day := time / (24 * 60 * 60)
  let (year, work) := yearLoop day 1970 day
  -- the 29th of February has a day of its own, and later days count as in other years
  let leap := isleap year ∧ work > 58
  let mday := if leap ∧ work = 59 then 2 else 1
  let work := if leap then work - 1 else work
  let mon := monthLoop work 11
  { tmSec := (sec % 60 : ℕ)
    tmMin := (sec / 60 % 60 : ℕ)
    tmHour := (sec / 60 / 60 : ℕ)
    tmMday := (mday + (work - spm.getD mon 0) : ℕ)
    tmMon := mon
    tmYear := year - 1900
    tmWday := ((4 + day) % 7 : ℕ) }

/-- `localtime_r`. -/
def localtime : ℕ → Tm := gmtime

/-- `mktime` of a time whose fields are in their ranges; `tm_wday` is left as it is. -/
def mktime (t : Tm) : ℤ :=
  let years := t.tmYear - 70
  if t.tmYear < 70 then -1
  else
    let day := years * 365 + (years + 1) / 4
    let day :=
      if years ≥ 131 then
        let years := (years - 131) / 100
        let day := day - (years / 4 * 3 + 1)
        let years := years % 4
        day - if years = 3 then years - 1 else years
      else day
    let day := day + spm.getD t.tmMon.toNat 0 + t.tmMday - 1 +
      if isleap (t.tmYear + 1900).toNat ∧ t.tmMon > 1 then 1 else 0
    ((day * 24 + t.tmHour) * 60 + t.tmMin) * 60 + t.tmSec

end RtThread.Time
