import Szarp.Lib.Gregorian
import Szarp.Lib.LocalTime

/-!
# Displayed periods

`DTime` and `TimeIndex` of `drawtime.cpp`. A `wxDateTime` is a number of milliseconds with the wall
clocks of a zone; the period `PERIOD_T_OTHER` and invalid times are left out. Spans, distances and
indices are exact integers here; the getters of `wxTimeSpan` that give an `int` wrap for distances of
thousands of years.
-/

namespace Szarp
namespace Draw3

open Gregorian

inductive PeriodType where
  | decade
  | year
  | month
  | week
  | day
  | thirtyMinute
  | season
deriving DecidableEq

structure DateSpan where
  years : ℤ
  months : ℤ
  weeks : ℤ
  days : ℤ
deriving DecidableEq

def DateSpan.scale (i : ℤ) (span : DateSpan) : DateSpan :=
  ⟨i * span.years, i * span.months, i * span.weeks, i * span.days⟩

/-! ## Time spans -/

def getSeconds (span : ℤ) : ℤ := span.tdiv 1000

def getMinutes (span : ℤ) : ℤ := (getSeconds span).tdiv 60

def getHours (span : ℤ) : ℤ := (getSeconds span).tdiv 3600

def getDays (span : ℤ) : ℤ := (getHours span).tdiv 24

/-! ## Calendar -/

def date (w : ℤ) : ℤ × ℕ × ℤ := dateOfDay (w / 86400000 + epochDay)

def midnight (year : ℤ) (month : ℕ) (day : ℤ) : ℤ :=
  (dayNumber year month day - epochDay) * 86400000

def monthIndex (year : ℤ) (month : ℕ) : ℤ := 12 * year + (month - 1)

/-- What wall clocks show after a span; the last day of a month is taken where there is no such
day. -/
def addToWall (span : DateSpan) (w : ℤ) : ℤ :=
  let (year, month, day) := date w
  let k := monthIndex (year + span.years) month + span.months
  let month := (k % 12).toNat + 1
  midnight (k / 12) month (min day (monthLength (k / 12) month)) +
    (7 * span.weeks + span.days) * 86400000 + w % 86400000

namespace DateTime

variable (z : LocalZone)

def getHour (t : ℤ) : ℤ := z.toLocal t % 86400000 / 3600000

def getMinute (t : ℤ) : ℤ := z.toLocal t % 3600000 / 60000

def getSecond (t : ℤ) : ℤ := z.toLocal t % 60000 / 1000

def setHour (hour t : ℤ) : ℤ :=
  let w := z.toLocal t
  z.ofLocal (w - w % 86400000 + hour * 3600000 + w % 3600000)

def setMinute (minute t : ℤ) : ℤ :=
  let w := z.toLocal t
  z.ofLocal (w - w % 3600000 + minute * 60000 + w % 60000)

def setSecond (second t : ℤ) : ℤ :=
  let w := z.toLocal t
  z.ofLocal (w - w % 60000 + second * 1000 + w % 1000)

def setMillisecond (millisecond t : ℤ) : ℤ := t - t % 1000 + millisecond

def add (span : DateSpan) (t : ℤ) : ℤ := z.ofLocal (addToWall span (z.toLocal t))

/-- `SetToWeekDayInSameWeek` for Monday, the first day of a week. -/
def setToMonday (t : ℤ) : ℤ :=
  let weekDay := (z.toLocal t / 86400000 + 3) % 7
  if weekDay = 0 then t else add z ⟨0, 0, 0, -weekDay⟩ t

/-- The workaround for clock changes in `AdjustToPeriod`: the time is again in summer when `tmp`
is. -/
def restoreDst (tmp t : ℤ) : ℤ :=
  if z.isDst tmp ∧ ¬z.isDst t then t - 3600000
  else if ¬z.isDst tmp ∧ z.isDst t then t + 3600000
  else t

end DateTime

@[ext]
structure DTime where
  period : PeriodType
  time : ℤ

namespace DTime

open DateTime

variable (z : LocalZone)

def adjustToPeriod (t : DTime) : DTime where
  period := t.period
  time :=
    let (year, month, day) := date (z.toLocal t.time)
    match t.period with
    | .decade => z.ofLocal (midnight year 1 1)
    | .year => z.ofLocal (midnight year month 1)
    | .month => z.ofLocal (midnight year month day)
    | .week =>
      setMillisecond 0 (setSecond z 0 (setMinute z 0 (setHour z (getHour z t.time / 8 * 8) t.time)))
    | .day =>
      restoreDst z t.time (setSecond z 0 (setMinute z (getMinute z t.time / 10 * 10) t.time))
    | .thirtyMinute => restoreDst z t.time (setSecond z (getSecond z t.time / 10 * 10) t.time)
    | .season =>
      setMillisecond 0 (setSecond z 0 (setMinute z 0 (setHour z 0 (setToMonday z t.time))))

/-- `operator+` for a `wxTimeSpan`. -/
def addTime (span : ℤ) (t : DTime) : DTime where
  period := t.period
  time :=
    match t.period with
    | .decade | .year | .month => t.time
    | .thirtyMinute | .day => t.time + span
    | .week | .season =>
      let s := t.time + span
      if z.isDst s ≠ z.isDst t.time then s + (if z.isDst t.time then 1 else -1) * 3600000 else s

/-- `operator+` for a `wxDateSpan`. -/
def addDate (span : DateSpan) (t : DTime) : DTime where
  period := t.period
  time :=
    if span.years ≠ 0 ∨ span.months ≠ 0 ∨ span.weeks ≠ 0 ∨ span.days ≠ 0 then
      DateTime.add z span t.time
    else t.time

def getDistance (t0 t : DTime) : ℤ :=
  let date0 := date (z.toLocal t0.time)
  let date := date (z.toLocal t.time)
  match t0.period with
  | .decade => date.1 - date0.1
  | .year => monthIndex date.1 date.2.1 - monthIndex date0.1 date0.2.1
  | .month =>
    let ret := getHours (t.time - t0.time)
    let ret :=
      if ret.tmod 24 = 1 then ret - 1
      else if ret.tmod 24 = 23 then ret + 1
      else if ret.tmod 24 = -1 then ret + 1
      else if ret.tmod 24 = -23 then ret - 1
      else ret
    ret.tdiv 24
  | .day => (getMinutes (t.time - t0.time)).tdiv 10
  | .thirtyMinute => (getSeconds (t.time - t0.time)).tdiv 10
  | .week => correct t0 t ((getHours (t.time - t0.time)).tdiv 8)
  | .season => correct t0 t ((getDays (t.time - t0.time)).tdiv 7)
where
  /-- What is added for clock changes. -/
  correct (t0 t : DTime) (ret : ℤ) : ℤ :=
    if z.isDst t0.time ≠ z.isDst t.time then
      if t0.time < t.time ∧ z.isDst t.time then ret + 1
      else if t.time < t0.time ∧ z.isDst t0.time then ret - 1
      else ret
    else ret

end DTime

/-! ## Indices -/

def timeRes : PeriodType → ℤ
  | .decade | .year | .month => 0
  | .week => 28800000
  | .day => 600000
  | .thirtyMinute => 10000
  | .season => 604800000

def dateRes : PeriodType → DateSpan
  | .decade => ⟨1, 0, 0, 0⟩
  | .year => ⟨0, 1, 0, 0⟩
  | .month => ⟨0, 0, 0, 1⟩
  | .week | .day | .thirtyMinute | .season => ⟨0, 0, 0, 0⟩

def getTimeOfIndex (z : LocalZone) (start : DTime) (i : ℤ) : DTime :=
  (start.addDate z ((dateRes start.period).scale i)).addTime z (i * timeRes start.period)

end Draw3
end Szarp
