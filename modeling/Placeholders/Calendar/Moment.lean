import Placeholders.Record

namespace Placeholders.Calendar

structure Date where
  year : Int
  month : Nat
  day : Nat
  deriving DecidableEq, Repr

def isLeap (year : Int) : Bool := year % 4 = 0 && (year % 100 ≠ 0 || year % 400 = 0)

/-- Days from the start of 1 March of year 0 to the start of 1970. -/
def daysTo1970 : Int := 719468

/-- The days of a year that starts in March before the start of its month `m`, counted from 0. -/
def daysBeforeMonth (m : Nat) : Nat := (153 * m + 2) / 5

/-- The date of a day counted from the start of 1970, in the Gregorian calendar carried backwards
past a year 0. Years are taken to start in March, which puts the leap day last; the calendar then
repeats every 400 years, of 146097 days. -/
def Date.ofDays (days : Int) : Date :=
  let shifted := days + daysTo1970
  let era := shifted / 146097
  let dayOfEra := (shifted % 146097).toNat
  let yearOfEra := (dayOfEra - dayOfEra / 1460 + dayOfEra / 36524 - dayOfEra / 146096) / 365
  let dayOfYear := dayOfEra - (365 * yearOfEra + yearOfEra / 4 - yearOfEra / 100)
  let monthFromMarch := (5 * dayOfYear + 2) / 153
  let month := if monthFromMarch < 10 then monthFromMarch + 3 else monthFromMarch - 9
  { year := era * 400 + yearOfEra + (if month ≤ 2 then 1 else 0)
    month
    day := dayOfYear - daysBeforeMonth monthFromMarch + 1 }

def Date.ordinal (d : Date) : Nat :=
  if d.month ≤ 2 then (d.month - 1) * 31 + d.day
  else 59 + (if isLeap d.year then 1 else 0) + daysBeforeMonth (d.month - 3) + d.day

structure Moment where
  timestamp : Timestamp
  date : Date
  weekday : Nat
  /-- The Thursday of the same week, where weeks start on Monday: its year is the week's. -/
  thursday : Date
  hour : Nat
  minute : Nat
  second : Nat
  deriving DecidableEq, Repr

/-- The first and the last timestamp that have a date. -/
def firstTimestamp : Int := -8334601228800

def lastTimestamp : Int := 8210266876799

def secondsPerDay : Int := 86400

def Moment.ofTimestamp? (t : Timestamp) : Option Moment :=
  let seconds := t.toInt
  if firstTimestamp ≤ seconds && seconds ≤ lastTimestamp then
    let days := seconds / secondsPerDay
    let secondOfDay := (seconds % secondsPerDay).toNat
    -- 1 January 1970 was a Thursday
    let sinceMonday := (days + 3) % 7
    some {
      timestamp := t
      date := Date.ofDays days
      weekday := ((days + 4) % 7).toNat
      thursday := Date.ofDays (days - sinceMonday + 3)
      hour := secondOfDay / 3600
      minute := secondOfDay / 60 % 60
      second := secondOfDay % 60 }
  else none

namespace Moment

def ordinal (m : Moment) : Nat := m.date.ordinal

def sinceMonday (m : Moment) : Nat := (m.weekday + 6) % 7

def dialHour (m : Moment) : Nat := if m.hour % 12 = 0 then 12 else m.hour % 12

def isAfternoon (m : Moment) : Bool := 12 ≤ m.hour

/-- The week of the year, where the first Sunday starts week 1. -/
def sundayWeek (m : Moment) : Nat := (m.ordinal + 6 - m.weekday) / 7

/-- The week of the year, where the first Monday starts week 1. -/
def mondayWeek (m : Moment) : Nat := (m.ordinal + 6 - m.sinceMonday) / 7

/-- The week of the year that it has most of its days in. -/
def isoWeek (m : Moment) : Nat := (m.thursday.ordinal - 1) / 7 + 1

def isoYear (m : Moment) : Int := m.thursday.year

def quarter (m : Moment) : Nat := (m.date.month - 1) / 3 + 1

end Moment

end Placeholders.Calendar
