/-!
# Moments in time

A moment is a number of seconds before or after the start of 1970, in universal time and the
Gregorian calendar, which is extended to all years.
-/
namespace ScriptEngine.Calendar

/-- A calendar day, with its number from the start of 1970. -/
structure Date where
  year : Int
  month : Nat
  day : Nat
  /-- The number of the day in its year, from one. -/
  ordinal : Nat
  /-- Days since the last Sunday. -/
  weekday : Nat
  number : Int
deriving DecidableEq, Repr

structure Moment where
  date : Date
  hour : Nat
  minute : Nat
  second : Nat
  timestamp : Int
deriving DecidableEq, Repr

def isLeap (year : Int) : Bool := year % 4 == 0 && (year % 100 != 0 || year % 400 == 0)

/-- Days in a year before the first of a month. -/
def daysBefore (year : Int) (month : Nat) : Nat :=
  [0, 31, 59, 90, 120, 151, 181, 212, 243, 273, 304, 334].getD (month - 1) 0
    + (if isLeap year && 2 < month then 1 else 0)

def daysIn (year : Int) (month : Nat) : Nat :=
  if month = 2 then if isLeap year then 29 else 28
  else if [4, 6, 9, 11].contains month then 30 else 31

/-- The day with this number. Years are counted from March here, so that a leap day ends a year, and
400 of them make a cycle of 146097 days. -/
def Date.ofNumber (number : Int) : Date :=
  let z := number + 719468
  let cycle := z.fdiv 146097
  let inCycle := (z.fmod 146097).toNat
  let yearInCycle := (inCycle - inCycle / 1460 + inCycle / 36524 - inCycle / 146096) / 365
  let inYear := inCycle - (365 * yearInCycle + yearInCycle / 4 - yearInCycle / 100)
  let monthFromMarch := (5 * inYear + 2) / 153
  let day := inYear - (153 * monthFromMarch + 2) / 5 + 1
  let month := if monthFromMarch < 10 then monthFromMarch + 3 else monthFromMarch - 9
  let year := cycle * 400 + yearInCycle + (if month ≤ 2 then 1 else 0)
  { year, month, day
    ordinal := daysBefore year month + day
    weekday := ((number + 4).fmod 7).toNat
    number }

/-- The first and the last year that can be shown. -/
def firstYear : Int := -262143

def lastYear : Int := 262142

/-- The moment that many seconds from the start of 1970, if its year can be shown. -/
def Moment.ofSeconds? (seconds : Int) : Option Moment :=
  let date := Date.ofNumber (seconds.fdiv 86400)
  let inDay := (seconds.fmod 86400).toNat
  if firstYear ≤ date.year && date.year ≤ lastYear then
    some {
      date
      hour := inDay / 3600
      minute := inDay / 60 % 60
      second := inDay % 60
      timestamp := seconds }
  else none

namespace Date

/-- Monday is one and Sunday seven. -/
def weekdayFromMonday (d : Date) : Nat := if d.weekday = 0 then 7 else d.weekday

/-- Weeks of the year that have begun, when weeks begin on Sunday. -/
def weekFromSunday (d : Date) : Nat := (d.ordinal + 6 - d.weekday) / 7

/-- Weeks of the year that have begun, when weeks begin on Monday. -/
def weekFromMonday (d : Date) : Nat := (d.ordinal + 7 - d.weekdayFromMonday) / 7

/-- The Thursday of the same week; a week belongs to the year of its Thursday. -/
def thursday (d : Date) : Date := ofNumber (d.number + 4 - d.weekdayFromMonday)

def isoYear (d : Date) : Int := d.thursday.year

def isoWeek (d : Date) : Nat := (d.thursday.ordinal - 1) / 7 + 1

end Date

end ScriptEngine.Calendar
