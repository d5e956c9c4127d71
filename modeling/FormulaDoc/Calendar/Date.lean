/-!
# Dates

The proleptic Gregorian calendar counted in days from the first of January 1970, with weekdays and
the weeks of ISO 8601. A year has its leap day by the rule of 4, 100 and 400, before the year one too.
-/
namespace FormulaDoc.Calendar

/-- A day of the calendar. Months and days count from one. -/
structure Date where
  year : Int
  month : Nat
  day : Nat
  deriving DecidableEq, Repr

def isLeapYear (year : Int) : Bool :=
  year % 4 == 0 && (year % 100 != 0 || year % 400 == 0)

def daysPerCycle : Int := 146097

/-- The days of a year that starts in March before one of its months, which count from zero. -/
def daysBeforeMonth (month : Nat) : Nat := (153 * month + 2) / 5

/-- The date of a day. Cycles and years are taken to start in March, so that a leap day ends both. -/
def Date.ofDays (days : Int) : Date :=
  let shifted := days + 719468
  let cycle := shifted.fdiv daysPerCycle
  let dayOfCycle := (shifted.fmod daysPerCycle).toNat
  let yearOfCycle :=
    (dayOfCycle - dayOfCycle / 1460 + dayOfCycle / 36524 - dayOfCycle / 146096) / 365
  let dayOfYear := dayOfCycle - (365 * yearOfCycle + yearOfCycle / 4 - yearOfCycle / 100)
  let month := (5 * dayOfYear + 2) / 153
  let day := dayOfYear - daysBeforeMonth month + 1
  let year := cycle * 400 + Int.ofNat yearOfCycle
  if month < 10 then ⟨year, month + 3, day⟩ else ⟨year + 1, month - 9, day⟩

def daysBefore : List Nat := [0, 31, 59, 90, 120, 151, 181, 212, 243, 273, 304, 334]

def Date.ordinal (date : Date) : Nat :=
  daysBefore.getD (date.month - 1) 0 + date.day +
    (if isLeapYear date.year && 2 < date.month then 1 else 0)

/-- The weekday of a day, from zero for Sunday. -/
def weekday (days : Int) : Nat := ((days + 4).fmod 7).toNat

/-- The weekday of a day, from one for Monday. -/
def isoWeekday (days : Int) : Nat := ((days + 3).fmod 7).toNat + 1

def lastWeekday (year : Int) : Int :=
  (year + year.fdiv 4 - year.fdiv 100 + year.fdiv 400).fmod 7

/-- The number of ISO weeks in a year: 53 where it ends on a Thursday or the year before ended on a
Wednesday. -/
def isoWeeksIn (year : Int) : Nat :=
  if lastWeekday year == 4 || lastWeekday (year - 1) == 3 then 53 else 52

/-- The ISO year and week of a day: the week belongs to the year that its Thursday is in. -/
def isoWeek (days : Int) : Int × Nat :=
  let date := Date.ofDays days
  let week := (date.ordinal + 10 - isoWeekday days) / 7
  if week = 0 then (date.year - 1, isoWeeksIn (date.year - 1))
  else if isoWeeksIn date.year < week then (date.year + 1, 1)
  else (date.year, week)

/-- The week of a day in its year where weeks start on a weekday, which is given by the number of days
that passed in this week. Days before the first such weekday are in week zero. -/
def weekOfYear (ordinal passed : Nat) : Nat := (ordinal + 6 - passed) / 7

def Date.quarter (date : Date) : Nat := (date.month + 2) / 3

def monthNames : List String :=
  ["January", "February", "March", "April", "May", "June", "July", "August", "September", "October",
    "November", "December"]

def weekdayNames : List String :=
  ["Sunday", "Monday", "Tuesday", "Wednesday", "Thursday", "Friday", "Saturday"]

def shortName (name : String) : String := String.ofList (name.toList.take 3)

end FormulaDoc.Calendar
