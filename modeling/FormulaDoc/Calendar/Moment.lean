import FormulaDoc.Calendar.Date
import FormulaDoc.Number.Integral

/-!
# Moments

A point in time, in whole seconds from the first of January 1970 and nanoseconds after them. Moments
are read off doubles, as far as the calendar reaches.
-/
namespace FormulaDoc.Calendar

/-- A point in time in universal time. -/
structure Moment where
  seconds : Int
  nanoseconds : Nat
  deriving DecidableEq, Repr

def secondsPerDay : Int := 86400

namespace Moment

/-- The day of a moment, counted from the first of January 1970. -/
def days (moment : Moment) : Int := moment.seconds.fdiv secondsPerDay

def date (moment : Moment) : Date := Date.ofDays moment.days

def secondOfDay (moment : Moment) : Nat := (moment.seconds.fmod secondsPerDay).toNat

def hour (moment : Moment) : Nat := moment.secondOfDay / 3600

def hour12 (moment : Moment) : Nat := if moment.hour % 12 = 0 then 12 else moment.hour % 12

def isAfternoon (moment : Moment) : Bool := decide (12 ≤ moment.hour)

def minute (moment : Moment) : Nat := moment.secondOfDay / 60 % 60

def second (moment : Moment) : Nat := moment.secondOfDay % 60

/-- The years that the calendar reaches. -/
def inCalendar (year : Int) : Bool := decide (-262143 ≤ year ∧ year ≤ 262142)

/-- The moment of a number of seconds, to the nearest nanosecond that does not reach the next second;
none where the calendar ends. -/
def ofSeconds? (timestamp : Float) : Option Moment := do
  let whole := Binary64.floor timestamp
  let seconds ← Binary64.toInt? whole
  let fraction ← Binary64.toInt? (Binary64.round ((timestamp - whole) * 1000000000.0))
  let moment := Moment.mk seconds (min fraction.toNat 999999999)
  if inCalendar moment.date.year then some moment else none

end Moment

end FormulaDoc.Calendar
