import FormulaDoc.Calendar.Moment

/-!
# Date patterns

A pattern is text with directives that start with a percent sign, each of which writes a part of a
moment. A pad sign between the percent sign and the letter of a numeric directive replaces its usual
padding. A pattern with anything else after a percent sign is invalid.
-/
namespace FormulaDoc.Calendar

inductive Pad where
  | none
  | zero
  | space
  deriving DecidableEq, Repr

inductive Part where
  | year | century | yearOfCentury
  | isoYear | isoYearOfCentury
  | quarter | month | day
  | sundayWeek | mondayWeek | isoWeek
  | weekdayFromSunday | weekdayFromMonday
  | dayOfYear
  | hour | hour12 | minute | second | nanosecond
  | timestamp
  deriving DecidableEq, Repr

inductive PatternItem where
  | text (c : Char)
  | number (part : Part) (pad : Pad)
  | monthName (short : Bool)
  | weekdayName (short : Bool)
  | halfDay (capitals : Bool)
  /-- A point and as many triples of digits as the fraction needs, nothing for none. -/
  | fraction
  /-- The first digits of the fraction, perhaps after a point. -/
  | fractionDigits (count : Nat) (point : Bool)
  | zoneName
  /-- The offset from universal time with some number of colons. -/
  | offset (colons : Nat)
  /-- A date and time in one word, with fraction and offset. -/
  | combined
  /-- An offset that can be read but not written. -/
  | unwritable
  deriving DecidableEq, Repr

namespace Pattern

/-- The numeric directives and their usual padding. -/
def part? : Char → Option (Part × Pad)
  | 'Y' => some (.year, .zero)
  | 'C' => some (.century, .zero)
  | 'y' => some (.yearOfCentury, .zero)
  | 'G' => some (.isoYear, .zero)
  | 'g' => some (.isoYearOfCentury, .zero)
  | 'q' => some (.quarter, .zero)
  | 'm' => some (.month, .zero)
  | 'd' => some (.day, .zero)
  | 'e' => some (.day, .space)
  | 'U' => some (.sundayWeek, .zero)
  | 'W' => some (.mondayWeek, .zero)
  | 'V' => some (.isoWeek, .zero)
  | 'w' => some (.weekdayFromSunday, .none)
  | 'u' => some (.weekdayFromMonday, .none)
  | 'j' => some (.dayOfYear, .zero)
  | 'H' => some (.hour, .zero)
  | 'k' => some (.hour, .space)
  | 'I' => some (.hour12, .zero)
  | 'l' => some (.hour12, .space)
  | 'M' => some (.minute, .zero)
  | 'S' => some (.second, .zero)
  | 'f' => some (.nanosecond, .zero)
  | 's' => some (.timestamp, .none)
  | _ => none

def clock : List PatternItem :=
  [.number .hour .zero, .text ':', .number .minute .zero, .text ':', .number .second .zero]

def slashedDate : List PatternItem :=
  [.number .month .zero, .text '/', .number .day .zero, .text '/', .number .yearOfCentury .zero]

/-- The directives of one letter that are no single number. -/
def directive? : Char → Option (List PatternItem)
  | 'A' => some [.weekdayName false]
  | 'a' => some [.weekdayName true]
  | 'B' => some [.monthName false]
  | 'b' => some [.monthName true]
  | 'h' => some [.monthName true]
  | 'P' => some [.halfDay false]
  | 'p' => some [.halfDay true]
  | 'Z' => some [.zoneName]
  | 'z' => some [.offset 0]
  | '+' => some [.combined]
  | 'n' => some [.text '\n']
  | 't' => some [.text '\t']
  | '%' => some [.text '%']
  | 'D' => some slashedDate
  | 'x' => some slashedDate
  | 'F' =>
    some [.number .year .zero, .text '-', .number .month .zero, .text '-', .number .day .zero]
  | 'R' => some [.number .hour .zero, .text ':', .number .minute .zero]
  | 'T' => some clock
  | 'X' => some clock
  | 'r' =>
    some [.number .hour12 .zero, .text ':', .number .minute .zero, .text ':',
      .number .second .zero, .text ' ', .halfDay true]
  | 'c' =>
    some ([.weekdayName true, .text ' ', .monthName true, .text ' ', .number .day .space,
      .text ' '] ++ clock ++ [.text ' ', .number .year .zero])
  | 'v' =>
    some [.number .day .space, .text '-', .monthName true, .text '-', .number .year .zero]
  | _ => none

def plain? (c : Char) : Option (List PatternItem) :=
  match part? c with
  | some (part, pad) => some [.number part pad]
  | none => directive? c

def pad? : Char → Option Pad
  | '-' => some .none
  | '0' => some .zero
  | '_' => some .space
  | _ => none

def fractionCount? : Char → Option Nat
  | '3' => some 3
  | '6' => some 6
  | '9' => some 9
  | _ => none

/-- The directive in front, after its percent sign, and the number of characters that it takes. -/
def directiveAt? : List Char → Option (List PatternItem × Nat)
  | ':' :: ':' :: ':' :: 'z' :: _ => some ([.offset 3], 4)
  | ':' :: ':' :: 'z' :: _ => some ([.offset 2], 3)
  | ':' :: 'z' :: _ => some ([.offset 1], 2)
  | '#' :: 'z' :: _ => some ([.unwritable], 2)
  | '.' :: 'f' :: _ => some ([.fraction], 2)
  | '.' :: c :: 'f' :: _ => (fractionCount? c).map fun count => ([.fractionDigits count true], 3)
  | c :: cs =>
    match pad? c, fractionCount? c, cs with
    | some pad, _, letter :: _ => (part? letter).map fun found => ([.number found.1 pad], 2)
    | none, some count, 'f' :: _ => some ([.fractionDigits count false], 2)
    | _, _, _ => (plain? c).map (·, 1)
  | [] => none

/-- The pieces of a pattern, none where a directive is invalid. -/
def read? : List Char → Option (List PatternItem)
  | [] => some []
  | c :: cs =>
    if c = '%' then
      match directiveAt? cs with
      | some (found, used) => (read? (cs.drop used)).map (found ++ ·)
      | none => none
    else (read? cs).map (.text c :: ·)
termination_by cs => cs.length
decreasing_by all_goals simp only [List.length_cons, List.length_drop]; omega

/-! ## Writing -/

def fill (width : Nat) (pad : Pad) (sign digits : List Char) : List Char :=
  let missing := width - (sign.length + digits.length)
  match pad with
  | .none => sign ++ digits
  | .zero => sign ++ (List.replicate missing '0' ++ digits)
  | .space => List.replicate missing ' ' ++ (sign ++ digits)

def signed (width : Nat) (pad : Pad) (n : Int) : List Char :=
  fill width pad (if n < 0 then ['-'] else []) (Nat.toDigits 10 n.natAbs)

/-- A year in four digits; outside of these it always has a sign. -/
def yearText (pad : Pad) (year : Int) : List Char :=
  if 0 ≤ year ∧ year ≤ 9999 then fill 4 pad [] (Nat.toDigits 10 year.toNat)
  else fill 5 pad (if year < 0 then ['-'] else ['+']) (Nat.toDigits 10 year.natAbs)

def twoDigits (pad : Pad) (n : Nat) : List Char := fill 2 pad [] (Nat.toDigits 10 n)

def partText (moment : Moment) (pad : Pad) : Part → List Char
  | .year => yearText pad moment.date.year
  | .century => twoDigits pad (moment.date.year.fdiv 100).toNat
  | .yearOfCentury => twoDigits pad (moment.date.year.fmod 100).toNat
  | .isoYear => yearText pad (isoWeek moment.days).1
  | .isoYearOfCentury => twoDigits pad ((isoWeek moment.days).1.fmod 100).toNat
  | .quarter => Nat.toDigits 10 moment.date.quarter
  | .month => twoDigits pad moment.date.month
  | .day => twoDigits pad moment.date.day
  | .sundayWeek => twoDigits pad (weekOfYear moment.date.ordinal (weekday moment.days))
  | .mondayWeek => twoDigits pad (weekOfYear moment.date.ordinal (isoWeekday moment.days - 1))
  | .isoWeek => twoDigits pad (isoWeek moment.days).2
  | .weekdayFromSunday => Nat.toDigits 10 (weekday moment.days)
  | .weekdayFromMonday => Nat.toDigits 10 (isoWeekday moment.days)
  | .dayOfYear => fill 3 pad [] (Nat.toDigits 10 moment.date.ordinal)
  | .hour => twoDigits pad moment.hour
  | .hour12 => twoDigits pad moment.hour12
  | .minute => twoDigits pad moment.minute
  | .second => twoDigits pad moment.second
  | .nanosecond => fill 9 pad [] (Nat.toDigits 10 moment.nanoseconds)
  | .timestamp => signed 9 pad moment.seconds

def fractionText (count nanoseconds : Nat) : List Char :=
  (fill 9 .zero [] (Nat.toDigits 10 nanoseconds)).take count

/-- The fraction of a second after a point, in as many triples of digits as it needs. -/
def shortFraction (nanoseconds : Nat) : List Char :=
  if nanoseconds = 0 then []
  else if nanoseconds % 1000000 = 0 then '.' :: fractionText 3 nanoseconds
  else if nanoseconds % 1000 = 0 then '.' :: fractionText 6 nanoseconds
  else '.' :: fractionText 9 nanoseconds

def offsetText : Nat → String
  | 0 => "+0000"
  | 1 => "+00:00"
  | 2 => "+00:00:00"
  | _ => "+00"

def nameText (names : List String) (place : Nat) (short : Bool) : List Char :=
  let name := names[place]?.getD ""
  (if short then shortName name else name).toList

def combinedText (moment : Moment) : List Char :=
  yearText .zero moment.date.year ++ '-' :: twoDigits .zero moment.date.month ++
    '-' :: twoDigits .zero moment.date.day ++ 'T' :: twoDigits .zero moment.hour ++
    ':' :: twoDigits .zero moment.minute ++ ':' :: twoDigits .zero moment.second ++
    shortFraction moment.nanoseconds ++ (offsetText 1).toList

def itemText? (moment : Moment) : PatternItem → Option (List Char)
  | .text c => some [c]
  | .number part pad => some (partText moment pad part)
  | .monthName short => some (nameText monthNames (moment.date.month - 1) short)
  | .weekdayName short => some (nameText weekdayNames (weekday moment.days) short)
  | .halfDay capitals =>
    some (match capitals, moment.isAfternoon with
      | false, false => ['a', 'm']
      | false, true => ['p', 'm']
      | true, false => ['A', 'M']
      | true, true => ['P', 'M'])
  | .fraction => some (shortFraction moment.nanoseconds)
  | .fractionDigits count point =>
    some ((if point then ['.'] else []) ++ fractionText count moment.nanoseconds)
  | .zoneName => some ['U', 'T', 'C']
  | .offset colons => some (offsetText colons).toList
  | .combined => some (combinedText moment)
  | .unwritable => none

def write? (moment : Moment) : List PatternItem → Option (List Char)
  | [] => some []
  | item :: rest => do
    let first ← itemText? moment item
    let others ← write? moment rest
    some (first ++ others)

end Pattern

end FormulaDoc.Calendar
