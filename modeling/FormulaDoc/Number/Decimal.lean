import FormulaDoc.Number.Binary64

/-!
# Doubles in decimal

Reading a decimal takes the nearest double. Writing one takes the fewest digits that read back as the
same double, and of those the nearest; the digits are written out in full, without an exponent.
-/
namespace FormulaDoc.Decimal

open Binary64

/-- The magnitude nearest to `digits · 10 ^ exponent`. Far outside the range of doubles the answer is
known from the number of digits alone. -/
def read (digits : Nat) (exponent : Int) : Nat :=
  if digits = 0 then 0
  else if 400 < exponent then infinity
  else if exponent < -400 - Int.ofNat digits.log2 then 0
  else nearest (digits * Nat.pow 10 exponent.toNat) (Nat.pow 10 (-exponent).toNat)

def ofDigits (digits : List Char) : Nat := Nat.ofDigitChars 10 digits 0

def digits (n : Nat) : List Char := Nat.toDigits 10 n

/-- The place of the decimal point of a positive quotient: the least `p` with the quotient below
`10 ^ p`. -/
def pointPlace (num den : Nat) : Int :=
  if den ≤ num then Int.ofNat (digits (num / den)).length
  else 1 - Int.ofNat (digits ((den - 1) / num)).length

def readsBack (magnitude digits : Nat) (exponent : Int) : Bool :=
  decide (read digits exponent = magnitude)

/-- A neighbour of a magnitude on the grid of `10 ^ exponent` that reads back: of two the nearer one,
and the upper one on a tie. -/
def onGrid? (magnitude : Nat) (exponent : Int) : Option (Nat × Int) :=
  let num := numerator magnitude * Nat.pow 10 (-exponent).toNat
  let den := denominator magnitude * Nat.pow 10 exponent.toNat
  let below := num / den
  let above := below + 1
  match readsBack magnitude below exponent, readsBack magnitude above exponent with
  | true, true => some (if 2 * (num % den) < den then below else above, exponent)
  | true, false => some (below, exponent)
  | false, true => some (above, exponent)
  | false, false => none

/-- A magnitude written exactly: every double has finitely many decimal digits. -/
def exact (magnitude : Nat) : Nat × Int :=
  let q := exponent magnitude
  ((mantissa magnitude <<< q.toNat) * Nat.pow 5 (-q).toNat, if q < 0 then q else 0)

/-- Tries growing numbers of digits, and the exact decimal when the tries run out. -/
def search (magnitude : Nat) : Nat → Int → Nat × Int
  | 0, _ => exact magnitude
  | tries + 1, exponent => (onGrid? magnitude exponent).getD (search magnitude tries (exponent - 1))

/-- The shortest decimal of a positive finite magnitude. The coarsest grid has the next power of ten
above it as its only point in reach; seventeen digits suffice for every double. -/
def shortest (magnitude : Nat) : Nat × Int :=
  search magnitude 18 (pointPlace (numerator magnitude) (denominator magnitude))

def positional (n : Nat) (exponent : Int) : List Char :=
  let ds := digits n
  let places := (-exponent).toNat
  if 0 ≤ exponent then ds ++ List.replicate exponent.toNat '0'
  else if places < ds.length then ds.take (ds.length - places) ++ '.' :: ds.drop (ds.length - places)
  else '0' :: '.' :: (List.replicate (places - ds.length) '0' ++ ds)

def magnitudeText (magnitude : Nat) : List Char :=
  if magnitude = 0 then ['0']
  else
    let shortest := shortest magnitude
    positional shortest.1 shortest.2

def text (x : Float) : String :=
  if isNaN x then "NaN"
  else
    let sign := if isNegative x then ['-'] else []
    if isInfinite x then String.ofList (sign ++ ['i', 'n', 'f'])
    else String.ofList (sign ++ magnitudeText (magnitude x))

end FormulaDoc.Decimal
