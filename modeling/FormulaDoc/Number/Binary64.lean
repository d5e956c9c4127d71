/-!
# Doubles as exact numbers

A finite double is `± m · 2 ^ q` with a whole mantissa below `2 ^ 53`. Its *magnitude* is the bit
pattern without the sign, a natural number that grows with the absolute value. Rounding a quotient
of naturals to a double is done on magnitudes, with a tie going to the even mantissa.
-/
namespace FormulaDoc.Binary64

/-- The number of magnitudes in one binade, `2 ^ 52`: the weight of a normal mantissa's first bit. -/
def binade : Nat := 4503599627370496

/-- The weight of the sign in a bit pattern, `2 ^ 63`. -/
def signWeight : Nat := 9223372036854775808

/-- The magnitude of infinity: the least one that no finite double has. -/
def infinity : Nat := 2047 * binade

def bits (x : Float) : Nat := x.toBits.toNat

def magnitude (x : Float) : Nat := bits x % signWeight

/-- The sign of a double; a negative zero has it too. -/
def isNegative (x : Float) : Bool := decide (signWeight ≤ bits x)

def ofMagnitude (negative : Bool) (magnitude : Nat) : Float :=
  Float.ofBits (UInt64.ofNat (if negative then signWeight + magnitude else magnitude))

def isFinite (x : Float) : Bool := decide (magnitude x < infinity)

def isInfinite (x : Float) : Bool := decide (magnitude x = infinity)

def isNaN (x : Float) : Bool := decide (infinity < magnitude x)

def nan : Float := 0.0 / 0.0

def neg (x : Float) : Float := ofMagnitude (!isNegative x) (magnitude x)

def abs (x : Float) : Float := ofMagnitude false (magnitude x)

/-- The whole mantissa of a finite magnitude. -/
def mantissa (magnitude : Nat) : Nat :=
  if magnitude < binade then magnitude else magnitude % binade + binade

/-- The power of two that the mantissa of a finite magnitude counts. -/
def exponent (magnitude : Nat) : Int :=
  if magnitude < binade then -1074 else Int.ofNat (magnitude / binade) - 1075

/-- A quotient to the nearest natural number, a tie to the even one. -/
def roundDiv (num den : Nat) : Nat :=
  let whole := num / den
  let twice := 2 * (num % den)
  if twice < den then whole
  else if den < twice then whole + 1
  else whole + whole % 2

/-- The power of two at or below a positive quotient. -/
def ratioLog2 (num den : Nat) : Int :=
  let estimate : Int := Int.ofNat num.log2 - Int.ofNat den.log2
  if den <<< estimate.toNat ≤ num <<< (-estimate).toNat then estimate else estimate - 1

/-- The magnitude of the double nearest to a quotient, infinity past the largest. The mantissa of
the result is the quotient in units of `2 ^ q`, and a carry out of it moves to the next power. -/
def nearest (num den : Nat) : Nat :=
  if num = 0 then 0
  else
    let q := max (ratioLog2 num den - 52) (-1074)
    let m := roundDiv (num <<< (-q).toNat) (den <<< q.toNat)
    min ((q + 1074).toNat * binade + m) infinity

/-- The numerator of a finite magnitude as an exact fraction. -/
def numerator (magnitude : Nat) : Nat := mantissa magnitude <<< (exponent magnitude).toNat

/-- The denominator of a finite magnitude as an exact fraction, a power of two. -/
def denominator (magnitude : Nat) : Nat := 1 <<< (-exponent magnitude).toNat

def ofInt (i : Int) : Float := ofMagnitude (decide (i < 0)) (nearest i.natAbs 1)

def ofNat (n : Nat) : Float := ofMagnitude false (nearest n 1)

end FormulaDoc.Binary64
