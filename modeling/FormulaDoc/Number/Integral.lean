import FormulaDoc.Number.Binary64

/-!
# Whole parts of doubles

Floor, ceiling, rounding and remainder of doubles, computed on the exact numbers they stand for, and
the doubles that stand for integers. Infinities, NaN and whole numbers are their own whole parts.
-/
namespace FormulaDoc.Binary64

/-- Replaces the absolute value of a finite double by a whole number chosen from its whole part, the
remainder and the divisor; the sign stays, on a zero too. -/
def mapWhole (choose : Nat → Nat → Nat → Nat) (x : Float) : Float :=
  if isFinite x then
    let num := numerator (magnitude x)
    let den := denominator (magnitude x)
    ofMagnitude (isNegative x) (nearest (choose (num / den) (num % den) den) 1)
  else x

def floor (x : Float) : Float :=
  mapWhole (fun whole rest _ => if isNegative x && rest != 0 then whole + 1 else whole) x

def ceil (x : Float) : Float :=
  mapWhole (fun whole rest _ => if !isNegative x && rest != 0 then whole + 1 else whole) x

/-- The nearest whole number, a half going away from zero. -/
def round (x : Float) : Float :=
  mapWhole (fun whole rest den => if den ≤ 2 * rest then whole + 1 else whole) x

/-- The remainder of the division that drops the fraction of the quotient. It has the sign of the
dividend and is exact. -/
def remainder (x y : Float) : Float :=
  if isNaN x || isNaN y || isInfinite x || magnitude y == 0 then nan
  else if isInfinite y then x
  else
    let num := numerator (magnitude x) * denominator (magnitude y)
    let unit := numerator (magnitude y) * denominator (magnitude x)
    let den := denominator (magnitude x) * denominator (magnitude y)
    ofMagnitude (isNegative x) (nearest (num % unit) den)

def toInt? (x : Float) : Option Int :=
  if isFinite x then
    let num := numerator (magnitude x)
    let den := denominator (magnitude x)
    if num % den = 0 then
      some (if isNegative x then -Int.ofNat (num / den) else Int.ofNat (num / den))
    else none
  else none

/-- The greatest integer up to which every integer is a double, `2 ^ 53`. -/
def maxExactInt : Nat := 9007199254740992

/-- The integer that a double stands for, if every integer up to it is a double. -/
def exactInt? (x : Float) : Option Int := (toInt? x).filter fun i => decide (i.natAbs ≤ maxExactInt)

end FormulaDoc.Binary64
