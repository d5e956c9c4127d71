import FormulaDoc.Function.Basic

/-!
# Functions of identifiers

Random identifiers of 128 bits, version four, made from the number drawn for the call.
-/
namespace FormulaDoc.Function

/-- The identifier with the bits of a number, the version and variant bits apart. -/
def identifierOf (draw : Nat) : Nat :=
  let high := (draw >>> 80) % (1 <<< 48)
  let middle := (draw >>> 64) % (1 <<< 12)
  let low := draw % (1 <<< 62)
  (high <<< 80) + (4 <<< 76) + (middle <<< 64) + (2 <<< 62) + low

def identifierDigits (draw : Nat) : List Char :=
  let digits := Nat.toDigits 16 (identifierOf draw)
  List.replicate (32 - digits.length) '0' ++ digits

/-- Digits in groups of 8, 4, 4, 4 and 12, with dashes between them. -/
def hyphenated (digits : List Char) : List Char :=
  digits.take 8 ++ '-' :: (digits.drop 8).take 4 ++ '-' :: (digits.drop 12).take 4 ++
    '-' :: (digits.drop 16).take 4 ++ '-' :: digits.drop 20

def uuidV4 : Function where
  name := "UUIDV4"
  arity := .exact 0
  body _ context := .ok (.string (String.ofList (hyphenated (identifierDigits context.draw))))

def uniqueId : Function where
  name := "UNIQUE_ID"
  arity := .exact 0
  body _ context := .ok (.string (String.ofList (identifierDigits context.draw)))

end FormulaDoc.Function
