import FormulaDoc.Function.Basic
import FormulaDoc.Text.Blank
import FormulaDoc.Text.LetterCase
import FormulaDoc.Text.Slug

/-!
# Functions of text

Letter case, trimming, slugs and lengths.
-/
namespace FormulaDoc.Function

def upper : Function := ofText "UPPER" Text.upper

def lower : Function := ofText "LOWER" Text.lower

def trim : Function := ofText "TRIM" Text.trim

def slugify : Function := ofText "SLUGIFY" Text.slug

/-- The number of characters of a text, elements of an array or members of an object. -/
def lengthOf? : Value → Option Nat
  | .string s => some s.length
  | .array items => some items.length
  | .object members => some members.length
  | _ => none

def len : Function where
  name := "LEN"
  arity := .exact 1
  body args _ :=
    match args.head?.bind lengthOf? with
    | some count => .ok (.number (Binary64.ofNat count))
    | none => .error (wrongArgument 0 "a string, array or object" args.head?)

end FormulaDoc.Function
