import FormulaDoc.Function.Basic
import FormulaDoc.Number.Order

/-!
# Functions of numbers

Powers, logarithms, extrema and whole parts. Powers, logarithms and extrema refuse results that are
not finite; the others keep infinities and NaN.
-/
namespace FormulaDoc.Function

/-- The greater of two numbers, the other one where one is NaN. -/
def larger (a b : Float) : Float :=
  if Binary64.isNaN a then b else if Binary64.isNaN b then a else if Binary64.less a b then b else a

/-- The lesser of two numbers, the other one where one is NaN. -/
def smaller (a b : Float) : Float :=
  if Binary64.isNaN a then b else if Binary64.isNaN b then a else if Binary64.less b a then b else a

/-- Combines the numbers that some arguments are, up to the first that is none. -/
def combineFrom (pick : Float → Float → Float) (position : Nat) (found : Float) :
    List Value → Except FunctionError Float
  | [] => .ok found
  | .number n :: rest => combineFrom pick (position + 1) (pick found n) rest
  | value :: _ => .error (wrongArgument position "a number" (some value))

/-- A function that picks one of its arguments, which are all numbers. -/
def extremum (name : String) (pick : Float → Float → Float) : Function where
  name := name
  arity := .atLeast 1
  body args _ := do
    let first ← numberArgument args 0
    let extreme ← combineFrom pick 1 first (args.drop 1)
    finiteResult extreme

def pow : Function where
  name := "POW"
  arity := .exact 2
  body args _ := do
    let base ← numberArgument args 0
    let exponent ← numberArgument args 1
    finiteResult (Float.pow base exponent)

def log10 : Function := ofNumber "LOG10" fun n => finiteResult n.log10

def max : Function := extremum "MAX" larger

def min : Function := extremum "MIN" smaller

def abs : Function := ofNumber "ABS" fun n => .ok (.number (Binary64.abs n))

def floor : Function := ofNumber "FLOOR" fun n => .ok (.number (Binary64.floor n))

def ceil : Function := ofNumber "CEIL" fun n => .ok (.number (Binary64.ceil n))

def round : Function := ofNumber "ROUND" fun n => .ok (.number (Binary64.round n))

end FormulaDoc.Function
