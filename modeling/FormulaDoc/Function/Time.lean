import FormulaDoc.Calendar.Pattern
import FormulaDoc.Function.Basic

/-!
# Functions of time

Timestamps are seconds as numbers. They are written in universal time by date patterns.
-/
namespace FormulaDoc.Function

open Calendar

def formatTimestamp (timestamp : Float) (pattern : String) : Except FunctionError Value :=
  if Binary64.isFinite timestamp then
    match Moment.ofSeconds? timestamp with
    | none => .error (.failed ("timestamp " ++ Decimal.text timestamp ++ " is out of range"))
    | some moment =>
      match Pattern.read? pattern.toList with
      | none => .error (.failed ("invalid format string `" ++ pattern ++ "`"))
      | some items =>
        match Pattern.write? moment items with
        | none => .error (.failed ("cannot format timestamp with `" ++ pattern ++ "`"))
        | some text => .ok (.string (String.ofList text))
  else .error .nonFinite

/-- A function that writes a timestamp by its second argument, or by a pattern of its own. -/
def formatter (name pattern : String) : Function where
  name := name
  arity := .range 1 2
  body args _ := do
    let timestamp ← numberArgument args 0
    let pattern ← if 1 < args.length then stringArgument args 1 else .ok pattern
    formatTimestamp timestamp pattern

def now : Function where
  name := "NOW"
  arity := .exact 0
  body _ context := .ok (.number context.now)

def datetime : Function := formatter "DATETIME" "%Y-%m-%dT%H:%M:%SZ"

def date : Function := formatter "DATE" "%Y-%m-%d"

def time : Function := formatter "TIME" "%H:%M:%S"

end FormulaDoc.Function
