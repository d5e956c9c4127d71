import FormulaDoc.Function.Arithmetic
import FormulaDoc.Function.Identifier
import FormulaDoc.Function.Text
import FormulaDoc.Function.Time

/-!
# Built-in functions
-/
namespace FormulaDoc.Registry

/-- The functions that every registry starts with unless it is made empty. -/
def builtins : Registry :=
  [Function.uuidV4, Function.uniqueId, Function.pow, Function.log10, Function.max, Function.min,
    Function.abs, Function.floor, Function.ceil, Function.round, Function.upper, Function.lower,
    Function.trim, Function.slugify, Function.len, Function.now, Function.datetime, Function.date,
    Function.time]

theorem builtins_nodup : (builtins.map (·.name)).Nodup := by decide

end FormulaDoc.Registry
