import FormulaDoc.Document.Path
import FormulaDoc.Formula.Operator
import FormulaDoc.Formula.SyntaxError
import FormulaDoc.Function.Basic

/-!
# Why expressions fail

The causes that leave an expression without a value. Each has a kind, a code and a message. A formula
that fails because another one did is a reference fault of its own, unless the other one is part of a
cycle or leads to one: that kind carries over.
-/
namespace FormulaDoc

inductive EvalError where
  | syntaxError (e : SyntaxError)
  /-- An object in the document has no such member. -/
  | noProperty (key : String) (container : DocPath)
  | indexOutside (index : Int) (length : Nat) (container : DocPath)
  /-- A computed object has no such member. -/
  | noComputedProperty (key : String)
  | computedIndexOutside (index : Int) (length : Nat)
  /-- A value of this type has nothing to access, in the document or computed. -/
  | cannotAccess (accessor type : String) (place : Option DocPath)
  /-- So many levels up there is no scope. -/
  | aboveRoot (depth : Nat)
  /-- A bare name where no container is. -/
  | noEnclosingObject (name : String)
  /-- A node that still holds a formula without a value. -/
  | unresolved (path : DocPath)
  | operandTypes (op : BinaryOp) (left right : String)
  | logicalOperand (op : BinaryOp) (got : String)
  | unaryOperand (op : UnaryOp) (got : String)
  | indexType (got : String)
  | unknownFunction (name : String)
  | functionFailed (name : String) (e : FunctionError)
  | cyclicReference (path : DocPath)
  | dependencyFailed (path : DocPath) (kind : FaultKind)
  /-- A cause from outside. -/
  | other (kind : FaultKind) (message : String)
  deriving DecidableEq

namespace EvalError

def kind : EvalError → FaultKind
  | syntaxError _ => .parse
  | noProperty _ _ | indexOutside _ _ _ | noComputedProperty _ | computedIndexOutside _ _
  | cannotAccess _ _ _ | aboveRoot _ | noEnclosingObject _ | unresolved _ => .reference
  | operandTypes _ _ _ | logicalOperand _ _ | unaryOperand _ _ | indexType _ => .type
  | unknownFunction _ => .unknownFunction
  | functionFailed _ _ => .function
  | cyclicReference _ => .cyclicReference
  | dependencyFailed _ kind => if kind = .cyclicReference then .cyclicReference else .reference
  | other kind _ => kind

/-- The code of a cause: that of the syntax error, or that of its kind. -/
def code : EvalError → FaultCode
  | syntaxError e => e.code
  | e => e.kind.code

def superChain (depth : Nat) : String := String.intercalate "." (List.replicate depth "super")

def message : EvalError → String
  | syntaxError e => e.text
  | noProperty key container => "no property `" ++ key ++ "` in `" ++ container.text ++ "`"
  | indexOutside index length container =>
    "index " ++ toString index ++ " is out of bounds for `" ++ container.text ++ "` (length " ++
      toString length ++ ")"
  | noComputedProperty key => "no property `" ++ key ++ "` in computed value"
  | computedIndexOutside index length =>
    "index " ++ toString index ++ " is out of bounds for computed value (length " ++
      toString length ++ ")"
  | cannotAccess accessor type (some place) =>
    "cannot access " ++ accessor ++ " on " ++ type ++ " `" ++ place.text ++ "`"
  | cannotAccess accessor type none => "cannot access " ++ accessor ++ " on " ++ type
  | aboveRoot depth => "`" ++ superChain depth ++ "` climbs above the document root"
  | noEnclosingObject name => "`" ++ name ++ "` has no enclosing object to be looked up in"
  | unresolved path => "`" ++ path.text ++ "` could not be resolved"
  | operandTypes op left right =>
    "operator `" ++ op.symbol ++ "` cannot be applied to " ++ left ++ " and " ++ right
  | logicalOperand op got => "operator `" ++ op.symbol ++ "` requires boolean operands, got " ++ got
  | unaryOperand op got => "operator `" ++ op.symbol ++ "` cannot be applied to " ++ got
  | indexType got => "index must be a string or an integer, got " ++ got
  | unknownFunction name => "unknown function `" ++ name ++ "`"
  | functionFailed name e => name ++ ": " ++ e.message
  | cyclicReference path => "cyclic reference: `" ++ path.text ++ "` is still being resolved"
  | dependencyFailed path kind =>
    "depends on `" ++ path.text ++ "`, which failed (" ++ kind.name ++ ")"
  | other _ message => message

def propertyAccess (key : String) : String := "property `" ++ key ++ "`"

def indexAccess (index : Int) : String := "index " ++ toString index

theorem code_eq (e : EvalError) : e.code = e.kind.code ∨ ∃ s, e = .syntaxError s := by
  cases e with
  | syntaxError s => exact .inr ⟨s, rfl⟩
  | _ => exact .inl rfl

end EvalError

end FormulaDoc
