import FormulaDoc.Evaluation.Navigation
import FormulaDoc.Evaluation.Operation
import FormulaDoc.Evaluation.Scope
import FormulaDoc.Formula.Expr

/-!
# Interpreting expressions

An expression leads to a place, and its value is what is loaded from there. Operands are taken from
left to right; `and` and `or` leave the right one alone when the left one decides. The value of any
formula that comes up is asked of a function.
-/
namespace FormulaDoc

namespace Expr

variable {α : Type}

/-- The step that a literal index takes, if it is a key or a whole number that is not negative. -/
def literalStep? : Expr α → Option Step
  | literal _ (.string key) => some (.key key)
  | literal _ (.number n) =>
    match (Value.number n).integer? with
    | some (.ofNat position) => some (.index position)
    | _ => none
  | _ => none

/-- The levels up and the steps down of an expression that names a fixed path: a scope followed by
keys and literal indices. -/
def staticPath? : Expr α → Option (Nat × DocPath)
  | scope _ depth => some (depth, [])
  | field _ receiver name => receiver.staticPath?.map fun found => (found.1, found.2.key name)
  | index _ receiver position =>
    position.literalStep?.bind fun step =>
      receiver.staticPath?.map fun found => (found.1, found.2.child step)
  | _ => none

end Expr

namespace Scope

def ancestor (scope : Scope) (depth : Nat) : Except EvalError Scope :=
  match scope.ancestor? depth with
  | some found => .ok found
  | none => .error (.aboveRoot depth)

/-- The place of a bare name: a member of the nearest container. -/
def namedPlace (scope : Scope) (ask : DocPath → Eval Value) (name : String) : Eval Place :=
  match scope.containerPath? with
  | some container => (Place.node container).field ask name
  | none => Eval.fail (.noEnclosingObject name)

def loadStatic (scope : Scope) (ask : DocPath → Eval Value) (depth : Nat) (path : DocPath) :
    Eval Value := do
  let start ← Eval.ofExcept (scope.ancestor depth)
  let place ← Place.follow ask path (.node start.path)
  place.load ask

end Scope

namespace Interpreter

/-- Calls a function by name. A result that holds a formula is refused, so that none gets into a
document. -/
def call (env : Environment) (name : String) (args : List Value) : Eval Value := fun pass =>
  match env.registry.lookup? name with
  | none => (.error (.unknownFunction name), pass)
  | some f =>
    match f.call args ⟨env.now, env.draws pass.calls⟩ with
    | .error e => (.error (.functionFailed name e), pass.countCall)
    | .ok value =>
      if value.containsFormula then (.error (.functionFailed name .formulaInResult), pass.countCall)
      else (.ok value, pass.countCall)

/-- The value of an expression that leads to a place; a fixed path is followed directly. -/
def valueOf {α : Type} (ask : DocPath → Eval Value) (scope : Scope) (e : Expr α)
    (place : Eval Place) : Eval Value :=
  match e.staticPath? with
  | some (depth, path) => scope.loadStatic ask depth path
  | none => do
    let found ← place
    found.load ask

/-- The result of `and` or `or`, whose right operand may not be needed. -/
def shortCircuit (op : BinaryOp) (left right : Eval Value) : Eval Value := do
  let lhs ← left
  let decided ← Eval.ofExcept (op.requireBool lhs)
  if decided == (op == .or) then pure (.bool decided)
  else
    let rhs ← right
    let result ← Eval.ofExcept (op.requireBool rhs)
    pure (.bool result)

def binary (op : BinaryOp) (left right : Eval Value) : Eval Value :=
  if op.isShortCircuit then shortCircuit op left right
  else do
    let lhs ← left
    let rhs ← right
    Eval.ofExcept (op.apply lhs rhs)

variable {α : Type}

mutual

def place (env : Environment) (ask : DocPath → Eval Value) (scope : Scope) : Expr α → Eval Place
  | .literal _ value => pure (.computed value)
  | .ident _ name => scope.namedPlace ask name
  | .scope _ depth => do
    let found ← Eval.ofExcept (scope.ancestor depth)
    pure (.node found.path)
  | .root _ => pure (.node DocPath.root)
  | .field _ receiver name => do
    let base ← place env ask scope receiver
    base.field ask name
  | .index _ receiver position => do
    let base ← place env ask scope receiver
    let key ← valueOf ask scope position (place env ask scope position)
    base.select ask key
  | .unary _ op operand => do
    let value ← valueOf ask scope operand (place env ask scope operand)
    let result ← Eval.ofExcept (op.apply value)
    pure (.computed result)
  | .binary _ op left right => do
    let result ← binary op (valueOf ask scope left (place env ask scope left))
      (valueOf ask scope right (place env ask scope right))
    pure (.computed result)
  | .call _ name args => do
    let values ← values env ask scope args
    let result ← call env name values
    pure (.computed result)

def values (env : Environment) (ask : DocPath → Eval Value) (scope : Scope) :
    List (Expr α) → Eval (List Value)
  | [] => pure []
  | e :: es => do
    let value ← valueOf ask scope e (place env ask scope e)
    let rest ← values env ask scope es
    pure (value :: rest)

end

def value (env : Environment) (ask : DocPath → Eval Value) (scope : Scope) (e : Expr α) :
    Eval Value :=
  valueOf ask scope e (place env ask scope e)

end Interpreter

end FormulaDoc
