import FormulaDoc.Evaluation.Traversal
import FormulaDoc.Function.Builtin
import FormulaDoc.Json

/-!
# The engine

An engine evaluates documents and expressions with a registry of functions. An evaluation gives a
value without any fault, or a failure with all the faults found.
-/
namespace FormulaDoc

/-- What an evaluation takes from the world around it: a clock and a source of random numbers. -/
structure Surroundings where
  now : Float
  /-- Numbers of 128 random bits. -/
  draws : Nat → Nat

structure Engine where
  registry : Registry := Registry.builtins
  keys : FormulaKeys := FormulaKeys.default
  /-- The time that evaluations take place at, if it is fixed. -/
  fixedNow : Option Float := none

/-- The result of an evaluation: any fault at all makes it a failure. Otherwise it is the tree's
value. -/
def Report.conclude (report : Report) (tree : Tree) : Except Failure Value :=
  match report.failure? with
  | some failure => .error failure
  | none => .ok tree.toValue

namespace Engine

def environment (engine : Engine) (around : Surroundings) : Environment where
  registry := engine.registry
  now := engine.fixedNow.getD around.now
  draws := around.draws

def evaluate (engine : Engine) (around : Surroundings) (document : Value) :
    Except Failure Value :=
  let pass := Traversal.visitDocument (engine.environment around) (Pass.start document)
  pass.report.conclude pass.tree

/-- The outcome of an expression with data as its document, and the pass that it leaves. Formulas in
the data are resolved only as far as the expression needs them. -/
def runExpression (engine : Engine) (around : Surroundings) (text : String) (data : Value) :
    Except EvalError Value × Pass :=
  let pass := Pass.start data
  let env := engine.environment around
  let ask := Resolution.resolveWithin env (Resolution.depthOf pass.tree)
  Resolution.evaluate env (Resolution.askFor none ask) Scope.root text pass

/-- The value of an expression. Its own error is the last fault, at the root. -/
def evaluateExpression (engine : Engine) (around : Surroundings) (text : String) (data : Value) :
    Except Failure Value :=
  match engine.runExpression around text data with
  | (.ok value, pass) =>
    match pass.report.failure? with
    | some failure => .error failure
    | none => .ok value
  | (.error e, pass) =>
    .error (pass.report.failWith (Fault.ofError DocPath.root e))

def evaluateJson (engine : Engine) (around : Surroundings) (document : Json) :
    Except Failure Json :=
  (engine.evaluate around (document.toValue engine.keys)).map (Json.ofValue engine.keys)

def evaluateBatch (engine : Engine) (around : Surroundings) (documents : List Value) :
    List (Except Failure Value) :=
  documents.map (engine.evaluate around)

end Engine

end FormulaDoc
