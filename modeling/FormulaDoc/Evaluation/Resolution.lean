import FormulaDoc.Evaluation.Interpreter
import FormulaDoc.Formula.Parser

/-!
# Resolving formulas

A formula is evaluated at most once in a pass: when it is first needed its cell goes in progress, and
then it is resolved or failed for good. A formula that is needed while in progress is part of a cycle.
The fault of a formula is recorded once, at its own path; whoever needed it fails for a reason of its
own.

Each evaluation under way has its own cell in progress, so that no more of them are nested than the
document has formulas. This bounds the depth of the recursion.
-/
namespace FormulaDoc.Resolution

def evaluate (env : Environment) (ask : DocPath → Eval Value) (scope : Scope) (source : String) :
    Eval Value :=
  match parse source with
  | .error e => Eval.fail (.syntaxError e)
  | .ok e => Interpreter.value env ask scope e

/-- Asks on behalf of someone, which is noted. -/
def askFor (asker : Option DocPath) (ask : DocPath → Eval Value) (path : DocPath) : Eval Value := do
  Eval.change (·.note asker path)
  ask path

/-- Ends the evaluation of a formula: its cell keeps the outcome, and a failure is recorded. -/
def conclude (path : DocPath) (outcome : Except EvalError Value) : Eval Value :=
  match outcome with
  | .ok value => do
    Eval.change (·.setState path (.resolved value))
    pure value
  | .error e => do
    Eval.change fun pass => (pass.setState path (.failed e.kind)).record path e
    Eval.fail (.dependencyFailed path e.kind)

def start (env : Environment) (ask : DocPath → Eval Value) (scope : Scope) (path : DocPath)
    (source : String) : Eval Value := fun pass =>
  match evaluate env (askFor (some path) ask) scope source (pass.setState path .inProgress) with
  | (outcome, pass') => conclude path outcome pass'

def settle (env : Environment) (ask : DocPath → Eval Value) (scope : Scope) (path : DocPath) :
    Eval Value := do
  match ← Eval.read (·.tree.cell? path) with
  | none => Eval.fail (.noProperty "formula" path)
  | some ⟨_, .resolved value⟩ => pure value
  | some ⟨_, .inProgress⟩ => Eval.fail (.cyclicReference path)
  | some ⟨_, .failed kind⟩ => Eval.fail (.dependencyFailed path kind)
  | some ⟨source, .unresolved⟩ => start env ask scope path source

/-- The value of a formula, when at most `depth` evaluations may be nested. -/
def resolveWithin (env : Environment) : Nat → DocPath → Eval Value
  | 0, path => Eval.fail (.cyclicReference path)
  | depth + 1, path => settle env (resolveWithin env depth) (Scope.ofFormula path) path

/-- A depth that no evaluation exceeds: each of them has its own formula in progress, and the last
one finds every formula it needs settled. -/
def depthOf (tree : Tree) : Nat := tree.formulas.length + 1

def resolve (env : Environment) (path : DocPath) : Eval Value := fun pass =>
  resolveWithin env (depthOf pass.tree) path pass

end FormulaDoc.Resolution
