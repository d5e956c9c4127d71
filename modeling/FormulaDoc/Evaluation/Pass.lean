import FormulaDoc.Document.Tree
import FormulaDoc.Evaluation.EvalError
import FormulaDoc.Fault.Report

/-!
# Evaluation passes

A pass holds what one evaluation changes: the working tree, the errors recorded so far, the number of
function calls made and who asked for which formula. An evaluation step gives a value or an error, and
in both cases what it changed stays changed.
-/
namespace FormulaDoc

def Fault.ofError (path : DocPath) (e : EvalError) : Fault := ⟨path, e.kind, e.code, e.message⟩

structure Pass where
  tree : Tree
  /-- Each formula that failed and why, in the order of discovery. -/
  errors : List (DocPath × EvalError)
  calls : Nat
  /-- Who asked for which formula, the last one first: a formula by its path, or the expression that
  is not part of the document. -/
  needs : List (Option DocPath × DocPath)

structure Environment where
  registry : Registry
  now : Float
  /-- The number drawn for a call, by the number of calls before it. -/
  draws : Nat → Nat

namespace Pass

def start (document : Value) : Pass := ⟨Tree.ofValue document, [], 0, []⟩

def setState (pass : Pass) (path : DocPath) (state : CellState) : Pass :=
  { pass with tree := pass.tree.setState path state }

def record (pass : Pass) (path : DocPath) (e : EvalError) : Pass :=
  { pass with errors := pass.errors ++ [(path, e)] }

def note (pass : Pass) (asker : Option DocPath) (path : DocPath) : Pass :=
  { pass with needs := (asker, path) :: pass.needs }

def report (pass : Pass) : Report := pass.errors.map fun found => Fault.ofError found.1 found.2

def countCall (pass : Pass) : Pass := { pass with calls := pass.calls + 1 }

end Pass

/-- A step of an evaluation, from the pass before it to its outcome and the pass after it. -/
def Eval (α : Type) : Type := Pass → Except EvalError α × Pass

namespace Eval

variable {α β : Type}

instance : Monad Eval where
  pure a := fun pass => (.ok a, pass)
  bind x f := fun pass =>
    match x pass with
    | (.ok a, pass') => f a pass'
    | (.error e, pass') => (.error e, pass')

def fail (e : EvalError) : Eval α := fun pass => (.error e, pass)

def ofExcept (outcome : Except EvalError α) : Eval α := fun pass => (outcome, pass)

def read (f : Pass → α) : Eval α := fun pass => (.ok (f pass), pass)

def change (f : Pass → Pass) : Eval Unit := fun pass => (.ok (), f pass)

theorem pure_apply (a : α) (pass : Pass) : (pure a : Eval α) pass = (.ok a, pass) := rfl

theorem bind_apply (x : Eval α) (f : α → Eval β) (pass : Pass) :
    (x >>= f) pass =
      match x pass with
      | (.ok a, pass') => f a pass'
      | (.error e, pass') => (.error e, pass') := rfl

end Eval

end FormulaDoc
