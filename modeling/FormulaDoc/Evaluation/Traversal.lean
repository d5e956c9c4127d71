import FormulaDoc.Evaluation.Resolution

/-!
# Traversal

All formulas of a document are resolved in document order. A formula that fails is recorded by its
resolution, and the traversal goes on with the next one.
-/
namespace FormulaDoc.Traversal

mutual

/-- Visits a child of the container that a scope belongs to. A formula is settled in the scope at
hand, whatever comes of it. -/
def visit (env : Environment) (ask : DocPath → Eval Value) (container : Scope) (path : DocPath) :
    Tree → Pass → Pass
  | .scalar _, pass => pass
  | .formula _, pass => (Resolution.settle env ask (container.inside .formula path) path pass).2
  | .array items, pass => visitItems env ask (container.inside .container path) 0 items pass
  | .object members, pass => visitMembers env ask (container.inside .container path) members pass

def visitItems (env : Environment) (ask : DocPath → Eval Value) (container : Scope)
    (position : Nat) : List Tree → Pass → Pass
  | [], pass => pass
  | item :: rest, pass =>
    visitItems env ask container (position + 1) rest
      (visit env ask container (container.path.index position) item pass)

def visitMembers (env : Environment) (ask : DocPath → Eval Value) (container : Scope) :
    List (String × Tree) → Pass → Pass
  | [], pass => pass
  | (key, tree) :: rest, pass =>
    visitMembers env ask container rest
      (visit env ask container (container.path.key key) tree pass)

end

/-- Visits a whole document. Traversal follows its shape, which no evaluation changes. -/
def visitDocument (env : Environment) (pass : Pass) : Pass :=
  let ask := Resolution.resolveWithin env (Resolution.depthOf pass.tree)
  match pass.tree with
  | .scalar _ => pass
  | .formula _ => (Resolution.settle env ask Scope.detached DocPath.root pass).2
  | .array items => visitItems env ask Scope.root 0 items pass
  | .object members => visitMembers env ask Scope.root members pass

end FormulaDoc.Traversal
