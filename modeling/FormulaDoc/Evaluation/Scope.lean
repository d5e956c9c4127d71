import FormulaDoc.Document.Path

/-!
# Scopes

A scope is a node that a formula can name: the formula itself or a container around it. `this` is the
scope's own node, each `super` goes to the next container outwards, and a bare name is a member of the
nearest container.
-/
namespace FormulaDoc

inductive ScopeKind where
  | container
  | formula
  deriving DecidableEq, Repr

/-- A node and the containers around it, the nearest one first. -/
structure Scope where
  kind : ScopeKind
  path : DocPath
  enclosing : List DocPath
  deriving DecidableEq, Repr

namespace Scope

def root : Scope := ⟨.container, DocPath.root, []⟩

/-- The scope of a document that is itself a formula: nothing is around it. -/
def detached : Scope := ⟨.formula, DocPath.root, []⟩

/-- A scope just inside a container. -/
def inside (parent : Scope) (kind : ScopeKind) (path : DocPath) : Scope :=
  ⟨kind, path, parent.path :: parent.enclosing⟩

/-- The scope of the nearest container outside. -/
def parent? (scope : Scope) : Option Scope :=
  match scope.enclosing with
  | [] => none
  | path :: rest => some ⟨.container, path, rest⟩

def ancestor? (scope : Scope) : Nat → Option Scope
  | 0 => some scope
  | depth + 1 => scope.parent?.bind (·.ancestor? depth)

/-- The path of the nearest container, which is the scope itself if it is one. -/
def containerPath? (scope : Scope) : Option DocPath :=
  match scope.kind with
  | .container => some scope.path
  | .formula => scope.parent?.map (·.path)

def descend (scope : Scope) : DocPath → Scope
  | [] => scope
  | step :: rest => (scope.inside .container (scope.path.child step)).descend rest

/-- The scope of a container, with all the containers from the root to it around it. -/
def ofContainer (path : DocPath) : Scope := root.descend path

def ofFormula (path : DocPath) : Scope :=
  match path.parent? with
  | some parent => (ofContainer parent).inside .formula path
  | none => detached

end Scope

end FormulaDoc
