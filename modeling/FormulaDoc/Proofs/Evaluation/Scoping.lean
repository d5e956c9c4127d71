import Mathlib.Data.List.Induction
import FormulaDoc.Evaluation.Traversal
import FormulaDoc.Proofs.Document.Content

/-!
# The scope of a formula

Traversal makes the scopes of containers as it goes down into them, and hands to each formula the one of
the container that it is in. A formula that another one needs first gets a scope that is made from the
root, step by step along its path. Both are the same scope: the levels above a formula are the nodes on
the way to it, and a bare name is a member of the last of them.
-/
namespace FormulaDoc

open Resolution

namespace Scope

theorem descend_append (scope : Scope) (path : DocPath) (step : Step) :
    scope.descend (path ++ [step]) =
      (scope.descend path).inside .container ((scope.descend path).path.child step) := by
  induction path generalizing scope with
  | nil => rfl
  | cons first path ih => exact ih _

theorem path_descend (scope : Scope) (path : DocPath) :
    (scope.descend path).path = scope.path ++ path := by
  induction path generalizing scope with
  | nil => simp [descend]
  | cons first path ih => simp [descend, ih, inside, DocPath.child]

@[simp] theorem path_ofContainer (path : DocPath) : (ofContainer path).path = path :=
  path_descend root path

/-- Going down one step from a container leads to the scope that the longer path stands for. -/
theorem inside_ofContainer (path : DocPath) (step : Step) :
    (ofContainer path).inside .container (path.child step) = ofContainer (path.child step) := by
  have longer := descend_append root path step
  rw [path_descend] at longer
  exact longer.symm

theorem kind_descend {scope : Scope} (container : scope.kind = .container) (path : DocPath) :
    (scope.descend path).kind = .container := by
  induction path generalizing scope with
  | nil => exact container
  | cons first path ih => exact ih rfl

theorem kind_ofContainer (path : DocPath) : (ofContainer path).kind = .container :=
  kind_descend rfl path

theorem ofFormula_child (path : DocPath) (step : Step) :
    ofFormula (path.child step) = (ofContainer path).inside .formula (path.child step) := by
  rw [ofFormula, DocPath.parent?_child]

/-! ## Going up -/

theorem parent?_inside {scope : Scope} (container : scope.kind = .container) (kind : ScopeKind)
    (path : DocPath) : (scope.inside kind path).parent? = some scope := by
  cases scope
  cases container
  rfl

/-- The levels above a container are the containers on the way to it. -/
theorem ancestor?_ofContainer (path : DocPath) (depth : Nat) :
    (ofContainer path).ancestor? depth =
      if depth ≤ path.length then some (ofContainer (path.take (path.length - depth))) else none := by
  induction path using List.reverseRecOn generalizing depth with
  | nil => cases depth <;> rfl
  | append_singleton path step ih =>
    cases depth with
    | zero => simp [ancestor?, List.take_of_length_le]
    | succ depth =>
      have up : (ofContainer (path ++ [step])).parent? = some (ofContainer path) := by
        rw [← DocPath.child, ← inside_ofContainer]
        exact parent?_inside (kind_ofContainer path) _ _
      rw [ancestor?, up, Option.bind_some, ih]
      simp [List.take_append_of_le_length]

/-- The levels above a formula are the nodes on the way to it. -/
theorem path_ancestor?_ofFormula (path : DocPath) (depth : Nat) :
    ((ofFormula path).ancestor? depth).map Scope.path =
      if depth ≤ path.length then some (path.take (path.length - depth)) else none := by
  cases path using List.reverseRecOn with
  | nil => cases depth <;> rfl
  | append_singleton before step =>
    rw [← DocPath.child, ofFormula_child]
    cases depth with
    | zero => simp [ancestor?, inside, List.take_of_length_le]
    | succ depth =>
      rw [ancestor?, parent?_inside (kind_ofContainer before), Option.bind_some,
        ancestor?_ofContainer]
      by_cases inside : depth ≤ before.length
      · simp [inside, DocPath.child, List.take_append_of_le_length]
      · simp [inside, DocPath.child]

theorem containerPath?_ofFormula (path : DocPath) :
    (ofFormula path).containerPath? = path.parent? := by
  cases path using List.reverseRecOn with
  | nil => rfl
  | append_singleton before step =>
    rw [← DocPath.child, ofFormula_child, DocPath.parent?_child]
    simp [containerPath?, inside, parent?]

end Scope

namespace Traversal

/-! ## The scopes at hand -/

mutual

/-- The formulas inside a node, each with the scope that traversal settles it in, in the order of
traversal. The node is in a container with a scope. -/
def settlingsAt (container : Scope) (path : DocPath) : Tree → List (DocPath × Scope)
  | .scalar _ => []
  | .formula _ => [(path, container.inside .formula path)]
  | .array items => itemSettlings (container.inside .container path) 0 items
  | .object members => memberSettlings (container.inside .container path) members

def itemSettlings (container : Scope) (position : Nat) : List Tree → List (DocPath × Scope)
  | [] => []
  | item :: rest =>
    settlingsAt container (container.path.index position) item ++
      itemSettlings container (position + 1) rest

def memberSettlings (container : Scope) : List (String × Tree) → List (DocPath × Scope)
  | [] => []
  | (key, tree) :: rest =>
    settlingsAt container (container.path.key key) tree ++ memberSettlings container rest

end

/-- The formulas of a working tree with the scopes that traversal settles them in. -/
def settlings : Tree → List (DocPath × Scope)
  | .scalar _ => []
  | .formula _ => [(DocPath.root, Scope.detached)]
  | .array items => itemSettlings Scope.root 0 items
  | .object members => memberSettlings Scope.root members

/-- Settles formulas one after another, each in its own scope. -/
def settleEach (env : Environment) (ask : DocPath → Eval Value) (order : List (DocPath × Scope))
    (pass : Pass) : Pass :=
  order.foldl (fun pass next => (settle env ask next.2 next.1 pass).2) pass

variable (env : Environment) (ask : DocPath → Eval Value)

theorem settleEach_append (first second : List (DocPath × Scope)) (pass : Pass) :
    settleEach env ask (first ++ second) pass =
      settleEach env ask second (settleEach env ask first pass) := List.foldl_append

mutual

/-- A visit settles the formulas inside a node in these scopes. -/
theorem visit_eq_settleEach (container : Scope) (path : DocPath) (tree : Tree) (pass : Pass) :
    visit env ask container path tree pass =
      settleEach env ask (settlingsAt container path tree) pass := by
  match tree with
  | .scalar _ | .formula _ => rfl
  | .array items => exact visitItems_eq_settleEach _ 0 items pass
  | .object members => exact visitMembers_eq_settleEach _ members pass

theorem visitItems_eq_settleEach (container : Scope) (position : Nat) (items : List Tree)
    (pass : Pass) :
    visitItems env ask container position items pass =
      settleEach env ask (itemSettlings container position items) pass := by
  match items with
  | [] => rfl
  | item :: rest =>
    rw [visitItems, visit_eq_settleEach, visitItems_eq_settleEach, itemSettlings, settleEach_append]

theorem visitMembers_eq_settleEach (container : Scope) (members : List (String × Tree))
    (pass : Pass) :
    visitMembers env ask container members pass =
      settleEach env ask (memberSettlings container members) pass := by
  match members with
  | [] => rfl
  | (key, tree) :: rest =>
    rw [visitMembers, visit_eq_settleEach, visitMembers_eq_settleEach, memberSettlings,
      settleEach_append]

end

theorem visitDocument_eq_settleEach (pass : Pass) :
    visitDocument env pass =
      settleEach env (resolveWithin env (depthOf pass.tree)) (settlings pass.tree) pass := by
  rw [visitDocument]
  cases pass.tree with
  | scalar _ | formula _ => rfl
  | array items => exact visitItems_eq_settleEach env _ Scope.root 0 items pass
  | object members => exact visitMembers_eq_settleEach env _ Scope.root members pass

mutual

/-- The scopes at hand are those that are made from the root for the same formulas. -/
theorem settlingsAt_eq (path : DocPath) (step : Step) (tree : Tree) :
    settlingsAt (Scope.ofContainer path) (path.child step) tree =
      (tree.cellPaths (fun _ => true) (path.child step)).map
        fun found => (found, Scope.ofFormula found) := by
  match tree with
  | .scalar _ => rfl
  | .formula _ =>
    rw [settlingsAt, ← Scope.ofFormula_child]
    rfl
  | .array items =>
    rw [settlingsAt, Scope.inside_ofContainer]
    exact itemSettlings_eq _ 0 items
  | .object members =>
    rw [settlingsAt, Scope.inside_ofContainer]
    exact memberSettlings_eq _ members

theorem itemSettlings_eq (path : DocPath) (position : Nat) (items : List Tree) :
    itemSettlings (Scope.ofContainer path) position items =
      (Tree.itemCellPaths (fun _ => true) path position items).map
        fun found => (found, Scope.ofFormula found) := by
  match items with
  | [] => rfl
  | item :: rest =>
    rw [itemSettlings, Tree.itemCellPaths, List.map_append, ← itemSettlings_eq path _ rest,
      Scope.path_ofContainer, DocPath.index, settlingsAt_eq]

theorem memberSettlings_eq (path : DocPath) (members : List (String × Tree)) :
    memberSettlings (Scope.ofContainer path) members =
      (Tree.memberCellPaths (fun _ => true) path members).map
        fun found => (found, Scope.ofFormula found) := by
  match members with
  | [] => rfl
  | (key, tree) :: rest =>
    rw [memberSettlings, Tree.memberCellPaths, List.map_append, ← memberSettlings_eq path rest,
      Scope.path_ofContainer, DocPath.key, settlingsAt_eq]

end

/-- Traversal settles every formula of a working tree in the scope that is made for it from the root. -/
theorem settlings_eq (tree : Tree) :
    settlings tree = tree.formulas.map fun found => (found, Scope.ofFormula found) := by
  rw [Tree.formulas]
  cases tree with
  | scalar _ | formula _ => rfl
  | array items => exact itemSettlings_eq DocPath.root 0 items
  | object members => exact memberSettlings_eq DocPath.root members

end Traversal

namespace Interpreter

variable {α : Type} (env : Environment) (ask : DocPath → Eval Value) (mark : α)

/-- `super` leads up the path of the formula, as far as the root and no further. -/
theorem place_scope (path : DocPath) (depth : Nat) (pass : Pass) :
    place env ask (Scope.ofFormula path) (.scope mark depth) pass =
      if depth ≤ path.length then (.ok (.node (path.take (path.length - depth))), pass)
      else (.error (.aboveRoot depth), pass) := by
  have up := Scope.path_ancestor?_ofFormula path depth
  change (Eval.ofExcept ((Scope.ofFormula path).ancestor depth) >>= fun found =>
    pure (Place.node found.path)) pass = _
  rw [Scope.ancestor]
  by_cases inside : depth ≤ path.length
  · rw [if_pos inside] at up ⊢
    obtain ⟨found, here, same⟩ := Option.map_eq_some_iff.mp up
    rw [here, ← same]
    rfl
  · rw [if_neg inside] at up ⊢
    rw [Option.map_eq_none_iff.mp up]
    rfl

/-- A bare name is a member of the node just above the formula. -/
theorem place_ident (path : DocPath) (name : String) (pass : Pass) :
    place env ask (Scope.ofFormula path) (.ident mark name) pass =
      if 0 < path.length then (Place.node (path.take (path.length - 1))).field ask name pass
      else (.error (.noEnclosingObject name), pass) := by
  change (Scope.ofFormula path).namedPlace ask name pass = _
  rw [Scope.namedPlace, Scope.containerPath?_ofFormula]
  cases path with
  | nil => rfl
  | cons first rest =>
    rw [if_pos (by simp), ← List.dropLast_eq_take]
    rfl

end Interpreter

/-- Traversal settles each formula of a working tree in the scope that it has at hand. This scope means
the same as the one that is made from the root when another formula needs it first. From both, `super`
leads up the path of the formula, as far as the root and no further; a bare name is looked up in the node
just above the formula, and nowhere when the formula is the whole document. Hence the formula's text
evaluates to the same with both, and settling it leaves the same. -/
theorem Resolution.scope_by_either_route {α : Type} (mark : α) (env : Environment) (pass : Pass) :
    Traversal.visitDocument env pass =
      Traversal.settleEach env (resolveWithin env (depthOf pass.tree))
        (Traversal.settlings pass.tree) pass ∧
    (∀ path cell, pass.tree.cell? path = some cell →
      ∃ scope, (path, scope) ∈ Traversal.settlings pass.tree) ∧
    (∀ path scope,
      (path, scope) ∈ Traversal.settlings pass.tree ∨ scope = Scope.ofFormula path →
      (∀ (ask : DocPath → Eval Value) (depth : Nat) (pass' : Pass),
        Interpreter.place env ask scope (.scope mark depth) pass' =
          if depth ≤ path.length then (.ok (.node (path.take (path.length - depth))), pass')
          else (.error (.aboveRoot depth), pass')) ∧
      (∀ (ask : DocPath → Eval Value) (name : String) (pass' : Pass),
        Interpreter.place env ask scope (.ident mark name) pass' =
          if 0 < path.length then (Place.node (path.take (path.length - 1))).field ask name pass'
          else (.error (.noEnclosingObject name), pass')) ∧
      (∀ (ask : DocPath → Eval Value) (source : String),
        evaluate env ask scope source = evaluate env ask (Scope.ofFormula path) source) ∧
      ∀ depth, settle env (resolveWithin env depth) scope path = resolveWithin env (depth + 1) path) ∧
    (∀ depth, (EvalError.aboveRoot depth).kind = .reference) ∧
    ∀ name, (EvalError.noEnclosingObject name).kind = .reference := by
  refine ⟨Traversal.visitDocument_eq_settleEach env pass, ?_, ?_, fun _ => rfl, fun _ => rfl⟩
  · intro path cell here
    refine ⟨Scope.ofFormula path, ?_⟩
    rw [Traversal.settlings_eq]
    exact List.mem_map_of_mem (Tree.mem_formulas_of_cell? here)
  · intro path scope route
    obtain rfl : scope = Scope.ofFormula path := by
      rcases route with visited | needed
      · rw [Traversal.settlings_eq] at visited
        obtain ⟨found, _, same⟩ := List.mem_map.mp visited
        cases same
        rfl
      · exact needed
    refine ⟨?_, ?_, fun _ _ => rfl, fun _ => rfl⟩
    · intro ask depth pass'
      exact Interpreter.place_scope env ask mark path depth pass'
    · intro ask name pass'
      exact Interpreter.place_ident env ask mark path name pass'

end FormulaDoc
