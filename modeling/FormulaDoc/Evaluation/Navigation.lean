import FormulaDoc.Evaluation.Pass

/-!
# Navigation

An expression that leads somewhere leads to a node of the working tree or into a computed value. Going
on from a node that is a formula takes its value, and so does loading a node with formulas inside: the
value of a formula is asked of a function from paths to values.
-/
namespace FormulaDoc

/-- Where an expression leads. -/
inductive Place where
  | node (path : DocPath)
  | computed (value : Value)

/-- A position in an array; negative ones count from the end. -/
def position? (index : Int) (length : Nat) : Option Nat :=
  let position := if index < 0 then index + Int.ofNat length else index
  if 0 ≤ position ∧ position < Int.ofNat length then some position.toNat else none

namespace Value

def field (value : Value) (key : String) : Except EvalError Value :=
  match value with
  | object members =>
    match members.lookup key with
    | some member => .ok member
    | none => .error (.noComputedProperty key)
  | other => .error (.cannotAccess (EvalError.propertyAccess key) other.typeName none)

def element (value : Value) (index : Int) : Except EvalError Value :=
  match value with
  | array items =>
    match (position? index items.length).bind (items[·]?) with
    | some item => .ok item
    | none => .error (.computedIndexOutside index items.length)
  | other => .error (.cannotAccess (EvalError.indexAccess index) other.typeName none)

end Value

namespace Place

/-- Asks for the values of formulas in order, up to the first that has none. -/
def askAll (ask : DocPath → Eval Value) : List DocPath → Eval Unit
  | [] => pure ()
  | path :: rest => do
    let _ ← ask path
    askAll ask rest

/-- The value at a place. All formulas inside a node are asked for first. -/
def load (ask : DocPath → Eval Value) : Place → Eval Value
  | computed value => pure value
  | node path => do
    match ← Eval.read (·.tree.get? path) with
    | none => Eval.fail (.noProperty (DocPath.text path) DocPath.root)
    | some tree =>
      askAll ask (tree.pending path)
      match ← Eval.read fun pass => (pass.tree.get? path).bind Tree.toValue? with
      | some value => pure value
      | none => Eval.fail (.unresolved path)

def field (ask : DocPath → Eval Value) (key : String) : Place → Eval Place
  | computed value => Eval.ofExcept ((value.field key).map computed)
  | node path => do
    match ← Eval.read (·.tree.get? path) with
    | none => Eval.fail (.noProperty key path)
    | some (.object members) =>
      match members.lookup key with
      | some _ => pure (node (path.key key))
      | none => Eval.fail (.noProperty key path)
    | some (.formula _) =>
      let value ← ask path
      Eval.ofExcept ((value.field key).map computed)
    | some tree =>
      Eval.fail (.cannotAccess (EvalError.propertyAccess key) tree.typeName (some path))

def element (ask : DocPath → Eval Value) (index : Int) : Place → Eval Place
  | computed value => Eval.ofExcept ((value.element index).map computed)
  | node path => do
    match ← Eval.read (·.tree.get? path) with
    | none => Eval.fail (.noProperty (DocPath.text path) DocPath.root)
    | some (.array items) =>
      match position? index items.length with
      | some position => pure (node (path.index position))
      | none => Eval.fail (.indexOutside index items.length path)
    | some (.formula _) =>
      let value ← ask path
      Eval.ofExcept ((value.element index).map computed)
    | some tree =>
      Eval.fail (.cannotAccess (EvalError.indexAccess index) tree.typeName (some path))

/-- The place that a value leads to as an index: a key or a whole number. -/
def select (ask : DocPath → Eval Value) (key : Value) (place : Place) : Eval Place :=
  match key.integer?, key with
  | some index, _ => place.element ask index
  | none, .string key => place.field ask key
  | none, .number _ => Eval.fail (.indexType "non-integral number")
  | none, other => Eval.fail (.indexType other.typeName)

def follow (ask : DocPath → Eval Value) : DocPath → Place → Eval Place
  | [], place => pure place
  | .key name :: rest, place => do
    let next ← place.field ask name
    follow ask rest next
  | .index position :: rest, place => do
    let next ← place.element ask (Int.ofNat position)
    follow ask rest next

end Place

end FormulaDoc
