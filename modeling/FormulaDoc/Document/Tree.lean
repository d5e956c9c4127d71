import FormulaDoc.Document.Path
import FormulaDoc.Document.Value
import FormulaDoc.Fault.Kind

/-!
# Working trees

A working tree is a document whose formulas are cells with a state. A cell starts unresolved, is in
progress while its formula is evaluated, and ends resolved to a value or failed.
-/
namespace FormulaDoc

/-- How far a formula has come. -/
inductive CellState where
  | unresolved
  /-- Its evaluation has begun; who needs it now needs its own value. -/
  | inProgress
  | resolved (value : Value)
  /-- Its fault is recorded already. -/
  | failed (kind : FaultKind)

structure Cell where
  source : String
  state : CellState

/-- A document under evaluation. -/
inductive Tree where
  | scalar (value : Value)
  | array (items : List Tree)
  | object (members : List (String × Tree))
  | formula (cell : Cell)
  deriving Inhabited

def CellState.isResolved : CellState → Bool
  | resolved _ => true
  | _ => false

def CellState.isUnresolved : CellState → Bool
  | unresolved => true
  | _ => false

namespace Tree

mutual

def ofValue : Value → Tree
  | .array items => array (ofItems items)
  | .object members => object (ofMembers members)
  | .formula source => formula ⟨source, .unresolved⟩
  | value => scalar value

def ofItems : List Value → List Tree
  | [] => []
  | item :: rest => ofValue item :: ofItems rest

def ofMembers : List (String × Value) → List (String × Tree)
  | [] => []
  | (key, value) :: rest => (key, ofValue value) :: ofMembers rest

end

mutual

def toValue? : Tree → Option Value
  | scalar value => some value
  | array items => (itemValues? items).map .array
  | object members => (memberValues? members).map .object
  | formula ⟨_, .resolved value⟩ => some value
  | formula _ => none

def itemValues? : List Tree → Option (List Value)
  | [] => some []
  | item :: rest => item.toValue?.bind fun value => (itemValues? rest).map (value :: ·)

def memberValues? : List (String × Tree) → Option (List (String × Value))
  | [] => some []
  | (key, tree) :: rest =>
    tree.toValue?.bind fun value => (memberValues? rest).map ((key, value) :: ·)

end

mutual

/-- The value of a tree with null for every formula that is not resolved. -/
def toValue : Tree → Value
  | scalar value => value
  | array items => .array (itemValues items)
  | object members => .object (memberValues members)
  | formula ⟨_, .resolved value⟩ => value
  | formula _ => .null

def itemValues : List Tree → List Value
  | [] => []
  | item :: rest => item.toValue :: itemValues rest

def memberValues : List (String × Tree) → List (String × Value)
  | [] => []
  | (key, tree) :: rest => (key, tree.toValue) :: memberValues rest

end

def typeName : Tree → String
  | scalar value => value.typeName
  | array _ => "array"
  | object _ => "object"
  | formula _ => "formula"

def child? : Tree → Step → Option Tree
  | object members, .key name => members.lookup name
  | array items, .index position => items[position]?
  | _, _ => none

def get? (tree : Tree) : DocPath → Option Tree
  | [] => some tree
  | step :: rest => (tree.child? step).bind (·.get? rest)

def cell? (tree : Tree) (path : DocPath) : Option Cell :=
  match tree.get? path with
  | some (formula cell) => some cell
  | _ => none

def modifyChild (f : Tree → Tree) : Tree → Step → Tree
  | object members, .key name => object (modifyMember name f members)
  | array items, .index position => array (items.modify position f)
  | tree, _ => tree

def modify (f : Tree → Tree) : DocPath → Tree → Tree
  | [], tree => f tree
  | step :: rest, tree => modifyChild (modify f rest) tree step

def withState (state : CellState) : Tree → Tree
  | formula cell => formula { cell with state := state }
  | tree => tree

def setState (tree : Tree) (path : DocPath) (state : CellState) : Tree :=
  modify (withState state) path tree

mutual

/-- The paths of all cells whose state passes a test, in document order, when the tree is at a path. -/
def cellPaths (test : CellState → Bool) (path : DocPath) : Tree → List DocPath
  | scalar _ => []
  | array items => itemCellPaths test path 0 items
  | object members => memberCellPaths test path members
  | formula cell => if test cell.state then [path] else []

def itemCellPaths (test : CellState → Bool) (path : DocPath) (position : Nat) :
    List Tree → List DocPath
  | [] => []
  | item :: rest =>
    cellPaths test (path.index position) item ++ itemCellPaths test path (position + 1) rest

def memberCellPaths (test : CellState → Bool) (path : DocPath) :
    List (String × Tree) → List DocPath
  | [] => []
  | (key, tree) :: rest => cellPaths test (path.key key) tree ++ memberCellPaths test path rest

end

/-- The paths of the formulas that hold no value yet. -/
def pending (path : DocPath) (tree : Tree) : List DocPath :=
  cellPaths (fun state => !state.isResolved) path tree

def formulas (tree : Tree) : List DocPath := cellPaths (fun _ => true) DocPath.root tree

end Tree

end FormulaDoc
