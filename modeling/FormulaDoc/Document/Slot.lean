import FormulaDoc.Document.Tree

/-!
# Slots

Whoever writes into a tree looks up a node together with its place. A slot is such a place: the node in
it, and what the whole tree becomes with another node there.
-/
namespace FormulaDoc

/-- A place in a tree. -/
structure Slot where
  node : Tree
  /-- The tree with another node in this place. -/
  fill : Tree → Tree

namespace Slot

def whole (tree : Tree) : Slot := ⟨tree, id⟩

/-- The slot one step further in, if the node has a part there. -/
def enter? (slot : Slot) (step : Step) : Option Slot :=
  match slot.node, step with
  | .object members, .key name =>
    (members.lookup name).map fun member =>
      ⟨member, fun new => slot.fill (.object (setMember name new members))⟩
  | .array items, .index position =>
    items[position]?.map fun item =>
      ⟨item, fun new => slot.fill (.array (items.set position new))⟩
  | _, _ => none

/-- The tree with another state for the cell in this place, if there is one. -/
def withState? (slot : Slot) (state : CellState) : Option Tree :=
  match slot.node with
  | .formula cell => some (slot.fill (.formula { cell with state := state }))
  | _ => none

end Slot

namespace Tree

/-- Looks up a path for writing, one step after the other. -/
def slot? (tree : Tree) (path : DocPath) : Option Slot :=
  path.foldlM Slot.enter? (Slot.whole tree)

def write? (tree : Tree) (path : DocPath) (state : CellState) : Option Tree :=
  (tree.slot? path).bind (·.withState? state)

end Tree

end FormulaDoc
