import Mathlib.Data.List.Induction
import FormulaDoc.Document.Slot
import FormulaDoc.Proofs.Document.DocumentOrder

/-!
# Writing one cell

A path leads a writer to the node that it leads a reader to, and what the writer puts there is found
there afterwards. With another state in one cell, nothing has changed but that cell and the nodes around
it, and the tree has the paths that it had, in the same order.
-/
namespace FormulaDoc

section Members

variable {α : Type}

theorem setMember_eq_modifyMember {members : List (String × α)} {key : String} {a : α}
    (here : members.lookup key = some a) (new : α) :
    setMember key new members = modifyMember key (fun _ => new) members := by
  induction members with
  | nil => cases here
  | cons m rest ih =>
    obtain ⟨k, _⟩ := m
    rw [setMember, modifyMember_cons]
    by_cases same : k = key
    · rw [if_pos same, if_pos same]
    · rw [List.lookup_cons, beq_eq_false_iff_ne.mpr (Ne.symm same)] at here
      rw [if_neg same, if_neg same, ih here]

/-- Changes that agree on a member are the same change of it. -/
theorem modifyMember_congr {members : List (String × α)} {key : String} {a : α} {f g : α → α}
    (here : members.lookup key = some a) (same : f a = g a) :
    modifyMember key f members = modifyMember key g members := by
  induction members with
  | nil => rfl
  | cons m rest ih =>
    obtain ⟨k, b⟩ := m
    rw [modifyMember_cons, modifyMember_cons]
    by_cases first : k = key
    · subst first
      rw [List.lookup_cons_self] at here
      cases here
      rw [if_pos rfl, if_pos rfl, same]
    · rw [List.lookup_cons, beq_eq_false_iff_ne.mpr (Ne.symm first)] at here
      rw [if_neg first, if_neg first, ih here]

end Members

namespace Tree

variable {f g : Tree → Tree} {tree : Tree} {path other rest : DocPath} {state : CellState}

/-! ## Changing the node at a path -/

theorem modifyChild_congr {step : Step} {child : Tree} (here : tree.child? step = some child)
    (same : f child = g child) : modifyChild f tree step = modifyChild g tree step := by
  cases tree with
  | scalar _ | formula _ => cases step <;> rfl
  | array items =>
    cases step with
    | key _ => rfl
    | index position =>
      have there : items[position]? = some child := here
      rw [modifyChild, modifyChild, List.modify_eq_set, List.modify_eq_set, there, Option.getD_some,
        same]
  | object members =>
    cases step with
    | key name => exact congrArg object (modifyMember_congr here same)
    | index _ => rfl

theorem modifyChild_id (tree : Tree) (step : Step) : modifyChild id tree step = tree := by
  cases tree <;> cases step <;> simp [modifyChild, modifyMember_id]

/-- Changes that agree on a node are the same change of it. -/
theorem modify_congr {node : Tree} (here : tree.get? path = some node) (same : f node = g node) :
    modify f path tree = modify g path tree := by
  induction path generalizing tree with
  | nil =>
    cases here
    exact same
  | cons step rest ih =>
    obtain ⟨child, found, later⟩ := Option.bind_eq_some_iff.mp here
    exact modifyChild_congr found (ih later)

theorem modify_id (path : DocPath) : modify id path = id := by
  induction path with
  | nil => rfl
  | cons step rest ih =>
    funext tree
    rw [modify, ih, modifyChild_id, id]

theorem modify_append (path rest : DocPath) :
    modify f (path ++ rest) = modify (modify f rest) path := by
  induction path with
  | nil => rfl
  | cons step path ih =>
    funext tree
    rw [List.cons_append, modify, modify, ih]

/-- The node that a path leads to is changed. -/
theorem get?_modify (path : DocPath) :
    (modify f path tree).get? path = (tree.get? path).map f := by
  induction path generalizing tree with
  | nil => rfl
  | cons step rest ih =>
    rw [modify, get?_cons, get?_cons, child?_modifyChild, if_pos rfl]
    cases tree.child? step with
    | none => rfl
    | some child => exact ih

/-- A node that is neither inside the changed one nor around it is found as before. -/
theorem get?_modify_of_apart (inside : ¬ path <+: other) (around : ¬ other <+: path) :
    (modify f path tree).get? other = tree.get? other := by
  induction path generalizing tree other with
  | nil => exact absurd List.nil_prefix inside
  | cons step path ih =>
    cases other with
    | nil => exact absurd List.nil_prefix around
    | cons step' other =>
      rw [modify, get?_cons, get?_cons, child?_modifyChild]
      by_cases same : step = step'
      · subst same
        rw [if_pos rfl]
        cases tree.child? step with
        | none => rfl
        | some child =>
          apply ih
          · exact fun h => inside (List.cons_prefix_cons.mpr ⟨rfl, h⟩)
          · exact fun h => around (List.cons_prefix_cons.mpr ⟨rfl, h⟩)
      · rw [if_neg same]

/-! ## Setting the state of a cell -/

theorem get?_withState_cons (step : Step) :
    (withState state tree).get? (step :: rest) = tree.get? (step :: rest) := by
  cases tree <;> rfl

/-- A node around the cell is the same with the cell set inside it, and every node elsewhere is as it
was. -/
theorem get?_setState (tree : Tree) (path other : DocPath) (state : CellState) :
    (tree.setState path state).get? other =
      if other <+: path then (tree.get? other).map (·.setState (path.drop other.length) state)
      else tree.get? other := by
  by_cases around : other <+: path
  · rw [if_pos around]
    obtain ⟨rest, rfl⟩ := around
    rw [List.drop_left, setState, modify_append, get?_modify]
    rfl
  · rw [if_neg around]
    by_cases inside : path <+: other
    · -- What is inside the node at the path, if that is no cell, and nothing if it is one.
      obtain ⟨rest, rfl⟩ := inside
      rw [get?_append, get?_append, setState, get?_modify]
      cases rest with
      | nil => exact absurd (by simp) around
      | cons step rest =>
        cases tree.get? path with
        | none => rfl
        | some node => exact get?_withState_cons step
    · exact get?_modify_of_apart inside around

section Paths

variable {c : Cell → Cell}

mutual

/-- Which paths there are does not depend on the cells. -/
theorem pathsFrom_mapCells (path : DocPath) (tree : Tree) :
    (tree.mapCells c).pathsFrom path = tree.pathsFrom path := by
  match tree with
  | scalar _ | formula _ => rfl
  | array items => rw [mapCells, pathsFrom, pathsFrom, itemPaths_mapCells path 0 items]
  | object members => rw [mapCells, pathsFrom, pathsFrom, memberPaths_mapCells path members]

theorem itemPaths_mapCells (path : DocPath) (position : Nat) (items : List Tree) :
    itemPaths path position (mapItemCells c items) = itemPaths path position items := by
  match items with
  | [] => rfl
  | item :: rest =>
    rw [mapItemCells, itemPaths, itemPaths, pathsFrom_mapCells _ item,
      itemPaths_mapCells path (position + 1) rest]

theorem memberPaths_mapCells (path : DocPath) (members : List (String × Tree)) :
    memberPaths path (mapMemberCells c members) = memberPaths path members := by
  match members with
  | [] => rfl
  | (_, member) :: rest =>
    rw [mapMemberCells, memberPaths, memberPaths, pathsFrom_mapCells _ member,
      memberPaths_mapCells path rest]

end

theorem paths_blank (tree : Tree) : tree.blank.paths = tree.paths := by
  rw [blank_eq_mapCells, paths, pathsFrom_mapCells, paths]

theorem paths_setState (tree : Tree) (path : DocPath) (state : CellState) :
    (tree.setState path state).paths = tree.paths := by
  rw [← paths_blank, blank_setState, paths_blank]

end Paths

end Tree

/-! ## Slots -/

namespace Slot

variable {slot next : Slot} {tree : Tree} {path : DocPath} {step : Step}

theorem node_enter? (slot : Slot) (step : Step) :
    (slot.enter? step).map node = slot.node.child? step := by
  obtain ⟨node, fill⟩ := slot
  cases node <;> cases step <;> simp [enter?, Tree.child?, Function.comp_def]

/-- One step further in, filling the place changes one part of the node around it. -/
theorem fill_of_enter? (h : slot.enter? step = some next) (new : Tree) :
    next.fill new = slot.fill (Tree.modifyChild (fun _ => new) slot.node step) := by
  obtain ⟨node, fill⟩ := slot
  cases node with
  | scalar _ | formula _ => cases step <;> cases h
  | array items =>
    cases step with
    | key _ => cases h
    | index position =>
      obtain ⟨item, found, rfl⟩ := Option.map_eq_some_iff.mp h
      rw [Tree.modifyChild, List.modify_eq_set]
  | object members =>
    cases step with
    | key name =>
      obtain ⟨member, found, rfl⟩ := Option.map_eq_some_iff.mp h
      rw [Tree.modifyChild, ← setMember_eq_modifyMember found]
    | index _ => cases h

/-- What a slot is to a tree: the node at a path, and the tree with any other node at that path. -/
structure At (slot : Slot) (tree : Tree) (path : DocPath) : Prop where
  node : tree.get? path = some slot.node
  fill : ∀ new, slot.fill new = tree.modify (fun _ => new) path

theorem at_whole (tree : Tree) : (whole tree).At tree [] where
  node := rfl
  fill _ := rfl

theorem At.enter (h : slot.At tree path) (enters : slot.enter? step = some next) :
    next.At tree (path.child step) where
  node := by
    rw [Tree.get?_child h.node, ← node_enter?, enters, Option.map_some]
  fill new := by
    rw [fill_of_enter? enters, h.fill, DocPath.child, Tree.modify_append]
    exact Tree.modify_congr h.node rfl

end Slot

namespace Tree

variable {tree : Tree} {path : DocPath} {slot : Slot}

theorem slot?_child (tree : Tree) (path : DocPath) (step : Step) :
    tree.slot? (path.child step) = (tree.slot? path).bind (·.enter? step) := by
  rw [slot?, slot?, DocPath.child, List.foldlM_append]
  cases path.foldlM Slot.enter? (Slot.whole tree) <;> simp

theorem at_of_slot? (h : tree.slot? path = some slot) : slot.At tree path := by
  induction path using List.reverseRecOn generalizing slot with
  | nil =>
    cases h
    exact Slot.at_whole tree
  | append_singleton path step ih =>
    rw [← DocPath.child, slot?_child] at h
    obtain ⟨around, found, enters⟩ := Option.bind_eq_some_iff.mp h
    exact (ih found).enter enters

/-- Looking a path up for writing finds what looking it up for reading finds. -/
theorem node_slot? (tree : Tree) (path : DocPath) :
    (tree.slot? path).map Slot.node = tree.get? path := by
  -- From the end of the path, since the last step is the one that enters the slot.
  induction path using List.reverseRecOn with
  | nil => rfl
  | append_singleton path step ih =>
    rw [← DocPath.child, slot?_child]
    cases found : tree.slot? path with
    | none =>
      rw [found] at ih
      rw [DocPath.child, get?_append, ← ih]
      rfl
    | some slot =>
      rw [get?_child (at_of_slot? found).node, Option.bind_some, Slot.node_enter?]

/-- A slot with its own node in it is the tree that it was taken from. -/
theorem fill_node_of_slot? (h : tree.slot? path = some slot) : slot.fill slot.node = tree := by
  have place : slot.At tree path := at_of_slot? h
  calc slot.fill slot.node
    _ = modify (fun _ => slot.node) path tree := place.fill slot.node
    _ = modify id path tree := modify_congr place.node rfl
    _ = tree := by rw [modify_id, id]

/-- Where a cell is, setting its state is writing into its slot. -/
theorem write?_of_get? {cell : Cell} (here : tree.get? path = some (formula cell))
    (state : CellState) : tree.write? path state = some (tree.setState path state) := by
  rw [← node_slot?] at here
  obtain ⟨slot, found, node⟩ := Option.map_eq_some_iff.mp here
  have place : slot.At tree path := at_of_slot? found
  rw [write?, found, Option.bind_some, Slot.withState?, node]
  refine congrArg some ?_
  calc slot.fill (formula { cell with state := state })
    _ = modify (fun _ => formula { cell with state := state }) path tree := place.fill _
    _ = modify (withState state) path tree := modify_congr place.node (by rw [node, withState])

/-- Writing one cell touches only that cell. A path leads a writer to the node that it leads a reader
to, in its place. A cell that is written is found where it was, with the new state and its own text. At
every path but those that lead to it the same is found as before, and the paths that exist are the same
in the same order. -/
theorem writing_touches_one_cell (tree : Tree) (path : DocPath) :
    (tree.slot? path).map Slot.node = tree.get? path ∧
    (∀ slot, tree.slot? path = some slot →
      slot.fill slot.node = tree ∧ ∀ new, (slot.fill new).get? path = some new) ∧
    ∀ cell, tree.get? path = some (formula cell) → ∀ state, ∃ written,
      tree.write? path state = some written ∧ tree.setState path state = written ∧
      written.get? path = some (formula ⟨cell.source, state⟩) ∧
      (∀ other, ¬ other <+: path → written.get? other = tree.get? other) ∧
      written.paths = tree.paths ∧
      (tree.Keyed → written.paths.Pairwise tree.ListedBefore ∧
        ∀ other, other ∈ written.paths ↔ (tree.get? other).isSome) := by
  refine ⟨node_slot? tree path, fun slot found => ⟨fill_node_of_slot? found, fun new => ?_⟩, ?_⟩
  · have place : slot.At tree path := at_of_slot? found
    rw [place.fill, get?_modify, place.node, Option.map_some]
  · intro cell here state
    have same : (tree.setState path state).paths = tree.paths := paths_setState tree path state
    refine ⟨tree.setState path state, write?_of_get? here state, rfl, ?_, ?_, same, ?_⟩
    · rw [get?_setState, if_pos List.prefix_rfl, here, List.drop_length]
      rfl
    · intro other apart
      rw [get?_setState, if_neg apart]
    · intro keyed
      rw [same]
      exact ⟨pairwise_pathsFrom keyed rfl, fun other => mem_paths_iff keyed⟩

/-- A document with a formula in an array, and one beside the array that has failed. -/
def halfFailed : Tree :=
  object [("a", scalar .null),
    ("list", array [formula ⟨"1 + 1", .unresolved⟩, scalar (.string "x")]),
    ("b", formula ⟨"super.c", .failed .reference⟩)]

/-- The formula in the array is begun. As before, nothing is found inside it, and the one beside the array
has failed. -/
theorem writing_touches_one_cell_item :
    halfFailed.get? [.key "list", .index 0] = some (formula ⟨"1 + 1", .unresolved⟩) ∧
    halfFailed.Keyed ∧
    ∃ written, halfFailed.write? [.key "list", .index 0] .inProgress = some written ∧
      written.get? [.key "list", .index 0] = some (formula ⟨"1 + 1", .inProgress⟩) ∧
      written.get? [.key "list", .index 0, .key "x"] = none ∧
      written.get? [.key "b"] = some (formula ⟨"super.c", .failed .reference⟩) ∧
      written.paths = [[], [.key "a"], [.key "list"], [.key "list", .index 0],
        [.key "list", .index 1], [.key "b"]] ∧
      written.paths.Pairwise halfFailed.ListedBefore := by
  have here : halfFailed.get? [.key "list", .index 0] = some (formula ⟨"1 + 1", .unresolved⟩) := rfl
  have keyed : halfFailed.Keyed := by simp [halfFailed, Keyed, ItemsKeyed, MembersKeyed]
  obtain ⟨_, _, writes⟩ := writing_touches_one_cell halfFailed [.key "list", .index 0]
  obtain ⟨written, wrote, _, begun, others, same, listed⟩ := writes _ here .inProgress
  refine ⟨here, keyed, written, wrote, begun, ?_, ?_, same, (listed keyed).1⟩
  · exact others [.key "list", .index 0, .key "x"] (by decide)
  · exact others [.key "b"] (by decide)

end Tree

end FormulaDoc
