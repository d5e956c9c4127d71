import Mathlib.Data.List.Nodup
import FormulaDoc.Proofs.Document.FormulaFree

/-!
# Document order

A document is read from front to back: of two places the first is the one whose path takes the earlier
step where the two paths part. The nodes of a document are listed in this order, each in front of what
is inside it. The formulas that a node still waits for are listed so as well, once each, and there are
none exactly if the node has a value.
-/
namespace FormulaDoc

namespace Tree

/-- Whether one step leads to an earlier part of a container than another one. -/
def StepBefore : Tree → Step → Step → Prop
  | array _, .index position, .index later => position < later
  | object members, .key name, .key later => [name, later].Sublist (members.map Prod.fst)
  | _, _, _ => False

/-- Whether one path comes before another one in document order: at the node where they part it takes
the earlier step. -/
def Precedes (tree : Tree) (path other : DocPath) : Prop :=
  ∃ fork node first second, tree.get? fork = some node ∧ node.StepBefore first second ∧
    fork.child first <+: path ∧ fork.child second <+: other

theorem stepBefore_irrefl {tree : Tree} (keyed : tree.Keyed) (step : Step) :
    ¬ tree.StepBefore step step := by
  cases tree with
  | scalar _ | formula _ => exact id
  | array items =>
    cases step with
    | key _ => exact id
    | index position => exact Nat.lt_irrefl position
  | object members =>
    cases step with
    | key name => exact List.nodup_iff_sublist.mp keyed.1 name
    | index _ => exact id

theorem precedes_irrefl {tree : Tree} (keyed : tree.Keyed) (path : DocPath) :
    ¬ tree.Precedes path path := by
  rintro ⟨fork, node, first, second, here, before, inside, inside'⟩
  have length : (fork.child first).length = (fork.child second).length := by simp [DocPath.child]
  have same : fork.child first = fork.child second :=
    (List.prefix_of_prefix_length_le inside inside' (Nat.le_of_eq length)).eq_of_length length
  obtain rfl : first = second := by simpa [DocPath.child] using same
  exact stepBefore_irrefl (keyed_get? keyed here) first before

/-- Whether one path is listed before another one: it leads to a node around the other's, or to an
earlier one. -/
def ListedBefore (tree : Tree) (path other : DocPath) : Prop :=
  (path <+: other ∧ path ≠ other) ∨ tree.Precedes path other

/-! ## The nodes of a tree -/

mutual

/-- The paths of all nodes of a tree that is at a path, from front to back. -/
def pathsFrom (path : DocPath) : Tree → List DocPath
  | scalar _ | formula _ => [path]
  | array items => path :: itemPaths path 0 items
  | object members => path :: memberPaths path members

def itemPaths (path : DocPath) (position : Nat) : List Tree → List DocPath
  | [] => []
  | item :: rest => pathsFrom (path.index position) item ++ itemPaths path (position + 1) rest

def memberPaths (path : DocPath) : List (String × Tree) → List DocPath
  | [] => []
  | (key, tree) :: rest => pathsFrom (path.key key) tree ++ memberPaths path rest

end

def paths (tree : Tree) : List DocPath := tree.pathsFrom DocPath.root

mutual

/-- A listed path is found. -/
theorem exists_of_mem_pathsFrom {tree : Tree} (keyed : tree.Keyed) {path found : DocPath}
    (h : found ∈ tree.pathsFrom path) :
    ∃ rest, found = path ++ rest ∧ (tree.get? rest).isSome := by
  match tree with
  | scalar _ | formula _ =>
    exact ⟨[], by rw [List.mem_singleton.mp h, List.append_nil], rfl⟩
  | array items =>
    rcases List.mem_cons.mp h with rfl | inside
    · exact ⟨[], (List.append_nil _).symm, rfl⟩
    · obtain ⟨i, item, rest, there, rfl, here⟩ := exists_of_mem_itemPaths keyed inside
      refine ⟨.index i :: rest, by simp [DocPath.index, DocPath.child], ?_⟩
      rwa [get?, child?, there]
  | object members =>
    rcases List.mem_cons.mp h with rfl | inside
    · exact ⟨[], (List.append_nil _).symm, rfl⟩
    · obtain ⟨m, mem, rest, rfl, here⟩ := exists_of_mem_memberPaths keyed.2 inside
      refine ⟨.key m.1 :: rest, by simp [DocPath.key, DocPath.child], ?_⟩
      rwa [get?, child?, lookup_of_mem_nodup keyed.1 mem]

theorem exists_of_mem_itemPaths {items : List Tree} (keyed : ItemsKeyed items)
    {path found : DocPath} {position : Nat} (h : found ∈ itemPaths path position items) :
    ∃ i item rest, items[i]? = some item ∧ found = path.index (position + i) ++ rest ∧
      (item.get? rest).isSome := by
  match items with
  | [] => cases h
  | item :: others =>
    rcases List.mem_append.mp h with first | later
    · obtain ⟨rest, same, here⟩ := exists_of_mem_pathsFrom keyed.1 first
      exact ⟨0, item, rest, rfl, same, here⟩
    · obtain ⟨i, other, rest, there, same, here⟩ := exists_of_mem_itemPaths keyed.2 later
      refine ⟨i + 1, other, rest, there, ?_, here⟩
      rw [same, Nat.add_assoc, Nat.add_comm 1]

theorem exists_of_mem_memberPaths {members : List (String × Tree)} (keyed : MembersKeyed members)
    {path found : DocPath} (h : found ∈ memberPaths path members) :
    ∃ m ∈ members, ∃ rest, found = path.key m.1 ++ rest ∧ (m.2.get? rest).isSome := by
  match members with
  | [] => cases h
  | (key, tree) :: others =>
    rcases List.mem_append.mp h with first | later
    · exact ⟨(key, tree), List.mem_cons_self, exists_of_mem_pathsFrom keyed.1 first⟩
    · obtain ⟨m, mem, found⟩ := exists_of_mem_memberPaths keyed.2 later
      exact ⟨m, List.mem_cons_of_mem _ mem, found⟩

end

theorem mem_itemPaths {items : List Tree} {i : Nat} {item : Tree} (there : items[i]? = some item)
    {path found : DocPath} {position : Nat}
    (h : found ∈ item.pathsFrom (path.index (position + i))) :
    found ∈ itemPaths path position items := by
  induction items generalizing i position with
  | nil => cases there
  | cons first rest ih =>
    cases i with
    | zero =>
      cases there
      exact List.mem_append_left _ h
    | succ i =>
      refine List.mem_append_right _ (ih there ?_)
      rwa [Nat.add_assoc, Nat.add_comm 1]

theorem mem_memberPaths {members : List (String × Tree)} {m : String × Tree} (mem : m ∈ members)
    {path found : DocPath} (h : found ∈ m.2.pathsFrom (path.key m.1)) :
    found ∈ memberPaths path members := by
  induction members with
  | nil => cases mem
  | cons first rest ih =>
    rcases List.mem_cons.mp mem with rfl | later
    · exact List.mem_append_left _ h
    · exact List.mem_append_right _ (ih later)

/-- A path that is found is listed. -/
theorem mem_pathsFrom {tree : Tree} {rest : DocPath} (h : (tree.get? rest).isSome)
    (path : DocPath) : path ++ rest ∈ tree.pathsFrom path := by
  induction rest generalizing tree path with
  | nil => cases tree <;> simp [pathsFrom]
  | cons step rest ih =>
    obtain ⟨node, found⟩ := Option.isSome_iff_exists.mp h
    obtain ⟨child, there, here⟩ := Option.bind_eq_some_iff.mp found
    have listed := ih (Option.isSome_of_eq_some here) (path.child step)
    rw [DocPath.child, List.append_assoc, List.singleton_append] at listed
    cases tree with
    | scalar _ | formula _ => cases step <;> cases there
    | array items =>
      cases step with
      | key _ => cases there
      | index i =>
        refine List.mem_cons_of_mem _ (mem_itemPaths there ?_)
        rwa [Nat.zero_add]
    | object members =>
      cases step with
      | index _ => cases there
      | key name => exact List.mem_cons_of_mem _ (mem_memberPaths (mem_of_lookup there) listed)

theorem mem_paths_iff {tree : Tree} (keyed : tree.Keyed) {path : DocPath} :
    path ∈ tree.paths ↔ (tree.get? path).isSome := by
  constructor
  · intro h
    obtain ⟨_, rfl, here⟩ := exists_of_mem_pathsFrom keyed h
    exact here
  · intro h
    exact mem_pathsFrom h DocPath.root

variable {tree : Tree}

theorem around_child (path : DocPath) (step : Step) (rest : DocPath) :
    path <+: path.child step ++ rest ∧ path ≠ path.child step ++ rest := by
  rw [DocPath.child, List.append_assoc]
  exact ⟨List.prefix_append _ _, by simp⟩

mutual

/-- The nodes of a part are listed in document order. -/
theorem pairwise_pathsFrom (keyed : tree.Keyed) {part : Tree} {path : DocPath}
    (here : tree.get? path = some part) : (part.pathsFrom path).Pairwise tree.ListedBefore := by
  have inner : part.Keyed := keyed_get? keyed here
  match part with
  | scalar _ | formula _ => exact List.pairwise_singleton _ _
  | array items =>
    refine List.pairwise_cons.mpr ⟨fun found mem => ?_, pairwise_itemPaths keyed inner [] here⟩
    obtain ⟨_, _, rest, _, rfl, _⟩ := exists_of_mem_itemPaths inner mem
    exact .inl (around_child path _ rest)
  | object members =>
    refine List.pairwise_cons.mpr ⟨fun found mem => ?_, pairwise_memberPaths keyed inner.2 [] here⟩
    obtain ⟨_, _, rest, rfl, _⟩ := exists_of_mem_memberPaths inner.2 mem
    exact .inl (around_child path _ rest)

theorem pairwise_itemPaths (keyed : tree.Keyed) {items : List Tree} (inner : ItemsKeyed items)
    {path : DocPath} (before : List Tree)
    (here : tree.get? path = some (array (before ++ items))) :
    (itemPaths path before.length items).Pairwise tree.ListedBefore := by
  match items with
  | [] => exact .nil
  | item :: rest =>
    have child : tree.get? (path.index before.length) = some item := by
      rw [DocPath.index, get?_child here, child?_index]
      simp
    have others := pairwise_itemPaths keyed inner.2 (before ++ [item]) (by simpa using here)
    rw [List.length_append, List.length_singleton] at others
    refine List.pairwise_append.mpr ⟨pairwise_pathsFrom keyed child, others, ?_⟩
    intro first mem second mem'
    obtain ⟨_, rfl, _⟩ := exists_of_mem_pathsFrom inner.1 mem
    obtain ⟨i, _, _, _, rfl, _⟩ := exists_of_mem_itemPaths inner.2 mem'
    have later : before.length < before.length + 1 + i := by omega
    exact .inr ⟨path, _, .index before.length, .index (before.length + 1 + i), here, later,
      List.prefix_append _ _, List.prefix_append _ _⟩

theorem pairwise_memberPaths (keyed : tree.Keyed) {members : List (String × Tree)}
    (inner : MembersKeyed members) {path : DocPath} (before : List (String × Tree))
    (here : tree.get? path = some (object (before ++ members))) :
    (memberPaths path members).Pairwise tree.ListedBefore := by
  match members with
  | [] => exact .nil
  | (key, member) :: rest =>
    have child : tree.get? (path.key key) = some member := by
      rw [DocPath.key, get?_child here, child?_key]
      exact lookup_of_mem_nodup (keyed_get? keyed here).1 (m := (key, member)) (by simp)
    have others := pairwise_memberPaths keyed inner.2 (before ++ [(key, member)])
      (by simpa using here)
    refine List.pairwise_append.mpr ⟨pairwise_pathsFrom keyed child, others, ?_⟩
    intro first mem second mem'
    obtain ⟨_, rfl, _⟩ := exists_of_mem_pathsFrom inner.1 mem
    obtain ⟨m, more, _, rfl, _⟩ := exists_of_mem_memberPaths inner.2 mem'
    have later : [key, m.1].Sublist ((before ++ (key, member) :: rest).map Prod.fst) := by
      rw [List.map_append, List.map_cons]
      exact List.sublist_append_of_sublist_right
        (.cons_cons key (List.singleton_sublist.mpr (List.mem_map_of_mem more)))
    exact .inr ⟨path, _, .key key, .key m.1, here, later, List.prefix_append _ _,
      List.prefix_append _ _⟩

end

/-! ## The formulas of a tree -/

variable {test : CellState → Bool}

mutual

/-- The cells of a part are listed in the order of all its nodes. -/
theorem cellPaths_sublist (part : Tree) (path : DocPath) :
    (part.cellPaths test path).Sublist (part.pathsFrom path) := by
  match part with
  | scalar _ => exact List.nil_sublist _
  | formula cell =>
    rw [cellPaths]
    split
    · exact List.Sublist.refl _
    · exact List.nil_sublist _
  | array items => exact (itemCellPaths_sublist items path 0).cons path
  | object members => exact (memberCellPaths_sublist members path).cons path

theorem itemCellPaths_sublist (items : List Tree) (path : DocPath) (position : Nat) :
    (itemCellPaths test path position items).Sublist (itemPaths path position items) := by
  match items with
  | [] => exact .slnil
  | item :: rest =>
    exact (cellPaths_sublist item _).append (itemCellPaths_sublist rest path (position + 1))

theorem memberCellPaths_sublist (members : List (String × Tree)) (path : DocPath) :
    (memberCellPaths test path members).Sublist (memberPaths path members) := by
  match members with
  | [] => exact .slnil
  | (_, member) :: rest =>
    exact (cellPaths_sublist member _).append (memberCellPaths_sublist rest path)

end

/-- No cell is inside another one. -/
theorem eq_of_cell?_inside {path other : DocPath} {cell cell' : Cell}
    (here : tree.cell? path = some cell) (there : tree.cell? other = some cell')
    (inside : path <+: other) : path = other := by
  obtain ⟨rest, rfl⟩ := inside
  rw [cell?_append (cell?_eq_some_iff.mp here)] at there
  cases rest with
  | nil => rw [List.append_nil]
  | cons step rest => cases there

/-- The cells of a node are listed in document order. -/
theorem pairwise_cellPaths (keyed : tree.Keyed) {part : Tree} {path : DocPath}
    (here : tree.get? path = some part) :
    (part.cellPaths test path).Pairwise tree.Precedes := by
  have cells : ∀ found ∈ part.cellPaths test path, ∃ cell, tree.cell? found = some cell := by
    intro found mem
    have within : found ∈ tree.cellsWithin test path := by rwa [cellsWithin, here]
    obtain ⟨_, cell, there, _⟩ := (mem_cellsWithin_iff keyed).mp within
    exact ⟨cell, there⟩
  refine ((pairwise_pathsFrom keyed here).sublist (cellPaths_sublist part path)).imp_of_mem ?_
  rintro first second mem mem' (⟨inside, apart⟩ | earlier)
  · obtain ⟨_, there⟩ := cells first mem
    obtain ⟨_, there'⟩ := cells second mem'
    exact absurd (eq_of_cell?_inside there there' inside) apart
  · exact earlier

/-- The formulas that a node waits for are the unresolved ones inside it, in document order and once each.
It waits for none exactly if it has a value, which then is the one with null for what has none. -/
theorem pending_decides_value (keyed : tree.Keyed) {node : Tree} {path : DocPath}
    (here : tree.get? path = some node) :
    (∀ found, found ∈ node.pending path ↔
      path <+: found ∧ ∃ cell, tree.get? found = some (formula cell) ∧ cell.state.isResolved = false) ∧
    (node.pending path).Nodup ∧
    (node.pending path).Pairwise tree.Precedes ∧
    (node.pending path = [] ↔ node.toValue?.isSome) ∧
    (node.pending path = [] → node.toValue? = some node.toValue) := by
  have order : (node.pending path).Pairwise tree.Precedes := pairwise_cellPaths keyed here
  have within : node.pending path = tree.cellsWithin (fun state => !state.isResolved) path := by
    rw [cellsWithin, here, pending]
  refine ⟨fun found => ?_, ?_, order, pending_eq_nil_iff node path, fun none => ?_⟩
  · rw [within, mem_cellsWithin_iff keyed]
    simp only [cell?_eq_some_iff, Bool.not_eq_true']
  · refine order.imp fun {first second} before => ?_
    rintro rfl
    exact precedes_irrefl keyed first before
  · obtain ⟨value, found⟩ := Option.isSome_iff_exists.mp ((pending_eq_nil_iff node path).mp none)
    rw [found, toValue_of_toValue? found]

/-- A document with a failed formula, one in progress and a resolved one. -/
def partlyResolved : Tree :=
  object [("a", formula ⟨"1 / x", .failed .reference⟩),
    ("b", array [scalar .null, formula ⟨"b", .inProgress⟩]),
    ("c", formula ⟨"true", .resolved (.bool true)⟩)]

/-- The failed formula is listed in front of the one in progress, and the resolved one is a value. -/
theorem pending_decides_value_partlyResolved :
    partlyResolved.pending [] = [[.key "a"], [.key "b", .index 1]] ∧
    partlyResolved.Precedes [.key "a"] [.key "b", .index 1] ∧
    partlyResolved.toValue? = none ∧
    (formula ⟨"true", .resolved (.bool true)⟩).toValue? = some (.bool true) := by
  have keyed : partlyResolved.Keyed := by simp [partlyResolved, Keyed, ItemsKeyed, MembersKeyed]
  have listed : partlyResolved.pending [] = [[.key "a"], [.key "b", .index 1]] := rfl
  have whole : partlyResolved.get? [] = some partlyResolved := rfl
  have last : partlyResolved.get? [.key "c"] = some (formula ⟨"true", .resolved (.bool true)⟩) := rfl
  obtain ⟨_, _, order, value, _⟩ := pending_decides_value keyed whole
  obtain ⟨_, _, _, _, same⟩ := pending_decides_value keyed last
  rw [listed] at order value
  refine ⟨listed, List.rel_of_pairwise_cons order List.mem_cons_self, ?_, same rfl⟩
  exact Option.not_isSome_iff_eq_none.mp fun found => List.cons_ne_nil _ _ (value.mpr found)

end Tree

end FormulaDoc
