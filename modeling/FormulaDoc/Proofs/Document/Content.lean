import FormulaDoc.Proofs.Document.Shape

/-!
# The cells of a working tree

Cells are reached in two ways: by their paths, and by going through the tree in document order. Where
no object has a key twice the two agree, so that what holds of every cell that a path finds holds of
every cell that a list of paths or the value of a tree is made from.
-/
namespace FormulaDoc

namespace Tree

mutual

/-- No object has a key twice, at any depth. -/
def Keyed : Tree → Prop
  | array items => ItemsKeyed items
  | object members => (members.map Prod.fst).Nodup ∧ MembersKeyed members
  | _ => True

def ItemsKeyed : List Tree → Prop
  | [] => True
  | item :: rest => item.Keyed ∧ ItemsKeyed rest

def MembersKeyed : List (String × Tree) → Prop
  | [] => True
  | (_, tree) :: rest => tree.Keyed ∧ MembersKeyed rest

end

mutual

theorem keyed_ofValue {value : Value} (h : value.WellFormed) : (ofValue value).Keyed := by
  match value with
  | .null | .bool _ | .number _ | .string _ | .formula _ => trivial
  | .array items => exact itemsKeyed_ofItems (show Value.ItemsWellFormed items from h)
  | .object members =>
    refine ⟨?_, membersKeyed_ofMembers h.2⟩
    simpa [ofMembers_eq_map, List.map_map, Function.comp_def] using h.1

theorem itemsKeyed_ofItems {items : List Value} (h : Value.ItemsWellFormed items) :
    ItemsKeyed (ofItems items) := by
  match items with
  | [] => trivial
  | item :: rest => exact ⟨keyed_ofValue h.1, itemsKeyed_ofItems h.2⟩

theorem membersKeyed_ofMembers {members : List (String × Value)}
    (h : Value.MembersWellFormed members) : MembersKeyed (ofMembers members) := by
  match members with
  | [] => trivial
  | (_, value) :: rest => exact ⟨keyed_ofValue h.1, membersKeyed_ofMembers h.2⟩

end

mutual

theorem keyed_of_blank {tree : Tree} (h : tree.blank.Keyed) : tree.Keyed := by
  match tree with
  | scalar _ | formula _ => trivial
  | array items => exact itemsKeyed_of_blank (show ItemsKeyed (blankItems items) from h)
  | object members =>
    refine ⟨?_, membersKeyed_of_blank h.2⟩
    simpa [blankMembers_eq_map, List.map_map, Function.comp_def] using h.1

theorem itemsKeyed_of_blank {items : List Tree} (h : ItemsKeyed (blankItems items)) :
    ItemsKeyed items := by
  match items with
  | [] => trivial
  | item :: rest => exact ⟨keyed_of_blank h.1, itemsKeyed_of_blank h.2⟩

theorem membersKeyed_of_blank {members : List (String × Tree)}
    (h : MembersKeyed (blankMembers members)) : MembersKeyed members := by
  match members with
  | [] => trivial
  | (_, tree) :: rest => exact ⟨keyed_of_blank h.1, membersKeyed_of_blank h.2⟩

end

/-- A tree of the shape of a well-formed document has no key twice in one object. -/
theorem keyed_of_shape {tree : Tree} {document : Value} (shape : tree.blank = ofValue document)
    (wellFormed : document.WellFormed) : tree.Keyed :=
  keyed_of_blank (shape ▸ keyed_ofValue wellFormed)

mutual

/-- Something holds of every cell and its path, when the tree is at a path. -/
def AllCells (holds : DocPath → Cell → Prop) (path : DocPath) : Tree → Prop
  | scalar _ => True
  | array items => AllItemCells holds path 0 items
  | object members => AllMemberCells holds path members
  | formula cell => holds path cell

def AllItemCells (holds : DocPath → Cell → Prop) (path : DocPath) (position : Nat) :
    List Tree → Prop
  | [] => True
  | item :: rest =>
    AllCells holds (path.index position) item ∧ AllItemCells holds path (position + 1) rest

def AllMemberCells (holds : DocPath → Cell → Prop) (path : DocPath) :
    List (String × Tree) → Prop
  | [] => True
  | (key, tree) :: rest => AllCells holds (path.key key) tree ∧ AllMemberCells holds path rest

end

variable {holds : DocPath → Cell → Prop}

mutual

/-- What holds of every cell that a path finds holds of all cells. -/
theorem allCells_of_cell? {tree : Tree} (keyed : tree.Keyed) (path : DocPath)
    (h : ∀ rest cell, tree.cell? rest = some cell → holds (path ++ rest) cell) :
    tree.AllCells holds path := by
  match tree with
  | scalar _ => trivial
  | formula cell =>
    have := h [] cell rfl
    rwa [List.append_nil] at this
  | array items =>
    apply allItemCells_of_cell? (show ItemsKeyed items from keyed) path 0
    intro i item found rest cell here
    have := h (.index i :: rest) cell (by simp [cell?_cons, child?_index, found, here])
    simpa [DocPath.index, DocPath.child] using this
  | object members =>
    apply allMemberCells_of_cell? keyed.2 path
    intro m mem rest cell here
    have := h (.key m.1 :: rest) cell
      (by simp [cell?_cons, child?_key, lookup_of_mem_nodup keyed.1 mem, here])
    simpa [DocPath.key, DocPath.child] using this

theorem allItemCells_of_cell? {items : List Tree} (keyed : ItemsKeyed items) (path : DocPath)
    (position : Nat)
    (h : ∀ i item, items[i]? = some item → ∀ rest cell, item.cell? rest = some cell →
      holds (path.index (position + i) ++ rest) cell) :
    AllItemCells holds path position items := by
  match items with
  | [] => trivial
  | item :: rest =>
    refine ⟨allCells_of_cell? keyed.1 _ (h 0 item rfl), ?_⟩
    apply allItemCells_of_cell? keyed.2 path (position + 1)
    intro i other found
    have := h (i + 1) other (by simpa using found)
    rwa [← Nat.add_assoc, Nat.add_right_comm] at this

theorem allMemberCells_of_cell? {members : List (String × Tree)} (keyed : MembersKeyed members)
    (path : DocPath)
    (h : ∀ m ∈ members, ∀ rest cell, m.2.cell? rest = some cell →
      holds (path.key m.1 ++ rest) cell) :
    AllMemberCells holds path members := by
  match members with
  | [] => trivial
  | (key, tree) :: rest =>
    refine ⟨allCells_of_cell? keyed.1 _ (h (key, tree) (by simp)), ?_⟩
    exact allMemberCells_of_cell? keyed.2 path fun m mem => h m (List.mem_cons_of_mem _ mem)

end

/-! ## Lists of cells -/

variable {test : CellState → Bool}

mutual

/-- A listed path comes from a cell that passes the test. -/
theorem AllCells.exists_of_mem {tree : Tree} {path : DocPath} (all : tree.AllCells holds path)
    {found : DocPath} (h : found ∈ tree.cellPaths test path) :
    ∃ cell, holds found cell ∧ test cell.state = true := by
  match tree with
  | scalar _ => simp [cellPaths] at h
  | formula cell =>
    by_cases passes : test cell.state = true
    · rw [cellPaths, if_pos passes, List.mem_singleton] at h
      exact ⟨cell, h ▸ all, passes⟩
    · simp [cellPaths, passes] at h
  | array items => exact AllItemCells.exists_of_mem (show AllItemCells holds path 0 items from all) h
  | object members => exact AllMemberCells.exists_of_mem (show AllMemberCells holds path members from all) h

theorem AllItemCells.exists_of_mem {items : List Tree} {path : DocPath} {position : Nat}
    (all : AllItemCells holds path position items) {found : DocPath}
    (h : found ∈ itemCellPaths test path position items) :
    ∃ cell, holds found cell ∧ test cell.state = true := by
  match items with
  | [] => simp [itemCellPaths] at h
  | item :: rest =>
    rcases List.mem_append.mp h with here | later
    · exact AllCells.exists_of_mem all.1 here
    · exact AllItemCells.exists_of_mem all.2 later

theorem AllMemberCells.exists_of_mem {members : List (String × Tree)} {path : DocPath}
    (all : AllMemberCells holds path members) {found : DocPath}
    (h : found ∈ memberCellPaths test path members) :
    ∃ cell, holds found cell ∧ test cell.state = true := by
  match members with
  | [] => simp [memberCellPaths] at h
  | (key, tree) :: rest =>
    rcases List.mem_append.mp h with here | later
    · exact AllCells.exists_of_mem all.1 here
    · exact AllMemberCells.exists_of_mem all.2 later

end

mutual

/-- The cells that pass a test are listed in the order of all cells. -/
theorem AllCells.cellPaths_eq_filter {tree : Tree} {path : DocPath} {keep : DocPath → Bool}
    (all : tree.AllCells (fun path cell => keep path = test cell.state) path) :
    tree.cellPaths test path = (tree.cellPaths (fun _ => true) path).filter keep := by
  match tree with
  | scalar _ => rfl
  | formula cell =>
    have kept : keep path = test cell.state := all
    by_cases passes : test cell.state = true <;> simp [cellPaths, kept, passes]
  | array items => exact AllItemCells.cellPaths_eq_filter (show AllItemCells _ path 0 items from all)
  | object members => exact AllMemberCells.cellPaths_eq_filter (show AllMemberCells _ path members from all)

theorem AllItemCells.cellPaths_eq_filter {items : List Tree} {path : DocPath} {position : Nat}
    {keep : DocPath → Bool}
    (all : AllItemCells (fun path cell => keep path = test cell.state) path position items) :
    itemCellPaths test path position items =
      (itemCellPaths (fun _ => true) path position items).filter keep := by
  match items with
  | [] => rfl
  | item :: rest =>
    rw [itemCellPaths, itemCellPaths, List.filter_append, AllCells.cellPaths_eq_filter all.1,
      AllItemCells.cellPaths_eq_filter all.2]

theorem AllMemberCells.cellPaths_eq_filter {members : List (String × Tree)} {path : DocPath}
    {keep : DocPath → Bool}
    (all : AllMemberCells (fun path cell => keep path = test cell.state) path members) :
    memberCellPaths test path members =
      (memberCellPaths (fun _ => true) path members).filter keep := by
  match members with
  | [] => rfl
  | (key, tree) :: rest =>
    rw [memberCellPaths, memberCellPaths, List.filter_append, AllCells.cellPaths_eq_filter all.1,
      AllMemberCells.cellPaths_eq_filter all.2]

end

theorem mem_itemCellPaths {items : List Tree} {i : Nat} {item : Tree} (h : items[i]? = some item)
    {path found : DocPath} {position : Nat}
    (here : found ∈ item.cellPaths test (path.index (position + i))) :
    found ∈ itemCellPaths test path position items := by
  induction items generalizing i position with
  | nil => simp at h
  | cons first rest ih =>
    rw [itemCellPaths, List.mem_append]
    cases i with
    | zero => simp_all
    | succ i =>
      refine .inr (ih (by simpa using h) ?_)
      rwa [Nat.add_assoc, Nat.add_comm 1]

theorem mem_memberCellPaths {members : List (String × Tree)} {key : String} {tree : Tree}
    (h : members.lookup key = some tree) {path found : DocPath}
    (here : found ∈ tree.cellPaths test (path.key key)) :
    found ∈ memberCellPaths test path members := by
  induction members with
  | nil => simp at h
  | cons first rest ih =>
    obtain ⟨name, child⟩ := first
    rw [memberCellPaths, List.mem_append]
    by_cases same : key = name
    · subst same
      rw [List.lookup_cons_self, Option.some.injEq] at h
      exact .inl (h ▸ here)
    · rw [List.lookup_cons, beq_eq_false_iff_ne.mpr same] at h
      exact .inr (ih h)

theorem mem_cellPaths_of_cell? {tree : Tree} {rest : DocPath} {cell : Cell}
    (h : tree.cell? rest = some cell) (passes : test cell.state = true) (path : DocPath) :
    path ++ rest ∈ tree.cellPaths test path := by
  induction rest generalizing tree path with
  | nil =>
    have node : tree = formula cell := by simpa [get?] using cell?_eq_some_iff.mp h
    simp [node, cellPaths, passes]
  | cons step rest ih =>
    rw [cell?_cons] at h
    obtain ⟨child, found, here⟩ := Option.bind_eq_some_iff.mp h
    have listed := ih here (path.child step)
    rw [DocPath.child, List.append_assoc, List.singleton_append] at listed
    cases tree with
    | scalar _ | formula _ => cases step <;> simp [child?] at found
    | array items =>
      cases step with
      | key _ => simp [child?] at found
      | index i => exact mem_itemCellPaths found (by rw [Nat.zero_add]; exact listed)
    | object members =>
      cases step with
      | key name => exact mem_memberCellPaths found listed
      | index _ => simp [child?] at found

section Changed

variable {test' : CellState → Bool} {f : Cell → Cell}

mutual

/-- Cells that are changed are listed if they pass a test afterwards. -/
theorem cellPaths_mapCells (same : ∀ cell, test (f cell).state = test' cell.state)
    (path : DocPath) (tree : Tree) :
    (tree.mapCells f).cellPaths test path = tree.cellPaths test' path := by
  match tree with
  | scalar _ => rfl
  | formula cell => rw [mapCells, cellPaths, cellPaths, same]
  | array items => exact itemCellPaths_mapCells same path 0 items
  | object members => exact memberCellPaths_mapCells same path members

theorem itemCellPaths_mapCells (same : ∀ cell, test (f cell).state = test' cell.state)
    (path : DocPath) (position : Nat) (items : List Tree) :
    itemCellPaths test path position (mapItemCells f items) =
      itemCellPaths test' path position items := by
  match items with
  | [] => rfl
  | item :: rest =>
    rw [mapItemCells, itemCellPaths, itemCellPaths, cellPaths_mapCells same,
      itemCellPaths_mapCells same]

theorem memberCellPaths_mapCells (same : ∀ cell, test (f cell).state = test' cell.state)
    (path : DocPath) (members : List (String × Tree)) :
    memberCellPaths test path (mapMemberCells f members) =
      memberCellPaths test' path members := by
  match members with
  | [] => rfl
  | (key, tree) :: rest =>
    rw [mapMemberCells, memberCellPaths, memberCellPaths, cellPaths_mapCells same,
      memberCellPaths_mapCells same]

end

end Changed

/-! ## Trees with the same cells -/

mutual

/-- Trees of one shape are equal if each cell of one is the cell of the other at its path. -/
theorem AllCells.eq_of_blank {found : DocPath → Option Cell} {tree tree' : Tree} {path : DocPath}
    (shape : tree.blank = tree'.blank)
    (all : tree.AllCells (fun path cell => found path = some cell) path)
    (all' : tree'.AllCells (fun path cell => found path = some cell) path) : tree = tree' := by
  match tree, tree' with
  | scalar _, scalar _ => exact shape
  | formula _, formula _ =>
    exact congrArg formula (Option.some.inj ((show found path = _ from all).symm.trans all'))
  | array items, array items' =>
    exact congrArg array (AllItemCells.eq_of_blank (array.inj shape) all all')
  | object members, object members' =>
    exact congrArg object (AllMemberCells.eq_of_blank (object.inj shape) all all')
  | scalar _, array _ | scalar _, object _ | scalar _, formula _
  | array _, scalar _ | array _, object _ | array _, formula _
  | object _, scalar _ | object _, array _ | object _, formula _
  | formula _, scalar _ | formula _, array _ | formula _, object _ => simp [blank] at shape

theorem AllItemCells.eq_of_blank {found : DocPath → Option Cell} {items items' : List Tree}
    {path : DocPath} {position : Nat} (shape : blankItems items = blankItems items')
    (all : AllItemCells (fun path cell => found path = some cell) path position items)
    (all' : AllItemCells (fun path cell => found path = some cell) path position items') :
    items = items' := by
  match items, items' with
  | [], [] => rfl
  | item :: rest, item' :: rest' =>
    simp only [blankItems, List.cons.injEq] at shape
    rw [AllCells.eq_of_blank shape.1 all.1 all'.1, AllItemCells.eq_of_blank shape.2 all.2 all'.2]
  | [], _ :: _ | _ :: _, [] => simp [blankItems] at shape

theorem AllMemberCells.eq_of_blank {found : DocPath → Option Cell}
    {members members' : List (String × Tree)} {path : DocPath}
    (shape : blankMembers members = blankMembers members')
    (all : AllMemberCells (fun path cell => found path = some cell) path members)
    (all' : AllMemberCells (fun path cell => found path = some cell) path members') :
    members = members' := by
  match members, members' with
  | [], [] => rfl
  | (key, tree) :: rest, (key', tree') :: rest' =>
    simp only [blankMembers, List.cons.injEq, Prod.mk.injEq] at shape
    obtain ⟨⟨rfl, here⟩, later⟩ := shape
    rw [AllCells.eq_of_blank here all.1 all'.1, AllMemberCells.eq_of_blank later all.2 all'.2]
  | [], _ :: _ | _ :: _, [] => simp [blankMembers] at shape

end

/-- Trees of one shape without repeated keys are equal if they have the same cells. -/
theorem eq_of_cell? {tree tree' : Tree} (shape : tree.blank = tree'.blank) (keyed : tree.Keyed)
    (keyed' : tree'.Keyed) (same : ∀ path, tree.cell? path = tree'.cell? path) : tree = tree' := by
  apply AllCells.eq_of_blank shape
  · exact allCells_of_cell? keyed DocPath.root fun _ _ here => here
  · exact allCells_of_cell? keyed' DocPath.root fun path cell here => (same path).trans here

/-! ## Parts of a tree -/

theorem get?_append (tree : Tree) (path rest : DocPath) :
    tree.get? (path ++ rest) = (tree.get? path).bind (·.get? rest) := by
  induction path generalizing tree with
  | nil => rfl
  | cons step path ih =>
    rw [List.cons_append, get?_cons, get?_cons]
    cases tree.child? step with
    | none => rfl
    | some child => exact ih child

theorem get?_child {tree part : Tree} {path : DocPath} (here : tree.get? path = some part)
    (step : Step) : tree.get? (path.child step) = part.child? step := by
  rw [DocPath.child, get?_append, here, Option.bind_some, get?_cons]
  cases part.child? step <;> rfl

theorem cell?_append {tree part : Tree} {path : DocPath} (h : tree.get? path = some part)
    (rest : DocPath) : tree.cell? (path ++ rest) = part.cell? rest := by
  simp only [cell?, get?_append, h, Option.bind_some]

theorem keyed_getElem? {items : List Tree} (keyed : ItemsKeyed items) {i : Nat} {item : Tree}
    (h : items[i]? = some item) : item.Keyed := by
  induction items generalizing i with
  | nil => simp at h
  | cons first rest ih =>
    cases i with
    | zero => exact Option.some.inj h ▸ keyed.1
    | succ i => exact ih keyed.2 (by simpa using h)

theorem keyed_lookup {members : List (String × Tree)} (keyed : MembersKeyed members)
    {key : String} {tree : Tree} (h : members.lookup key = some tree) : tree.Keyed := by
  induction members with
  | nil => simp at h
  | cons m rest ih =>
    rw [List.lookup_cons] at h
    split at h
    · exact Option.some.inj h ▸ keyed.1
    · exact ih keyed.2 h

theorem keyed_child {tree child : Tree} (keyed : tree.Keyed) {step : Step}
    (h : tree.child? step = some child) : child.Keyed := by
  cases tree <;> cases step <;> simp only [child?, reduceCtorEq] at h
  · exact keyed_getElem? keyed h
  · exact keyed_lookup keyed.2 h

theorem keyed_get? {tree part : Tree} (keyed : tree.Keyed) {path : DocPath}
    (h : tree.get? path = some part) : part.Keyed := by
  induction path generalizing tree with
  | nil => exact Option.some.inj h ▸ keyed
  | cons step rest ih =>
    obtain ⟨child, found, here⟩ := Option.bind_eq_some_iff.mp h
    exact ih (keyed_child keyed found) here

/-- The paths of the cells inside a node that pass a test, none where no node is. -/
def cellsWithin (test : CellState → Bool) (tree : Tree) (path : DocPath) : List DocPath :=
  match tree.get? path with
  | some part => part.cellPaths test path
  | none => []

/-- What holds of the cells of a part, by their paths in the tree. -/
theorem allCells_part {tree part : Tree} (keyed : tree.Keyed) {path : DocPath}
    (h : tree.get? path = some part)
    (all : ∀ found cell, path <+: found → tree.cell? found = some cell → holds found cell) :
    part.AllCells holds path :=
  allCells_of_cell? (keyed_get? keyed h) path fun rest cell here =>
    all (path ++ rest) cell (List.prefix_append _ _) (by rw [cell?_append h, here])

theorem mem_cellsWithin_iff {tree : Tree} (keyed : tree.Keyed) {path found : DocPath} :
    found ∈ tree.cellsWithin test path ↔
      path <+: found ∧ ∃ cell, tree.cell? found = some cell ∧ test cell.state = true := by
  rw [cellsWithin]
  constructor
  · intro h
    cases node : tree.get? path with
    | none => simp [node] at h
    | some part =>
      simp only [node] at h
      have all : part.AllCells (fun found cell => path <+: found ∧ tree.cell? found = some cell)
        path := allCells_part keyed node fun _ _ inside here => ⟨inside, here⟩
      obtain ⟨cell, ⟨inside, here⟩, passes⟩ := all.exists_of_mem h
      exact ⟨inside, cell, here, passes⟩
  · rintro ⟨⟨rest, rfl⟩, cell, here, passes⟩
    cases node : tree.get? path with
    | none => simp [cell?, get?_append, node] at here
    | some part =>
      rw [cell?_append node] at here
      exact mem_cellPaths_of_cell? here passes path

def passesAt (test : CellState → Bool) (tree : Tree) (path : DocPath) : Bool :=
  (tree.cell? path).any fun cell => test cell.state

/-- The cells inside a node that pass a test are listed in the order of all formulas inside. -/
theorem cellsWithin_eq_filter {tree : Tree} (keyed : tree.Keyed) (path : DocPath) :
    tree.cellsWithin test path =
      (tree.cellsWithin (fun _ => true) path).filter (tree.passesAt test) := by
  simp only [cellsWithin]
  cases node : tree.get? path with
  | none => rfl
  | some part =>
    apply AllCells.cellPaths_eq_filter
    apply allCells_part keyed node
    intro found cell _ here
    simp [passesAt, here]

theorem cellsWithin_mapCells {test' : CellState → Bool} {f : Cell → Cell}
    (same : ∀ cell, test (f cell).state = test' cell.state) (tree : Tree) (path : DocPath) :
    (tree.mapCells f).cellsWithin test path = tree.cellsWithin test' path := by
  rw [cellsWithin, cellsWithin, get?_mapCells]
  cases tree.get? path with
  | none => rfl
  | some part => exact cellPaths_mapCells same path part

/-- Which formulas there are depends on the shape alone. -/
theorem cellsWithin_blank (tree : Tree) (path : DocPath) :
    tree.blank.cellsWithin (fun _ => true) path = tree.cellsWithin (fun _ => true) path := by
  rw [blank_eq_mapCells]
  apply cellsWithin_mapCells
  exact fun _ => rfl

theorem formulas_eq_cellsWithin (tree : Tree) :
    tree.formulas = tree.cellsWithin (fun _ => true) DocPath.root := rfl

theorem mem_formulas_of_cell? {tree : Tree} {path : DocPath} {cell : Cell}
    (h : tree.cell? path = some cell) : path ∈ tree.formulas :=
  mem_cellPaths_of_cell? h rfl []

end Tree

end FormulaDoc
