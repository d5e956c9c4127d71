import FormulaDoc.Document.Tree

/-!
# The shape of a working tree

A working tree keeps the containers, keys, scalars and formula texts of its document for good: only
states of cells change. Forgetting the states gives back the tree that the document started with, so
that looking up a path in the tree and in the document find the same kind of node.
-/
namespace FormulaDoc

namespace Value

def child? : Value → Step → Option Value
  | object members, .key name => members.lookup name
  | array items, .index position => items[position]?
  | _, _ => none

def get? (document : Value) : DocPath → Option Value
  | [] => some document
  | step :: rest => (document.child? step).bind (·.get? rest)

end Value

theorem lookup_map_values {α β : Type} (f : α → β) (key : String) (members : List (String × α)) :
    (members.map fun m => (m.1, f m.2)).lookup key = (members.lookup key).map f := by
  induction members with
  | nil => rfl
  | cons m rest ih =>
    obtain ⟨k, v⟩ := m
    simp only [List.map_cons, List.lookup_cons, ih]
    cases key == k <;> rfl

theorem lookup_of_mem_nodup {α : Type} {members : List (String × α)}
    (nodup : (members.map Prod.fst).Nodup) {m : String × α} (h : m ∈ members) :
    members.lookup m.1 = some m.2 := by
  induction members with
  | nil => cases h
  | cons first rest ih =>
    rw [List.map_cons, List.nodup_cons] at nodup
    rcases List.mem_cons.mp h with rfl | later
    · rw [List.lookup_cons_self]
    · have apart : m.1 ≠ first.1 := fun same =>
        nodup.1 (same ▸ List.mem_map.mpr ⟨m, later, rfl⟩)
      rw [List.lookup_cons, beq_eq_false_iff_ne.mpr apart]
      exact ih nodup.2 later

theorem modifyMember_cons {α : Type} (name key : String) (f : α → α) (a : α)
    (rest : List (String × α)) :
    modifyMember name f ((key, a) :: rest) =
      if key = name then (key, f a) :: rest else (key, a) :: modifyMember name f rest := rfl

theorem lookup_modifyMember {α : Type} (name key : String) (f : α → α)
    (members : List (String × α)) :
    (modifyMember name f members).lookup key =
      if name = key then (members.lookup key).map f else members.lookup key := by
  induction members with
  | nil => exact (ite_self none).symm
  | cons m rest ih =>
    obtain ⟨k, v⟩ := m
    rw [modifyMember_cons]
    by_cases hk : k = name
    · subst hk
      by_cases hn : k = key
      · simp [hn]
      · simp [hn, List.lookup_cons, beq_eq_false_iff_ne.mpr (Ne.symm hn)]
    · rw [if_neg hk]
      by_cases hn : k = key
      · subst hn
        simp [Ne.symm hk]
      · rw [List.lookup_cons, List.lookup_cons, beq_eq_false_iff_ne.mpr (Ne.symm hn)]
        exact ih

section Modifying

variable {α β : Type}

theorem modifyMember_id (members : List (String × α)) (name : String) :
    modifyMember name id members = members := by
  induction members with
  | nil => rfl
  | cons m rest ih =>
    rw [modifyMember_cons, ih]
    split <;> rfl

/-- A change of one item that a map turns into another change. -/
theorem map_modify {g : α → β} {f : α → α} {f' : β → β} (turns : ∀ a, g (f a) = f' (g a))
    (items : List α) (position : Nat) :
    (items.modify position f).map g = (items.map g).modify position f' := by
  apply List.ext_getElem?
  intro i
  simp only [List.getElem?_map, List.getElem?_modify]
  cases items[i]? with
  | none => rfl
  | some item => by_cases h : position = i <;> simp [h, turns]

theorem map_modifyMember {g : α → β} {f : α → α} {f' : β → β} (turns : ∀ a, g (f a) = f' (g a))
    (members : List (String × α)) (name : String) :
    (modifyMember name f members).map (fun m => (m.1, g m.2)) =
      modifyMember name f' (members.map fun m => (m.1, g m.2)) := by
  induction members with
  | nil => rfl
  | cons m rest ih =>
    obtain ⟨key, a⟩ := m
    rw [modifyMember_cons, List.map_cons, modifyMember_cons]
    split
    · rw [List.map_cons, turns]
    · rw [List.map_cons, ih]

end Modifying

namespace Tree

mutual

/-- A tree with all its formulas unresolved again. -/
def blank : Tree → Tree
  | scalar value => scalar value
  | array items => array (blankItems items)
  | object members => object (blankMembers members)
  | formula cell => formula { cell with state := .unresolved }

def blankItems : List Tree → List Tree
  | [] => []
  | item :: rest => item.blank :: blankItems rest

def blankMembers : List (String × Tree) → List (String × Tree)
  | [] => []
  | (key, tree) :: rest => (key, tree.blank) :: blankMembers rest

end

theorem blankItems_eq_map (items : List Tree) : blankItems items = items.map blank := by
  induction items with
  | nil => rfl
  | cons item rest ih => rw [blankItems, ih, List.map_cons]

theorem blankMembers_eq_map (members : List (String × Tree)) :
    blankMembers members = members.map fun m => (m.1, m.2.blank) := by
  induction members with
  | nil => rfl
  | cons m rest ih => rw [blankMembers, ih, List.map_cons]

mutual

/-- A tree with every cell changed. -/
def mapCells (f : Cell → Cell) : Tree → Tree
  | scalar value => scalar value
  | array items => array (mapItemCells f items)
  | object members => object (mapMemberCells f members)
  | formula cell => formula (f cell)

def mapItemCells (f : Cell → Cell) : List Tree → List Tree
  | [] => []
  | item :: rest => item.mapCells f :: mapItemCells f rest

def mapMemberCells (f : Cell → Cell) : List (String × Tree) → List (String × Tree)
  | [] => []
  | (key, tree) :: rest => (key, tree.mapCells f) :: mapMemberCells f rest

end

theorem mapItemCells_eq_map (f : Cell → Cell) (items : List Tree) :
    mapItemCells f items = items.map (mapCells f) := by
  induction items with
  | nil => rfl
  | cons item rest ih => rw [mapItemCells, ih, List.map_cons]

theorem mapMemberCells_eq_map (f : Cell → Cell) (members : List (String × Tree)) :
    mapMemberCells f members = members.map fun m => (m.1, m.2.mapCells f) := by
  induction members with
  | nil => rfl
  | cons m rest ih => rw [mapMemberCells, ih, List.map_cons]

mutual

theorem blank_eq_mapCells (tree : Tree) :
    tree.blank = tree.mapCells fun cell => { cell with state := .unresolved } := by
  match tree with
  | scalar _ | formula _ => rfl
  | array items => rw [blank, mapCells, blankItems_eq_mapItemCells items]
  | object members => rw [blank, mapCells, blankMembers_eq_mapMemberCells members]

theorem blankItems_eq_mapItemCells (items : List Tree) :
    blankItems items = mapItemCells (fun cell => { cell with state := .unresolved }) items := by
  match items with
  | [] => rfl
  | item :: rest =>
    rw [blankItems, mapItemCells, blank_eq_mapCells item, blankItems_eq_mapItemCells rest]

theorem blankMembers_eq_mapMemberCells (members : List (String × Tree)) :
    blankMembers members =
      mapMemberCells (fun cell => { cell with state := .unresolved }) members := by
  match members with
  | [] => rfl
  | (key, tree) :: rest =>
    rw [blankMembers, mapMemberCells, blank_eq_mapCells tree, blankMembers_eq_mapMemberCells rest]

end

theorem ofItems_eq_map (items : List Value) : ofItems items = items.map ofValue := by
  induction items with
  | nil => rfl
  | cons item rest ih => rw [ofItems, ih, List.map_cons]

theorem ofMembers_eq_map (members : List (String × Value)) :
    ofMembers members = members.map fun m => (m.1, ofValue m.2) := by
  induction members with
  | nil => rfl
  | cons m rest ih => rw [ofMembers, ih, List.map_cons]

mutual

@[simp] theorem blank_ofValue (value : Value) : (ofValue value).blank = ofValue value := by
  match value with
  | .null | .bool _ | .number _ | .string _ | .formula _ => rfl
  | .array items => rw [ofValue, blank, blankItems_ofItems items]
  | .object members => rw [ofValue, blank, blankMembers_ofMembers members]

theorem blankItems_ofItems (items : List Value) : blankItems (ofItems items) = ofItems items := by
  match items with
  | [] => rfl
  | item :: rest => rw [ofItems, blankItems, blank_ofValue item, blankItems_ofItems rest]

theorem blankMembers_ofMembers (members : List (String × Value)) :
    blankMembers (ofMembers members) = ofMembers members := by
  match members with
  | [] => rfl
  | (key, value) :: rest =>
    rw [ofMembers, blankMembers, blank_ofValue value, blankMembers_ofMembers rest]

end

/-! ## Looking up paths -/

theorem child?_key (members : List (String × Tree)) (name : String) :
    (object members).child? (.key name) = members.lookup name := rfl

theorem child?_index (items : List Tree) (position : Nat) :
    (array items).child? (.index position) = items[position]? := rfl

theorem get?_cons (tree : Tree) (step : Step) (rest : DocPath) :
    tree.get? (step :: rest) = (tree.child? step).bind (·.get? rest) := rfl

theorem child?_mapCells (f : Cell → Cell) (tree : Tree) (step : Step) :
    (tree.mapCells f).child? step = (tree.child? step).map (mapCells f) := by
  cases tree with
  | scalar _ | formula _ => cases step <;> rfl
  | array items =>
    cases step with
    | key _ => rfl
    | index position =>
      change (mapItemCells f items)[position]? = items[position]?.map (mapCells f)
      rw [mapItemCells_eq_map, List.getElem?_map]
  | object members =>
    cases step with
    | key name =>
      change (mapMemberCells f members).lookup name = (members.lookup name).map (mapCells f)
      rw [mapMemberCells_eq_map, lookup_map_values]
    | index _ => rfl

theorem child?_ofValue (value : Value) (step : Step) :
    (ofValue value).child? step = (value.child? step).map ofValue := by
  cases value with
  | null | bool _ | number _ | string _ | formula _ => cases step <;> rfl
  | array items =>
    cases step with
    | key _ => rfl
    | index position =>
      change (ofItems items)[position]? = items[position]?.map ofValue
      rw [ofItems_eq_map, List.getElem?_map]
  | object members =>
    cases step with
    | key name =>
      change (ofMembers members).lookup name = (members.lookup name).map ofValue
      rw [ofMembers_eq_map, lookup_map_values]
    | index _ => rfl

theorem get?_mapCells (f : Cell → Cell) (tree : Tree) (path : DocPath) :
    (tree.mapCells f).get? path = (tree.get? path).map (mapCells f) := by
  induction path generalizing tree with
  | nil => rfl
  | cons step rest ih =>
    rw [get?_cons, get?_cons, child?_mapCells]
    cases tree.child? step with
    | none => rfl
    | some child => exact ih child

theorem get?_blank (tree : Tree) (path : DocPath) :
    tree.blank.get? path = (tree.get? path).map blank := by
  rw [funext blank_eq_mapCells, get?_mapCells]

theorem get?_ofValue (value : Value) (path : DocPath) :
    (ofValue value).get? path = (value.get? path).map ofValue := by
  induction path generalizing value with
  | nil => rfl
  | cons step rest ih =>
    change _ = ((value.child? step).bind (·.get? rest)).map ofValue
    rw [get?_cons, child?_ofValue]
    cases value.child? step with
    | none => rfl
    | some child => exact ih child

/-- A tree of the shape of a document has nodes of the shape of the document's parts. -/
theorem get?_of_shape {tree : Tree} {document : Value} (shape : tree.blank = ofValue document)
    (path : DocPath) : (tree.get? path).map blank = (document.get? path).map ofValue := by
  rw [← get?_blank, shape, get?_ofValue]

theorem cell?_cons (tree : Tree) (step : Step) (rest : DocPath) :
    tree.cell? (step :: rest) = (tree.child? step).bind (·.cell? rest) := by
  rw [cell?, get?_cons]
  cases tree.child? step <;> rfl

theorem cell?_mapCells (f : Cell → Cell) (tree : Tree) (path : DocPath) :
    (tree.mapCells f).cell? path = (tree.cell? path).map f := by
  rw [cell?, cell?, get?_mapCells]
  rcases tree.get? path with _ | ⟨_⟩ | ⟨_⟩ | ⟨_⟩ | ⟨_⟩ <;> rfl

theorem cell?_blank (tree : Tree) (path : DocPath) :
    tree.blank.cell? path = (tree.cell? path).map fun cell => ⟨cell.source, .unresolved⟩ := by
  rw [blank_eq_mapCells, cell?_mapCells]

theorem cell?_eq_some_iff {tree : Tree} {path : DocPath} {cell : Cell} :
    tree.cell? path = some cell ↔ tree.get? path = some (formula cell) := by
  rw [cell?]
  rcases tree.get? path with _ | ⟨_⟩ | ⟨_⟩ | ⟨_⟩ | ⟨_⟩ <;> simp

/-- The cells of a tree are the formulas of its document, with their texts. -/
theorem source_of_shape {tree : Tree} {document : Value} (shape : tree.blank = ofValue document)
    {path : DocPath} {cell : Cell} (h : tree.cell? path = some cell) :
    document.get? path = some (.formula cell.source) := by
  have node := get?_of_shape shape path
  rw [cell?_eq_some_iff.mp h] at node
  obtain ⟨value, found, same⟩ := Option.map_eq_some_iff.mp node.symm
  cases value <;> simp_all [blank, ofValue]

theorem cell?_of_shape {tree : Tree} {document : Value} (shape : tree.blank = ofValue document)
    {path : DocPath} {source : String} (h : document.get? path = some (.formula source)) :
    ∃ state, tree.cell? path = some ⟨source, state⟩ := by
  have node := get?_of_shape shape path
  rw [h] at node
  obtain ⟨found, here, same⟩ := Option.map_eq_some_iff.mp node
  cases found with
  | formula cell =>
    simp only [blank, ofValue, formula.injEq, Cell.mk.injEq, and_true] at same
    exact ⟨cell.state, cell?_eq_some_iff.mpr (by rw [here, ← same])⟩
  | _ => simp [blank, ofValue] at same

/-! ## Setting states -/

theorem child?_modifyChild (f : Tree → Tree) (tree : Tree) (step other : Step) :
    (modifyChild f tree step).child? other =
      if step = other then (tree.child? other).map f else tree.child? other := by
  cases tree with
  | scalar _ | formula _ => cases step <;> cases other <;> exact (ite_self _).symm
  | array items =>
    cases step with
    | key _ =>
      cases other with
      | key _ => exact (ite_self _).symm
      | index _ => exact (if_neg nofun).symm
    | index position =>
      cases other with
      | key _ => exact (if_neg nofun).symm
      | index i =>
        change (items.modify position f)[i]? = _
        rw [List.getElem?_modify, child?_index]
        by_cases same : position = i <;> simp [same]
  | object members =>
    cases step with
    | key name =>
      cases other with
      | key key =>
        change (modifyMember name f members).lookup key = _
        rw [lookup_modifyMember, child?_key]
        by_cases same : name = key <;> simp [same]
      | index _ => exact (if_neg nofun).symm
    | index _ =>
      cases other with
      | key _ => exact (if_neg nofun).symm
      | index _ => exact (ite_self _).symm

/-- Setting a state changes that cell and no other. -/
theorem cell?_setState (tree : Tree) (path other : DocPath) (state : CellState) :
    (tree.setState path state).cell? other =
      if path = other then (tree.cell? other).map fun cell => { cell with state := state }
      else tree.cell? other := by
  induction path generalizing tree other with
  | nil =>
    change (withState state tree).cell? other = _
    cases other with
    | nil => cases tree <;> rfl
    | cons step rest =>
      rw [if_neg nofun]
      cases tree <;> cases step <;> rfl
  | cons first path ih =>
    rw [setState, modify]
    cases other with
    | nil =>
      rw [if_neg nofun]
      cases tree <;> cases first <;> rfl
    | cons step rest =>
      rw [cell?_cons, cell?_cons, child?_modifyChild]
      by_cases same : first = step
      · subst same
        cases tree.child? first with
        | none => simp
        | some child =>
          simpa [setState] using ih child rest
      · simp [same]

theorem blank_withState (state : CellState) (tree : Tree) :
    (withState state tree).blank = tree.blank := by
  cases tree <;> rfl

theorem blank_modifyChild {f : Tree → Tree} (keeps : ∀ tree, (f tree).blank = tree.blank)
    (tree : Tree) (step : Step) : (modifyChild f tree step).blank = tree.blank := by
  have turns : ∀ tree, (f tree).blank = id tree.blank := keeps
  cases tree with
  | scalar _ | formula _ => cases step <;> rfl
  | array items =>
    cases step with
    | key _ => rfl
    | index position => simp [modifyChild, blank, blankItems_eq_map, map_modify turns]
  | object members =>
    cases step with
    | key name =>
      simp [modifyChild, blank, blankMembers_eq_map, map_modifyMember turns, modifyMember_id]
    | index _ => rfl

/-- Setting a state keeps the shape. -/
@[simp] theorem blank_setState (tree : Tree) (path : DocPath) (state : CellState) :
    (tree.setState path state).blank = tree.blank := by
  rw [setState]
  induction path generalizing tree with
  | nil => exact blank_withState state tree
  | cons step rest ih => exact blank_modifyChild (fun child => ih child) tree step

end Tree

end FormulaDoc
