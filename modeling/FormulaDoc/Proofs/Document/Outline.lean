import FormulaDoc.Proofs.Document.Content

/-!
# The outline of a document

What a document is apart from the texts of its formulas: where its formulas are, its containers, keys
and scalars. A formula may get another text, which keeps the outline and every other formula.
-/
namespace FormulaDoc

namespace Value

mutual

/-- A document with all texts of formulas left out. -/
def outline : Value → Value
  | array items => array (outlineItems items)
  | object members => object (outlineMembers members)
  | formula _ => formula ""
  | value => value

def outlineItems : List Value → List Value
  | [] => []
  | item :: rest => item.outline :: outlineItems rest

def outlineMembers : List (String × Value) → List (String × Value)
  | [] => []
  | (key, value) :: rest => (key, value.outline) :: outlineMembers rest

end

theorem outlineItems_eq_map (items : List Value) : outlineItems items = items.map outline := by
  induction items with
  | nil => rfl
  | cons item rest ih => rw [outlineItems, ih, List.map_cons]

theorem outlineMembers_eq_map (members : List (String × Value)) :
    outlineMembers members = members.map fun m => (m.1, m.2.outline) := by
  induction members with
  | nil => rfl
  | cons m rest ih => rw [outlineMembers, ih, List.map_cons]

theorem child?_outline (value : Value) (step : Step) :
    value.outline.child? step = (value.child? step).map outline := by
  cases value <;> cases step <;>
    simp [outline, child?, outlineItems_eq_map, outlineMembers_eq_map, lookup_map_values]

theorem get?_outline (value : Value) (path : DocPath) :
    value.outline.get? path = (value.get? path).map outline := by
  induction path generalizing value with
  | nil => rfl
  | cons step rest ih =>
    simp only [get?, child?_outline]
    cases value.child? step with
    | none => rfl
    | some child => exact ih child

mutual

theorem wellFormed_outline (value : Value) : value.outline.WellFormed ↔ value.WellFormed := by
  match value with
  | null | bool _ | number _ | string _ | formula _ => rfl
  | array items => exact itemsWellFormed_outline items
  | object members =>
    have keys : (outlineMembers members).map Prod.fst = members.map Prod.fst := by
      rw [outlineMembers_eq_map, List.map_map]
      rfl
    rw [outline, WellFormed, WellFormed, keys, membersWellFormed_outline members]

theorem itemsWellFormed_outline (items : List Value) :
    ItemsWellFormed (outlineItems items) ↔ ItemsWellFormed items := by
  match items with
  | [] => rfl
  | item :: rest =>
    rw [outlineItems, ItemsWellFormed, ItemsWellFormed, wellFormed_outline item,
      itemsWellFormed_outline rest]

theorem membersWellFormed_outline (members : List (String × Value)) :
    MembersWellFormed (outlineMembers members) ↔ MembersWellFormed members := by
  match members with
  | [] => rfl
  | (_, value) :: rest =>
    rw [outlineMembers, MembersWellFormed, MembersWellFormed, wellFormed_outline value,
      membersWellFormed_outline rest]

end

/-! ## Other texts -/

/-- The text of the formula at a path, if there is one. -/
def source? (value : Value) (path : DocPath) : Option String :=
  match value.get? path with
  | some (formula source) => some source
  | _ => none

/-- Gives the formula at a path another text. -/
def reword (text : String) : DocPath → Value → Value
  | [], formula _ => formula text
  | .key name :: rest, object members => object (modifyMember name (reword text rest) members)
  | .index position :: rest, array items => array (items.modify position (reword text rest))
  | _, value => value

theorem source?_cons (value : Value) (step : Step) (rest : DocPath) :
    value.source? (step :: rest) = (value.child? step).bind (·.source? rest) := by
  simp only [source?, get?]
  cases value.child? step <;> rfl

theorem outline_reword (text : String) (path : DocPath) (value : Value) :
    (value.reword text path).outline = value.outline := by
  induction path generalizing value with
  | nil => cases value <;> rfl
  | cons step rest ih =>
    have turns : ∀ value, (reword text rest value).outline = id value.outline := ih
    cases value with
    | array items =>
      cases step with
      | key _ => rfl
      | index position => simp [reword, outline, outlineItems_eq_map, map_modify turns]
    | object members =>
      cases step with
      | key name =>
        simp [reword, outline, outlineMembers_eq_map, map_modifyMember turns, modifyMember_id]
      | index _ => rfl
    | _ => cases step <;> rfl

theorem child?_reword (text : String) (step other : Step) (rest : DocPath) (value : Value) :
    (value.reword text (step :: rest)).child? other =
      if step = other then (value.child? other).map (reword text rest) else value.child? other := by
  cases value with
  | array items =>
    cases step <;> cases other <;> simp [reword, child?, List.getElem?_modify]
    split <;> simp [*]
  | object members =>
    cases step <;> cases other <;> simp [reword, child?, lookup_modifyMember]
  | _ => cases step <;> cases other <;> simp [reword, child?]

/-- Another text for a formula changes that text and no other. -/
theorem source?_reword (text : String) (path other : DocPath) (value : Value) :
    (value.reword text path).source? other =
      if path = other then (value.source? other).map fun _ => text else value.source? other := by
  induction path generalizing value other with
  | nil =>
    cases other with
    | nil => cases value <;> rfl
    | cons step rest => cases value <;> rfl
  | cons step path ih =>
    cases other with
    | nil =>
      rw [if_neg (List.cons_ne_nil _ _)]
      cases value <;> cases step <;> rfl
    | cons first rest =>
      rw [source?_cons, source?_cons, child?_reword]
      by_cases same : step = first
      · subst same
        rw [if_pos rfl]
        cases value.child? step with
        | none => simp
        | some child =>
          simp only [Option.map_some, Option.bind_some, ih, List.cons.injEq, true_and]
      · simp [same]

end Value

namespace Tree

/-! ## Outlines of working trees -/

/-- A working tree with all texts of formulas left out. -/
def outline (tree : Tree) : Tree := tree.mapCells fun cell => ⟨"", cell.state⟩

theorem cell?_ofValue (value : Value) (path : DocPath) :
    (ofValue value).cell? path = (value.source? path).map fun source => ⟨source, .unresolved⟩ := by
  simp only [cell?, Value.source?, get?_ofValue]
  rcases value.get? path with _ | value
  · rfl
  · cases value <;> rfl

theorem cellsWithin_outline (test : CellState → Bool) (tree : Tree) (path : DocPath) :
    tree.outline.cellsWithin test path = tree.cellsWithin test path := by
  apply cellsWithin_mapCells
  exact fun _ => rfl

mutual

theorem outline_ofValue (value : Value) : (ofValue value).outline = ofValue value.outline := by
  match value with
  | .null | .bool _ | .number _ | .string _ | .formula _ => rfl
  | .array items => exact congrArg array (outlineItems_ofItems items)
  | .object members => exact congrArg object (outlineMembers_ofMembers members)

theorem outlineItems_ofItems (items : List Value) :
    mapItemCells (fun cell => ⟨"", cell.state⟩) (ofItems items) =
      ofItems (Value.outlineItems items) := by
  match items with
  | [] => rfl
  | item :: rest =>
    rw [ofItems, mapItemCells, Value.outlineItems, ofItems, outlineItems_ofItems rest,
      ← outline_ofValue item, outline]

theorem outlineMembers_ofMembers (members : List (String × Value)) :
    mapMemberCells (fun cell => ⟨"", cell.state⟩) (ofMembers members) =
      ofMembers (Value.outlineMembers members) := by
  match members with
  | [] => rfl
  | (key, value) :: rest =>
    rw [ofMembers, mapMemberCells, Value.outlineMembers, ofMembers, outlineMembers_ofMembers rest,
      ← outline_ofValue value, outline]

end

section Values

variable {f : Cell → Cell}

mutual

/-- The value of a tree depends on the states of its cells alone. -/
theorem toValue?_mapCells (keeps : ∀ cell, (f cell).state = cell.state) (tree : Tree) :
    (tree.mapCells f).toValue? = tree.toValue? := by
  match tree with
  | scalar _ => rfl
  | array items => rw [mapCells, toValue?, toValue?, itemValues?_mapItemCells keeps items]
  | object members =>
    rw [mapCells, toValue?, toValue?, memberValues?_mapMemberCells keeps members]
  | formula cell =>
    have state := keeps cell
    obtain ⟨source, before⟩ := cell
    rcases after : f ⟨source, before⟩ with ⟨source', state'⟩
    rw [after] at state
    rw [mapCells, after]
    cases state
    cases before <;> rfl

theorem itemValues?_mapItemCells (keeps : ∀ cell, (f cell).state = cell.state)
    (items : List Tree) : itemValues? (mapItemCells f items) = itemValues? items := by
  match items with
  | [] => rfl
  | item :: rest =>
    rw [mapItemCells, itemValues?, itemValues?, toValue?_mapCells keeps item,
      itemValues?_mapItemCells keeps rest]

theorem memberValues?_mapMemberCells (keeps : ∀ cell, (f cell).state = cell.state)
    (members : List (String × Tree)) :
    memberValues? (mapMemberCells f members) = memberValues? members := by
  match members with
  | [] => rfl
  | (key, tree) :: rest =>
    rw [mapMemberCells, memberValues?, memberValues?, toValue?_mapCells keeps tree,
      memberValues?_mapMemberCells keeps rest]

end

end Values

/-- A change inside a tree that changing the cells turns into another change. -/
theorem mapCells_modifyChild {f : Cell → Cell} {g g' : Tree → Tree}
    (turns : ∀ tree, (g tree).mapCells f = g' (tree.mapCells f)) (tree : Tree) (step : Step) :
    (modifyChild g tree step).mapCells f = modifyChild g' (tree.mapCells f) step := by
  cases tree with
  | scalar _ | formula _ => cases step <;> rfl
  | array items =>
    cases step with
    | key _ => rfl
    | index position => simp [modifyChild, mapCells, mapItemCells_eq_map, map_modify turns]
  | object members =>
    cases step with
    | key name => simp [modifyChild, mapCells, mapMemberCells_eq_map, map_modifyMember turns]
    | index _ => rfl

theorem outline_setState (tree : Tree) (path : DocPath) (state : CellState) :
    (tree.setState path state).outline = tree.outline.setState path state := by
  rw [setState, setState]
  induction path generalizing tree with
  | nil => cases tree <;> rfl
  | cons step rest ih => exact mapCells_modifyChild (fun child => ih child) tree step

end Tree

end FormulaDoc
