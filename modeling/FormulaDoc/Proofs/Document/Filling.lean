import FormulaDoc.Proofs.Document.Content

/-!
# Values for the formulas of a document

A document without formulas comes from one with formulas by putting a value in the place of each. The
value of a working tree is its document with the values of the cells put in, once all cells have one;
and a part of a document can be filled in as soon as the formulas inside it have values.
-/
namespace FormulaDoc

namespace Value

mutual

/-- A value at a path with every formula replaced by a value that its own path stands for. -/
def replaceFormulas (values : DocPath → Value) (path : DocPath) : Value → Value
  | array items => array (replaceInItems values path 0 items)
  | object members => object (replaceInMembers values path members)
  | formula _ => values path
  | value => value

def replaceInItems (values : DocPath → Value) (path : DocPath) (position : Nat) :
    List Value → List Value
  | [] => []
  | item :: rest =>
    item.replaceFormulas values (path.index position) ::
      replaceInItems values path (position + 1) rest

def replaceInMembers (values : DocPath → Value) (path : DocPath) :
    List (String × Value) → List (String × Value)
  | [] => []
  | (key, value) :: rest =>
    (key, value.replaceFormulas values (path.key key)) :: replaceInMembers values path rest

end

end Value

namespace Tree

variable {values : DocPath → Value}

mutual

/-- The value of a tree whose cells are all resolved is its document with the formulas replaced. -/
theorem AllCells.toValue?_eq {value : Value} {tree : Tree} {path : DocPath}
    (shape : tree.blank = ofValue value)
    (all : tree.AllCells (fun path cell => cell.state = .resolved (values path)) path) :
    tree.toValue? = some (value.replaceFormulas values path) := by
  match value, tree with
  | .array items, array trees =>
    simp only [blank, ofValue, array.injEq] at shape
    rw [toValue?, AllItemCells.itemValues?_eq shape (show AllItemCells _ path 0 trees from all),
      Option.map_some,
      Value.replaceFormulas]
  | .object members, object trees =>
    simp only [blank, ofValue, object.injEq] at shape
    rw [toValue?, AllMemberCells.memberValues?_eq shape (show AllMemberCells _ path trees from all),
      Option.map_some,
      Value.replaceFormulas]
  | .formula _, formula ⟨_, state⟩ =>
    have resolved : state = .resolved (values path) := all
    subst resolved
    rfl
  | .null, scalar _ | .bool _, scalar _ | .number _, scalar _ | .string _, scalar _ =>
    simp only [blank, ofValue, scalar.injEq] at shape
    subst shape
    rfl
  | .array _, scalar _ | .array _, object _ | .array _, formula _
  | .object _, scalar _ | .object _, array _ | .object _, formula _
  | .formula _, scalar _ | .formula _, array _ | .formula _, object _
  | .null, array _ | .null, object _ | .null, formula _
  | .bool _, array _ | .bool _, object _ | .bool _, formula _
  | .number _, array _ | .number _, object _ | .number _, formula _
  | .string _, array _ | .string _, object _ | .string _, formula _ =>
    simp [blank, ofValue] at shape

theorem AllItemCells.itemValues?_eq {items : List Value} {trees : List Tree} {path : DocPath}
    {position : Nat} (shape : blankItems trees = ofItems items)
    (all : AllItemCells (fun path cell => cell.state = .resolved (values path)) path position
      trees) :
    itemValues? trees = some (Value.replaceInItems values path position items) := by
  match items, trees with
  | [], [] => rfl
  | item :: rest, tree :: trees =>
    simp only [blankItems, ofItems, List.cons.injEq] at shape
    rw [itemValues?, AllCells.toValue?_eq shape.1 all.1,
      AllItemCells.itemValues?_eq shape.2 all.2]
    rfl
  | [], _ :: _ | _ :: _, [] => simp [blankItems, ofItems] at shape

theorem AllMemberCells.memberValues?_eq {members : List (String × Value)}
    {trees : List (String × Tree)} {path : DocPath}
    (shape : blankMembers trees = ofMembers members)
    (all : AllMemberCells (fun path cell => cell.state = .resolved (values path)) path trees) :
    memberValues? trees = some (Value.replaceInMembers values path members) := by
  match members, trees with
  | [], [] => rfl
  | (key, value) :: rest, (name, tree) :: trees =>
    simp only [blankMembers, ofMembers, List.cons.injEq, Prod.mk.injEq] at shape
    obtain ⟨⟨rfl, here⟩, later⟩ := shape
    rw [memberValues?, AllCells.toValue?_eq here all.1,
      AllMemberCells.memberValues?_eq later all.2]
    rfl
  | [], _ :: _ | _ :: _, [] => simp [blankMembers, ofMembers] at shape

end

mutual

/-- Nulls stand only for formulas without a value. -/
theorem toValue_of_toValue? {tree : Tree} {value : Value} (h : tree.toValue? = some value) :
    tree.toValue = value := by
  match tree with
  | scalar _ => exact Option.some.inj h
  | array items =>
    obtain ⟨found, here, rfl⟩ := Option.map_eq_some_iff.mp h
    rw [toValue, itemValues_of_itemValues? here]
  | object members =>
    obtain ⟨found, here, rfl⟩ := Option.map_eq_some_iff.mp h
    rw [toValue, memberValues_of_memberValues? here]
  | formula ⟨_, .resolved _⟩ => exact Option.some.inj h
  | formula ⟨_, .unresolved⟩ | formula ⟨_, .inProgress⟩ | formula ⟨_, .failed _⟩ =>
    simp [toValue?] at h

theorem itemValues_of_itemValues? {items : List Tree} {values : List Value}
    (h : itemValues? items = some values) : itemValues items = values := by
  match items with
  | [] => exact Option.some.inj h
  | item :: rest =>
    obtain ⟨value, here, later⟩ := Option.bind_eq_some_iff.mp h
    obtain ⟨others, found, rfl⟩ := Option.map_eq_some_iff.mp later
    rw [itemValues, toValue_of_toValue? here, itemValues_of_itemValues? found]

theorem memberValues_of_memberValues? {members : List (String × Tree)}
    {values : List (String × Value)} (h : memberValues? members = some values) :
    memberValues members = values := by
  match members with
  | [] => exact Option.some.inj h
  | (key, tree) :: rest =>
    obtain ⟨value, here, later⟩ := Option.bind_eq_some_iff.mp h
    obtain ⟨others, found, rfl⟩ := Option.map_eq_some_iff.mp later
    rw [memberValues, toValue_of_toValue? here, memberValues_of_memberValues? found]

end

/-- The items of a value are the values of the items. -/
theorem map_toValue?_of_itemValues? {items : List Tree} {values : List Value}
    (h : itemValues? items = some values) : items.map toValue? = values.map some := by
  induction items generalizing values with
  | nil =>
    cases h
    rfl
  | cons first rest ih =>
    obtain ⟨value, found, later⟩ := Option.bind_eq_some_iff.mp h
    obtain ⟨others, more, rfl⟩ := Option.map_eq_some_iff.mp later
    rw [List.map_cons, List.map_cons, found, ih more]

/-- The members of a value are the values of the members. -/
theorem map_toValue?_of_memberValues? {members : List (String × Tree)}
    {values : List (String × Value)} (h : memberValues? members = some values) :
    (members.map fun m => (m.1, m.2.toValue?)) = values.map fun m => (m.1, some m.2) := by
  induction members generalizing values with
  | nil =>
    cases h
    rfl
  | cons first rest ih =>
    obtain ⟨value, found, later⟩ := Option.bind_eq_some_iff.mp h
    obtain ⟨others, more, rfl⟩ := Option.map_eq_some_iff.mp later
    rw [List.map_cons, List.map_cons, found, ih more]

theorem length_itemValues? {items : List Tree} {values : List Value}
    (h : itemValues? items = some values) : values.length = items.length := by
  simpa using (congrArg List.length (map_toValue?_of_itemValues? h)).symm

theorem lookup_memberValues? {members : List (String × Tree)} {values : List (String × Value)}
    (h : memberValues? members = some values) (key : String) :
    (members.lookup key).map toValue? = (values.lookup key).map some := by
  rw [← lookup_map_values, ← lookup_map_values, map_toValue?_of_memberValues? h]

theorem exists_toValue?_of_getElem? {items : List Tree} {values : List Value}
    (h : itemValues? items = some values) {position : Nat} {item : Tree}
    (here : items[position]? = some item) :
    ∃ value, item.toValue? = some value ∧ values[position]? = some value := by
  have same := congrArg (·[position]?) (map_toValue?_of_itemValues? h)
  simp only [List.getElem?_map, here, Option.map_some] at same
  obtain ⟨value, found, known⟩ := Option.map_eq_some_iff.mp same.symm
  exact ⟨value, known.symm, found⟩

theorem exists_toValue?_of_lookup {members : List (String × Tree)}
    {values : List (String × Value)} (h : memberValues? members = some values) {key : String}
    {member : Tree} (here : members.lookup key = some member) :
    ∃ value, member.toValue? = some value ∧ values.lookup key = some value := by
  have same := lookup_memberValues? h key
  rw [here, Option.map_some] at same
  obtain ⟨value, found, known⟩ := Option.map_eq_some_iff.mp same.symm
  exact ⟨value, known.symm, found⟩

/-- A tree has a value only if everything inside it has. -/
theorem exists_toValue?_of_get? {tree part : Tree} {value : Value} (h : tree.toValue? = some value)
    {path : DocPath} (here : tree.get? path = some part) : ∃ found, part.toValue? = some found := by
  induction path generalizing tree value with
  | nil =>
    cases here
    exact ⟨value, h⟩
  | cons step path ih =>
    obtain ⟨child, first, later⟩ := Option.bind_eq_some_iff.mp here
    cases tree with
    | scalar _ => cases step <;> cases first
    | formula _ => cases step <;> cases first
    | array items =>
      obtain ⟨values, all, _⟩ := Option.map_eq_some_iff.mp h
      cases step with
      | key _ => cases first
      | index position =>
        obtain ⟨found, known, _⟩ := exists_toValue?_of_getElem? all first
        exact ih known later
    | object members =>
      obtain ⟨values, all, _⟩ := Option.map_eq_some_iff.mp h
      cases step with
      | index _ => cases first
      | key name =>
        obtain ⟨found, known, _⟩ := exists_toValue?_of_lookup all first
        exact ih known later

mutual

/-- A tree has a value exactly if no formula in it is without one. -/
theorem pending_eq_nil_iff (tree : Tree) (path : DocPath) :
    tree.pending path = [] ↔ tree.toValue?.isSome := by
  match tree with
  | scalar _ => exact ⟨fun _ => rfl, fun _ => rfl⟩
  | array items =>
    rw [toValue?, Option.isSome_map]
    exact itemPending_eq_nil_iff items path 0
  | object members =>
    rw [toValue?, Option.isSome_map]
    exact memberPending_eq_nil_iff members path
  | formula ⟨_, state⟩ => cases state <;> simp [pending, cellPaths, toValue?, CellState.isResolved]

theorem itemPending_eq_nil_iff (items : List Tree) (path : DocPath) (position : Nat) :
    itemCellPaths (fun state => !state.isResolved) path position items = [] ↔
      (itemValues? items).isSome := by
  match items with
  | [] => exact ⟨fun _ => rfl, fun _ => rfl⟩
  | item :: rest =>
    have first := pending_eq_nil_iff item (path.index position)
    have later := itemPending_eq_nil_iff rest path (position + 1)
    rw [pending] at first
    rw [itemCellPaths, List.append_eq_nil_iff, first, later, itemValues?]
    cases item.toValue? <;> simp

theorem memberPending_eq_nil_iff (members : List (String × Tree)) (path : DocPath) :
    memberCellPaths (fun state => !state.isResolved) path members = [] ↔
      (memberValues? members).isSome := by
  match members with
  | [] => exact ⟨fun _ => rfl, fun _ => rfl⟩
  | (key, tree) :: rest =>
    have first := pending_eq_nil_iff tree (path.key key)
    have later := memberPending_eq_nil_iff rest path
    rw [pending] at first
    rw [memberCellPaths, List.append_eq_nil_iff, first, later, memberValues?]
    cases tree.toValue? <;> simp

end

end Tree

/-! ## Documents with their formulas filled in -/

namespace Value

mutual

/-- A value at a path with every formula replaced by the value that is known for its own path, if
there is one for each. -/
def fill? (known : DocPath → Option Value) (path : DocPath) : Value → Option Value
  | array items => (fillItems? known path 0 items).map .array
  | object members => (fillMembers? known path members).map .object
  | formula _ => known path
  | value => some value

def fillItems? (known : DocPath → Option Value) (path : DocPath) (position : Nat) :
    List Value → Option (List Value)
  | [] => some []
  | item :: rest =>
    (item.fill? known (path.index position)).bind fun value =>
      (fillItems? known path (position + 1) rest).map (value :: ·)

def fillMembers? (known : DocPath → Option Value) (path : DocPath) :
    List (String × Value) → Option (List (String × Value))
  | [] => some []
  | (key, value) :: rest =>
    (value.fill? known (path.key key)).bind fun filled =>
      (fillMembers? known path rest).map ((key, filled) :: ·)

end

def formulasWithin (document : Value) (path : DocPath) : List DocPath :=
  (Tree.ofValue document).cellsWithin (fun _ => true) path

theorem mem_formulasWithin_iff {document : Value} (wellFormed : document.WellFormed)
    {path found : DocPath} :
    found ∈ document.formulasWithin path ↔
      path <+: found ∧ ∃ source, document.get? found = some (.formula source) := by
  have shape := Tree.blank_ofValue document
  refine (Tree.mem_cellsWithin_iff (Tree.keyed_ofValue wellFormed)).trans (and_congr_right ?_)
  intro _
  constructor
  · rintro ⟨cell, here, _⟩
    exact ⟨cell.source, Tree.source_of_shape shape here⟩
  · rintro ⟨source, here⟩
    obtain ⟨state, cell⟩ := Tree.cell?_of_shape shape here
    exact ⟨_, cell, rfl⟩

end Value

namespace Tree

variable {known : DocPath → Option Value} {values : DocPath → Value}

mutual

theorem AllCells.fill?_eq {value : Value} {path : DocPath}
    (all : (ofValue value).AllCells (fun path _ => known path = some (values path)) path) :
    value.fill? known path = some (value.replaceFormulas values path) := by
  match value with
  | .null | .bool _ | .number _ | .string _ => rfl
  | .formula _ => exact all
  | .array items =>
    rw [Value.fill?, AllItemCells.fillItems?_eq (show AllItemCells _ path 0 (ofItems items) from all)]
    rfl
  | .object members =>
    rw [Value.fill?,
      AllMemberCells.fillMembers?_eq (show AllMemberCells _ path (ofMembers members) from all)]
    rfl

theorem AllItemCells.fillItems?_eq {items : List Value} {path : DocPath} {position : Nat}
    (all : AllItemCells (fun path _ => known path = some (values path)) path position
      (ofItems items)) :
    Value.fillItems? known path position items =
      some (Value.replaceInItems values path position items) := by
  match items with
  | [] => rfl
  | item :: rest =>
    rw [Value.fillItems?, AllCells.fill?_eq all.1, AllItemCells.fillItems?_eq all.2]
    rfl

theorem AllMemberCells.fillMembers?_eq {members : List (String × Value)} {path : DocPath}
    (all : AllMemberCells (fun path _ => known path = some (values path)) path
      (ofMembers members)) :
    Value.fillMembers? known path members = some (Value.replaceInMembers values path members) := by
  match members with
  | [] => rfl
  | (key, value) :: rest =>
    rw [Value.fillMembers?, AllCells.fill?_eq all.1, AllMemberCells.fillMembers?_eq all.2]
    rfl

end

mutual

theorem allCells_of_fill? {value filled : Value} {path : DocPath}
    (h : value.fill? known path = some filled) :
    (ofValue value).AllCells (fun path _ => ∃ found, known path = some found) path := by
  match value with
  | .null | .bool _ | .number _ | .string _ => trivial
  | .formula _ => exact ⟨filled, h⟩
  | .array items =>
    obtain ⟨found, here, _⟩ := Option.map_eq_some_iff.mp h
    exact allItemCells_of_fillItems? here
  | .object members =>
    obtain ⟨found, here, _⟩ := Option.map_eq_some_iff.mp h
    exact allMemberCells_of_fillMembers? here

theorem allItemCells_of_fillItems? {items filled : List Value} {path : DocPath} {position : Nat}
    (h : Value.fillItems? known path position items = some filled) :
    AllItemCells (fun path _ => ∃ found, known path = some found) path position
      (ofItems items) := by
  match items with
  | [] => trivial
  | item :: rest =>
    obtain ⟨value, here, later⟩ := Option.bind_eq_some_iff.mp h
    obtain ⟨others, found, _⟩ := Option.map_eq_some_iff.mp later
    exact ⟨allCells_of_fill? here, allItemCells_of_fillItems? found⟩

theorem allMemberCells_of_fillMembers? {members filled : List (String × Value)} {path : DocPath}
    (h : Value.fillMembers? known path members = some filled) :
    AllMemberCells (fun path _ => ∃ found, known path = some found) path
      (ofMembers members) := by
  match members with
  | [] => trivial
  | (key, value) :: rest =>
    obtain ⟨value, here, later⟩ := Option.bind_eq_some_iff.mp h
    obtain ⟨others, found, _⟩ := Option.map_eq_some_iff.mp later
    exact ⟨allCells_of_fill? here, allMemberCells_of_fillMembers? found⟩

end

end Tree

namespace Value

section Growing

variable {known known' : DocPath → Option Value}

mutual

/-- What is filled in stays so when more values are known. -/
theorem fill?_mono (more : ∀ path value, known path = some value → known' path = some value)
    {value filled : Value} {path : DocPath}
    (h : value.fill? known path = some filled) : value.fill? known' path = some filled := by
  match value with
  | null | bool _ | number _ | string _ => exact h
  | formula _ => exact more path filled h
  | array items =>
    obtain ⟨found, here, rfl⟩ := Option.map_eq_some_iff.mp h
    rw [fill?, fillItems?_mono more here, Option.map_some]
  | object members =>
    obtain ⟨found, here, rfl⟩ := Option.map_eq_some_iff.mp h
    rw [fill?, fillMembers?_mono more here, Option.map_some]

theorem fillItems?_mono (more : ∀ path value, known path = some value → known' path = some value)
    {items filled : List Value} {path : DocPath} {position : Nat}
    (h : fillItems? known path position items = some filled) :
    fillItems? known' path position items = some filled := by
  match items with
  | [] => exact h
  | item :: rest =>
    obtain ⟨value, here, later⟩ := Option.bind_eq_some_iff.mp h
    obtain ⟨others, found, rfl⟩ := Option.map_eq_some_iff.mp later
    rw [fillItems?, fill?_mono more here, Option.bind_some, fillItems?_mono more found, Option.map_some]

theorem fillMembers?_mono (more : ∀ path value, known path = some value → known' path = some value)
    {members filled : List (String × Value)} {path : DocPath}
    (h : fillMembers? known path members = some filled) :
    fillMembers? known' path members = some filled := by
  match members with
  | [] => exact h
  | (key, value) :: rest =>
    obtain ⟨value', here, later⟩ := Option.bind_eq_some_iff.mp h
    obtain ⟨others, found, rfl⟩ := Option.map_eq_some_iff.mp later
    rw [fillMembers?, fill?_mono more here, Option.bind_some, fillMembers?_mono more found,
      Option.map_some]

end

end Growing

variable {document part : Value} {path : DocPath}

/-- A part whose formulas all have a value is filled in by replacing them. -/
theorem fill?_eq_of_known (wellFormed : document.WellFormed) (here : document.get? path = some part)
    {known : DocPath → Option Value} {values : DocPath → Value}
    (all : ∀ found ∈ document.formulasWithin path, known found = some (values found)) :
    part.fill? known path = some (part.replaceFormulas values path) := by
  apply Tree.AllCells.fill?_eq
  refine Tree.allCells_part (Tree.keyed_ofValue wellFormed) (by rw [Tree.get?_ofValue, here]; rfl) ?_
  intro found cell inside there
  exact all found ((mem_formulasWithin_iff wellFormed).mpr
    ⟨inside, cell.source, Tree.source_of_shape (Tree.blank_ofValue document) there⟩)

/-- All formulas of a part that is filled in have a value. -/
theorem known_of_fill? (here : document.get? path = some part) {known : DocPath → Option Value}
    {filled : Value} (h : part.fill? known path = some filled) :
    ∀ found ∈ document.formulasWithin path, ∃ value, known found = some value := by
  intro found mem
  rw [formulasWithin, Tree.cellsWithin, Tree.get?_ofValue, here] at mem
  obtain ⟨_, known, _⟩ := (Tree.allCells_of_fill? h).exists_of_mem mem
  exact known

end Value

end FormulaDoc
