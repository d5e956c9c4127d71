import FormulaDoc.Evaluation.Navigation
import FormulaDoc.Proofs.Document.Filling

/-!
# Values without formulas

Pieces of a value without formulas have none, and a document whose formulas are replaced by such values
has none left.
-/
namespace FormulaDoc

theorem mem_of_lookup {α : Type} {members : List (String × α)} {key : String} {member : α}
    (h : members.lookup key = some member) : (key, member) ∈ members := by
  obtain ⟨before, after, rfl, _⟩ := List.lookup_eq_some_iff.mp h
  simp

namespace Value

theorem containsFormula_of_isScalar {value : Value} (h : value.isScalar) :
    value.containsFormula = false := by
  cases value with
  | array _ | object _ | formula _ => cases h
  | _ => rfl

theorem itemsContainFormula_eq_false_iff {items : List Value} :
    itemsContainFormula items = false ↔ ∀ item ∈ items, item.containsFormula = false := by
  induction items with
  | nil => exact ⟨fun _ _ mem => absurd mem List.not_mem_nil, fun _ => rfl⟩
  | cons item rest ih =>
    rw [List.forall_mem_cons, ← ih]
    exact Bool.or_eq_false_iff

theorem membersContainFormula_eq_false_iff {members : List (String × Value)} :
    membersContainFormula members = false ↔ ∀ m ∈ members, m.2.containsFormula = false := by
  induction members with
  | nil => exact ⟨fun _ _ mem => absurd mem List.not_mem_nil, fun _ => rfl⟩
  | cons member rest ih =>
    rw [List.forall_mem_cons, ← ih]
    exact Bool.or_eq_false_iff

/-- What a field gives is a member. -/
theorem exists_member_of_field {value member : Value} {key : String}
    (h : value.field key = .ok member) : ∃ members, value = object members ∧ (key, member) ∈ members := by
  cases value with
  | object members =>
    rw [field] at h
    split at h <;> cases h
    rename_i here
    exact ⟨members, rfl, mem_of_lookup here⟩
  | _ => cases h

/-- What an index gives is an item. -/
theorem exists_item_of_element {value item : Value} {index : Int}
    (h : value.element index = .ok item) : ∃ items, value = array items ∧ item ∈ items := by
  cases value with
  | array items =>
    rw [element] at h
    split at h <;> cases h
    rename_i here
    obtain ⟨position, _, found⟩ := Option.bind_eq_some_iff.mp here
    exact ⟨items, rfl, List.mem_of_getElem? found⟩
  | _ => cases h

theorem containsFormula_of_field {value member : Value} {key : String}
    (free : value.containsFormula = false) (h : value.field key = .ok member) :
    member.containsFormula = false := by
  obtain ⟨members, rfl, mem⟩ := exists_member_of_field h
  exact membersContainFormula_eq_false_iff.mp free _ mem

theorem containsFormula_of_element {value item : Value} {index : Int}
    (free : value.containsFormula = false) (h : value.element index = .ok item) :
    item.containsFormula = false := by
  obtain ⟨items, rfl, mem⟩ := exists_item_of_element h
  exact itemsContainFormula_eq_false_iff.mp free _ mem

variable {values : DocPath → Value}

mutual

theorem containsFormula_replaceFormulas (free : ∀ path, (values path).containsFormula = false)
    (value : Value) (path : DocPath) : (value.replaceFormulas values path).containsFormula = false := by
  match value with
  | null | bool _ | number _ | string _ => rfl
  | formula _ => exact free path
  | array items => exact itemsContainFormula_replaceInItems free items path 0
  | object members => exact membersContainFormula_replaceInMembers free members path

theorem itemsContainFormula_replaceInItems (free : ∀ path, (values path).containsFormula = false)
    (items : List Value) (path : DocPath) (position : Nat) :
    itemsContainFormula (replaceInItems values path position items) = false := by
  match items with
  | [] => rfl
  | item :: rest =>
    rw [replaceInItems, itemsContainFormula, containsFormula_replaceFormulas free,
      itemsContainFormula_replaceInItems free]
    rfl

theorem membersContainFormula_replaceInMembers (free : ∀ path, (values path).containsFormula = false)
    (members : List (String × Value)) (path : DocPath) :
    membersContainFormula (replaceInMembers values path members) = false := by
  match members with
  | [] => rfl
  | (key, value) :: rest =>
    rw [replaceInMembers, membersContainFormula, containsFormula_replaceFormulas free,
      membersContainFormula_replaceInMembers free]
    rfl

end

end Value

namespace Tree

mutual

theorem toValue_ofValue {value : Value} (free : value.containsFormula = false) :
    (ofValue value).toValue = value := by
  match value with
  | .null | .bool _ | .number _ | .string _ => rfl
  | .array items =>
    rw [ofValue, toValue, itemValues_ofItems (show Value.itemsContainFormula items = false from free)]
  | .object members =>
    rw [ofValue, toValue,
      memberValues_ofMembers (show Value.membersContainFormula members = false from free)]

theorem itemValues_ofItems {items : List Value} (free : Value.itemsContainFormula items = false) :
    itemValues (ofItems items) = items := by
  match items with
  | [] => rfl
  | item :: rest =>
    obtain ⟨here, later⟩ := Bool.or_eq_false_iff.mp free
    rw [ofItems, itemValues, toValue_ofValue here, itemValues_ofItems later]

theorem memberValues_ofMembers {members : List (String × Value)}
    (free : Value.membersContainFormula members = false) :
    memberValues (ofMembers members) = members := by
  match members with
  | [] => rfl
  | (key, value) :: rest =>
    obtain ⟨here, later⟩ := Bool.or_eq_false_iff.mp free
    rw [ofMembers, memberValues, toValue_ofValue here, memberValues_ofMembers later]

end

variable {test : CellState → Bool}

mutual

theorem cellPaths_ofValue {value : Value} (free : value.containsFormula = false) (path : DocPath) :
    (ofValue value).cellPaths test path = [] := by
  match value with
  | .null | .bool _ | .number _ | .string _ => rfl
  | .array items =>
    exact itemCellPaths_ofItems (show Value.itemsContainFormula items = false from free) path 0
  | .object members =>
    exact memberCellPaths_ofMembers (show Value.membersContainFormula members = false from free) path

theorem itemCellPaths_ofItems {items : List Value} (free : Value.itemsContainFormula items = false)
    (path : DocPath) (position : Nat) : itemCellPaths test path position (ofItems items) = [] := by
  match items with
  | [] => rfl
  | item :: rest =>
    obtain ⟨here, later⟩ := Bool.or_eq_false_iff.mp free
    rw [ofItems, itemCellPaths, cellPaths_ofValue here, itemCellPaths_ofItems later]
    rfl

theorem memberCellPaths_ofMembers {members : List (String × Value)}
    (free : Value.membersContainFormula members = false) (path : DocPath) :
    memberCellPaths test path (ofMembers members) = [] := by
  match members with
  | [] => rfl
  | (key, value) :: rest =>
    obtain ⟨here, later⟩ := Bool.or_eq_false_iff.mp free
    rw [ofMembers, memberCellPaths, cellPaths_ofValue here, memberCellPaths_ofMembers later]
    rfl

end

end Tree

end FormulaDoc
