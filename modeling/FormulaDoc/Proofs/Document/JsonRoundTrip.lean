import FormulaDoc.Proofs.Document.FormulaObjects
import FormulaDoc.Proofs.Number.Nearest

/-!
# Values through JSON and back

A value that is written in JSON reads back as it was, unless it holds a number that JSON has no notation
of its own for, or an object that the notation of a formula is taken for. What is written from a document
that was read holds neither, so that reading and writing a document once more changes nothing.
-/
namespace FormulaDoc

namespace Value

mutual

/-- Whether a condition holds of a value and of all parts of it. -/
def Everywhere (condition : Value → Prop) : Value → Prop
  | array items => condition (array items) ∧ EverywhereInItems condition items
  | object members => condition (object members) ∧ EverywhereInMembers condition members
  | value => condition value

def EverywhereInItems (condition : Value → Prop) : List Value → Prop
  | [] => True
  | item :: rest => item.Everywhere condition ∧ EverywhereInItems condition rest

def EverywhereInMembers (condition : Value → Prop) : List (String × Value) → Prop
  | [] => True
  | (_, value) :: rest => value.Everywhere condition ∧ EverywhereInMembers condition rest

end

/-- Whether a value is no object that has nothing but a text, under a formula key. In JSON such an
object is a formula. -/
def Unmarked (keys : FormulaKeys) : Value → Prop
  | object [(key, string _)] => keys.contains key = false
  | _ => True

/-- Whether JSON has a notation for just this value, whatever its parts are. -/
def Notable (keys : FormulaKeys) : Value → Prop
  | number n => Binary64.isFinite n = true ∧ n ≠ -0.0
  | value => value.Unmarked keys

theorem unmarked_object_iff {keys : FormulaKeys} {members : List (String × Value)} :
    (object members).Unmarked keys ↔
      ∀ key s, members = [(key, string s)] → keys.contains key = false := by
  constructor
  · rintro unmarked key s rfl
    exact unmarked
  · intro h
    unfold Unmarked
    split
    · rename_i key s same
      cases same
      exact h key s rfl
    · trivial

end Value

/-- A document read and written again. -/
def Json.normalize (keys : FormulaKeys) (json : Json) : Json := ofValue keys (json.toValue keys)

namespace Json

variable {keys : FormulaKeys}

theorem formula?_ofMembers_eq_none_iff {members : List (String × Value)} :
    keys.formula? (ofMembers keys members) = none ↔ (Value.object members).Unmarked keys := by
  rw [Value.unmarked_object_iff, Option.eq_none_iff_forall_not_mem]
  constructor
  · rintro plain key s rfl
    refine Bool.eq_false_iff.mpr fun known => plain s ?_
    exact FormulaKeys.formula?_eq_some_iff.mpr ⟨key, rfl, known⟩
  · intro unmarked source formula
    obtain ⟨key, written, known⟩ := FormulaKeys.formula?_eq_some_iff.mp formula
    match members with
    | [] => cases written
    | [(key', value)] =>
      simp only [ofMembers, List.cons.injEq, Prod.mk.injEq, and_true] at written
      obtain ⟨rfl, text⟩ := written
      rw [eq_string_of_ofValue text] at unmarked
      exact absurd known (Bool.eq_false_iff.mp (unmarked key' source rfl))
    | (_, _) :: (_, _) :: _ => simp [ofMembers] at written

theorem contains_primary (nonempty : keys.keys ≠ []) : keys.contains keys.primary = true := by
  obtain ⟨_ | ⟨first, rest⟩⟩ := keys
  · exact absurd rfl nonempty
  · exact List.elem_cons_self

/-- A formula is written under a key that it is read under. -/
theorem toValue_ofValue_formula (nonempty : keys.keys ≠ []) (source : String) :
    (ofValue keys (.formula source)).toValue keys = .formula source := by
  have formula : keys.formula? [(keys.primary, string source)] = some source :=
    FormulaKeys.formula?_eq_some_iff.mpr ⟨_, rfl, contains_primary nonempty⟩
  rw [ofValue, toValue, formula]

theorem toValue_ofNumber_iff (n : Float) :
    (ofNumber n).toValue keys = .number n ↔ Binary64.isFinite n = true ∧ n ≠ -0.0 := by
  rw [ofNumber]
  split
  next i whole =>
    obtain ⟨whole', exact⟩ := Binary64.toInt?_of_exactInt? whole
    have finite : Binary64.isFinite n = true := Binary64.isFinite_of_toInt? whole'
    rw [toValue, Value.number.injEq]
    constructor
    · rintro rfl
      exact ⟨finite, Binary64.ofInt_ne_negative_zero exact⟩
    · rintro ⟨_, notNegativeZero⟩
      exact Binary64.ofInt_of_exactInt? whole notNegativeZero
  next other =>
    split
    next finite =>
      simp only [toValue, finite, true_and, true_iff]
      rintro rfl
      exact absurd other (by decide)
    next infinite => simp [toValue, infinite]

mutual

/-- A value reads back as it was written exactly if JSON has a notation for each of its parts. -/
theorem toValue_ofValue_iff (nonempty : keys.keys ≠ []) (value : Value) :
    (ofValue keys value).toValue keys = value ↔ value.Everywhere (Value.Notable keys) := by
  match value with
  | .null | .bool _ | .string _ => exact iff_of_true rfl trivial
  | .number n => exact toValue_ofNumber_iff n
  | .formula source => exact iff_of_true (toValue_ofValue_formula nonempty source) trivial
  | .array items =>
    rw [ofValue, toValue, Value.array.injEq, toItems_ofItems_iff nonempty items]
    exact (and_iff_right trivial).symm
  | .object members =>
    rw [ofValue]
    cases formula : keys.formula? (ofMembers keys members) with
    | some source =>
      have marked : ¬ (Value.object members).Unmarked keys := fun unmarked => by
        rw [formula?_ofMembers_eq_none_iff.mpr unmarked] at formula
        cases formula
      rw [toValue, formula]
      exact iff_of_false (by simp) fun all => marked all.1
    | none =>
      rw [toValue_object formula, Value.object.injEq, toMembers_ofMembers_iff nonempty members]
      exact (and_iff_right (formula?_ofMembers_eq_none_iff.mp formula)).symm

theorem toItems_ofItems_iff (nonempty : keys.keys ≠ []) (items : List Value) :
    toItems keys (ofItems keys items) = items ↔ Value.EverywhereInItems (Value.Notable keys) items := by
  match items with
  | [] => exact iff_of_true rfl trivial
  | item :: rest =>
    rw [ofItems, toItems, List.cons.injEq, toValue_ofValue_iff nonempty item,
      toItems_ofItems_iff nonempty rest]
    rfl

theorem toMembers_ofMembers_iff (nonempty : keys.keys ≠ []) (members : List (String × Value)) :
    toMembers keys (ofMembers keys members) = members ↔
      Value.EverywhereInMembers (Value.Notable keys) members := by
  match members with
  | [] => exact iff_of_true rfl trivial
  | (key, value) :: rest =>
    rw [ofMembers, toMembers, List.cons.injEq, Prod.mk.injEq, and_iff_right rfl,
      toValue_ofValue_iff nonempty value, toMembers_ofMembers_iff nonempty rest]
    rfl

end

/-! ## Reading and writing once more -/

/-- Only texts are read as texts. -/
theorem eq_string_of_toValue {json : Json} {s : String} (h : json.toValue keys = .string s) :
    json = string s := by
  cases json with
  | string t =>
    cases h
    rfl
  | object members =>
    rw [toValue] at h
    split at h <;> cases h
  | _ => cases h

theorem unmarked_of_formula? {members : List (String × Json)} (plain : keys.formula? members = none) :
    (Value.object (toMembers keys members)).Unmarked keys := by
  refine Value.unmarked_object_iff.mpr fun key s same => ?_
  rw [toMembers_eq_map] at same
  obtain ⟨⟨key', json⟩, rfl, member⟩ := List.map_eq_singleton_iff.mp same
  obtain ⟨rfl, text⟩ := Prod.mk.inj member
  obtain rfl := eq_string_of_toValue text
  refine Bool.eq_false_iff.mpr fun known => ?_
  rw [FormulaKeys.formula?_eq_some_iff.mpr ⟨_, rfl, known⟩] at plain
  cases plain

mutual

/-- A document has formulas in place of the objects that could be taken for formulas. -/
theorem unmarked_toValue (json : Json) : (json.toValue keys).Everywhere (Value.Unmarked keys) := by
  match json with
  | null | bool _ | int _ | float _ | string _ => trivial
  | array items => exact ⟨trivial, unmarked_toItems items⟩
  | object members =>
    cases formula : keys.formula? members with
    | some source =>
      rw [toValue, formula]
      trivial
    | none =>
      rw [toValue_object formula]
      exact ⟨unmarked_of_formula? formula, unmarked_toMembers members⟩

theorem unmarked_toItems (items : List Json) :
    Value.EverywhereInItems (Value.Unmarked keys) (toItems keys items) := by
  match items with
  | [] => trivial
  | item :: rest => exact ⟨unmarked_toValue item, unmarked_toItems rest⟩

theorem unmarked_toMembers (members : List (String × Json)) :
    Value.EverywhereInMembers (Value.Unmarked keys) (toMembers keys members) := by
  match members with
  | [] => trivial
  | (_, json) :: rest => exact ⟨unmarked_toValue json, unmarked_toMembers rest⟩

end

mutual

/-- Where no object is taken for a formula, what was written is written the same after reading it. -/
theorem normalize_ofValue (nonempty : keys.keys ≠ []) {value : Value}
    (h : value.Everywhere (Value.Unmarked keys)) :
    (ofValue keys value).normalize keys = ofValue keys value := by
  match value with
  | .null | .bool _ | .string _ => rfl
  | .number n => exact ofValue_toValue_ofNumber n
  | .formula source => rw [normalize, toValue_ofValue_formula nonempty]
  | .array items =>
    rw [normalize, ofValue, toValue, ofValue, normalize_ofItems nonempty h.2]
  | .object members =>
    rw [normalize, ofValue, toValue_object (formula?_ofMembers_eq_none_iff.mpr h.1), ofValue,
      normalize_ofMembers nonempty h.2]

theorem normalize_ofItems (nonempty : keys.keys ≠ []) {items : List Value}
    (h : Value.EverywhereInItems (Value.Unmarked keys) items) :
    ofItems keys (toItems keys (ofItems keys items)) = ofItems keys items := by
  match items with
  | [] => rfl
  | item :: rest =>
    rw [ofItems, toItems, ofItems, normalize_ofItems nonempty h.2]
    exact congrArg (· :: _) (normalize_ofValue nonempty h.1)

theorem normalize_ofMembers (nonempty : keys.keys ≠ []) {members : List (String × Value)}
    (h : Value.EverywhereInMembers (Value.Unmarked keys) members) :
    ofMembers keys (toMembers keys (ofMembers keys members)) = ofMembers keys members := by
  match members with
  | [] => rfl
  | (key, value) :: rest =>
    rw [ofMembers, toMembers, ofMembers, normalize_ofMembers nonempty h.2]
    exact congrArg (fun json => (key, json) :: _) (normalize_ofValue nonempty h.1)

end

/-- A value reads back as it was written exactly if its numbers are finite and not the negative zero and
no object in it has a text for its only member, under a formula key. A document that was read and
written is not changed by reading and writing it again. -/
theorem values_round_trip (keys : FormulaKeys) (nonempty : keys.keys ≠ []) :
    (∀ value : Value, (ofValue keys value).toValue keys = value ↔
      value.Everywhere (Value.Notable keys)) ∧
    ∀ json : Json, (json.normalize keys).normalize keys = json.normalize keys :=
  ⟨toValue_ofValue_iff nonempty, fun json => normalize_ofValue nonempty (unmarked_toValue json)⟩

/-- Keys of which the second one is read only, a formula under a formula key, and a number that is too
great for an integer. -/
theorem values_round_trip_second_key :
    let keys : FormulaKeys := ⟨["=", "$formula"]⟩
    let value : Value := .object [("=", .formula "1"), ("n", .array [.number 1.5, .number (-3.0)])]
    let json : Json := .object [("=", .object [("$formula", .string "1")]), ("n", .int 9007199254740993)]
    keys.keys ≠ [] ∧ (ofValue keys value).toValue keys = value ∧
      (json.normalize keys).normalize keys = json.normalize keys := by
  intro keys value json
  have nonempty : keys.keys ≠ [] := by simp [keys]
  have both := values_round_trip keys nonempty
  have notable : value.Everywhere (Value.Notable keys) := by
    simp only [value, Value.Everywhere, Value.EverywhereInMembers, Value.EverywhereInItems,
      Value.Notable, Value.Unmarked, and_true, true_and]
    decide
  exact ⟨nonempty, (both.1 value).mpr notable, both.2 json⟩

end Json

end FormulaDoc
