import FormulaDoc.Json
import FormulaDoc.Proofs.Document.FormulaFree
import FormulaDoc.Proofs.Number.Encoding

/-!
# Formula objects

In JSON a formula is an object like any other, so that data can come to look like a formula: an object
whose only member has a formula key is data as long as there is no text under the key. This can change
only where the member is a formula. A document holds formula objects after its formulas are replaced by
values exactly if a text takes such a place.
-/
namespace FormulaDoc

namespace FormulaKeys

variable (keys : FormulaKeys)

/-- Whether an object with these members writes a formula. -/
def marks (members : List (String × Json)) : Bool := (keys.formula? members).isSome

/-- The formula key of an object that has nothing but a formula under it. The object writes a formula
as soon as a text takes the place of the one inside. -/
def wrapped? : List (String × Json) → Option String
  | [(key, .object members)] => if keys.contains key && keys.marks members then some key else none
  | _ => none

variable {keys}

theorem formula?_eq_some_iff {members : List (String × Json)} {source : String} :
    keys.formula? members = some source ↔
      ∃ key, members = [(key, .string source)] ∧ keys.contains key = true := by
  constructor
  · intro h
    unfold formula? at h
    split at h
    next key text =>
      split at h
      next known =>
        cases h
        exact ⟨key, rfl, known⟩
      next => cases h
    next => cases h
  · rintro ⟨key, rfl, known⟩
    exact if_pos known

theorem marks_eq_true_iff {members : List (String × Json)} :
    keys.marks members = true ↔
      ∃ key source, members = [(key, .string source)] ∧ keys.contains key = true := by
  rw [marks, Option.isSome_iff_exists]
  simp only [formula?_eq_some_iff]
  exact exists_comm

theorem marks_eq_false_iff {members : List (String × Json)} :
    keys.marks members = false ↔ keys.formula? members = none := by
  rw [marks, Option.isSome_eq_false_iff, Option.isNone_iff_eq_none]

theorem wrapped?_eq_some_iff {members : List (String × Json)} {key : String} :
    keys.wrapped? members = some key ↔
      ∃ inner, members = [(key, .object inner)] ∧ keys.contains key = true ∧ keys.marks inner = true := by
  constructor
  · intro h
    unfold wrapped? at h
    split at h
    next key' inner =>
      split at h
      next both =>
        cases h
        exact ⟨inner, rfl, Bool.and_eq_true_iff.mp both⟩
      next => cases h
    next => cases h
  · rintro ⟨inner, rfl, both⟩
    exact if_pos (Bool.and_eq_true_iff.mpr both)

end FormulaKeys

namespace Json

mutual

/-- Whether a document or a part of it is an object that writes a formula. -/
def hasFormula (keys : FormulaKeys) : Json → Bool
  | array items => itemsHaveFormula keys items
  | object members => keys.marks members || membersHaveFormula keys members
  | _ => false

def itemsHaveFormula (keys : FormulaKeys) : List Json → Bool
  | [] => false
  | item :: rest => item.hasFormula keys || itemsHaveFormula keys rest

def membersHaveFormula (keys : FormulaKeys) : List (String × Json) → Bool
  | [] => false
  | (_, json) :: rest => json.hasFormula keys || membersHaveFormula keys rest

end

mutual

/-- The places of the formulas in a document at a path that are the only members of objects, under
formula keys. -/
def wrappedPaths (keys : FormulaKeys) (path : DocPath) : Json → List DocPath
  | array items => itemWrappedPaths keys path 0 items
  | object members =>
    (keys.wrapped? members).toList.map path.key ++ memberWrappedPaths keys path members
  | _ => []

def itemWrappedPaths (keys : FormulaKeys) (path : DocPath) (position : Nat) : List Json → List DocPath
  | [] => []
  | item :: rest =>
    item.wrappedPaths keys (path.index position) ++ itemWrappedPaths keys path (position + 1) rest

def memberWrappedPaths (keys : FormulaKeys) (path : DocPath) : List (String × Json) → List DocPath
  | [] => []
  | (key, json) :: rest =>
    json.wrappedPaths keys (path.key key) ++ memberWrappedPaths keys path rest

end

variable {keys : FormulaKeys}

theorem itemsHaveFormula_eq_false_iff {items : List Json} :
    itemsHaveFormula keys items = false ↔ ∀ item ∈ items, item.hasFormula keys = false := by
  induction items with
  | nil => simp [itemsHaveFormula]
  | cons item rest ih => simp [itemsHaveFormula, ih]

theorem membersHaveFormula_eq_false_iff {members : List (String × Json)} :
    membersHaveFormula keys members = false ↔ ∀ m ∈ members, m.2.hasFormula keys = false := by
  induction members with
  | nil => simp [membersHaveFormula]
  | cons member rest ih => simp [membersHaveFormula, ih]

theorem wrappedPaths_item {items : List Json} {position : Nat} {item : Json}
    (here : items[position]? = some item) (path : DocPath) (first : Nat) :
    item.wrappedPaths keys (path.index (first + position)) ⊆ itemWrappedPaths keys path first items := by
  induction items generalizing position first with
  | nil => cases here
  | cons head rest ih =>
    rw [itemWrappedPaths]
    cases position with
    | zero =>
      cases here
      exact List.subset_append_left _ _
    | succ position =>
      rw [← Nat.succ_add_eq_add_succ]
      exact List.Subset.trans (ih here (first + 1)) (List.subset_append_right _ _)

theorem wrappedPaths_member {members : List (String × Json)} {key : String} {member : Json}
    (mem : (key, member) ∈ members) (path : DocPath) :
    member.wrappedPaths keys (path.key key) ⊆ memberWrappedPaths keys path members := by
  induction members with
  | nil => cases mem
  | cons head rest ih =>
    rw [memberWrappedPaths]
    cases mem with
    | head => exact List.subset_append_left _ _
    | tail _ mem => exact List.Subset.trans (ih mem) (List.subset_append_right _ _)

theorem toItems_eq_map (items : List Json) : toItems keys items = items.map (·.toValue keys) := by
  induction items with
  | nil => rfl
  | cons item rest ih => rw [toItems, ih, List.map_cons]

theorem toMembers_eq_map (members : List (String × Json)) :
    toMembers keys members = members.map fun m => (m.1, m.2.toValue keys) := by
  induction members with
  | nil => rfl
  | cons member rest ih => rw [toMembers, ih, List.map_cons]

theorem ofItems_eq_map (items : List Value) : ofItems keys items = items.map (ofValue keys) := by
  induction items with
  | nil => rfl
  | cons item rest ih => rw [ofItems, ih, List.map_cons]

theorem ofMembers_eq_map (members : List (String × Value)) :
    ofMembers keys members = members.map fun m => (m.1, ofValue keys m.2) := by
  induction members with
  | nil => rfl
  | cons member rest ih => rw [ofMembers, ih, List.map_cons]

theorem toValue_object {members : List (String × Json)} (plain : keys.formula? members = none) :
    (object members).toValue keys = .object (toMembers keys members) := by
  rw [toValue, plain]

/-! ## Documents as values -/

mutual

/-- The formulas of a document are the objects that write them. -/
theorem containsFormula_toValue {json : Json} (free : json.hasFormula keys = false) :
    (json.toValue keys).containsFormula = false := by
  match json with
  | null | bool _ | int _ | float _ | string _ => rfl
  | array items => exact itemsContainFormula_toItems free
  | object members =>
    obtain ⟨here, inside⟩ := Bool.or_eq_false_iff.mp free
    rw [toValue_object (FormulaKeys.marks_eq_false_iff.mp here)]
    exact membersContainFormula_toMembers inside

theorem itemsContainFormula_toItems {items : List Json} (free : itemsHaveFormula keys items = false) :
    Value.itemsContainFormula (toItems keys items) = false := by
  match items with
  | [] => rfl
  | item :: rest =>
    obtain ⟨here, later⟩ := Bool.or_eq_false_iff.mp free
    rw [toItems, Value.itemsContainFormula, containsFormula_toValue here,
      itemsContainFormula_toItems later]
    rfl

theorem membersContainFormula_toMembers {members : List (String × Json)}
    (free : membersHaveFormula keys members = false) :
    Value.membersContainFormula (toMembers keys members) = false := by
  match members with
  | [] => rfl
  | (key, json) :: rest =>
    obtain ⟨here, later⟩ := Bool.or_eq_false_iff.mp free
    rw [toMembers, Value.membersContainFormula, containsFormula_toValue here,
      membersContainFormula_toMembers later]
    rfl

end

theorem exists_json_of_child? {json : Json} {step : Step} {child : Value}
    (there : (json.toValue keys).child? step = some child) (path : DocPath) :
    ∃ json' : Json, json'.toValue keys = child ∧
      json'.wrappedPaths keys (path.child step) ⊆ json.wrappedPaths keys path := by
  cases json with
  | array items =>
    cases step with
    | key _ => cases there
    | index position =>
      rw [toValue, Value.child?, toItems_eq_map, List.getElem?_map] at there
      obtain ⟨item, here, rfl⟩ := Option.map_eq_some_iff.mp there
      have inside := @wrappedPaths_item keys _ _ _ here path 0
      rw [Nat.zero_add] at inside
      exact ⟨item, rfl, inside⟩
  | object members =>
    cases plain : keys.formula? members with
    | some source =>
      rw [toValue, plain] at there
      cases step <;> cases there
    | none =>
      rw [toValue_object plain] at there
      cases step with
      | index _ => cases there
      | key name =>
        rw [Value.child?, toMembers_eq_map, lookup_map_values] at there
        obtain ⟨member, here, rfl⟩ := Option.map_eq_some_iff.mp there
        have inside := @wrappedPaths_member keys _ _ _ (mem_of_lookup here) path
        exact ⟨member, rfl, List.Subset.trans inside (List.subset_append_right _ _)⟩
  | _ => cases step <;> cases there

/-- A part of a document's value is the value of a part. -/
theorem exists_json_of_get? {json : Json} {rest : DocPath} {part : Value}
    (there : (json.toValue keys).get? rest = some part) (path : DocPath) :
    ∃ json' : Json, json'.toValue keys = part ∧
      json'.wrappedPaths keys (path ++ rest) ⊆ json.wrappedPaths keys path := by
  induction rest generalizing json path with
  | nil =>
    cases there
    exact ⟨json, rfl, by rw [List.append_nil]; exact List.Subset.refl _⟩
  | cons step rest ih =>
    obtain ⟨child, here, later⟩ := Option.bind_eq_some_iff.mp there
    obtain ⟨json', rfl, inside⟩ := exists_json_of_child? here path
    obtain ⟨json'', same, inside'⟩ := ih later (path.child step)
    refine ⟨json'', same, ?_⟩
    rw [DocPath.child, List.append_assoc] at inside'
    exact List.Subset.trans inside' inside

/-! ## Values as documents -/

theorem ofNumber_cases (n : Float) :
    ofNumber n = null ∨ (∃ i : Int, i.natAbs ≤ Binary64.maxExactInt ∧ ofNumber n = int i) ∨
      ofNumber n = float n := by
  rw [ofNumber]
  split
  next i whole => exact .inr (.inl ⟨i, of_decide_eq_true (Option.filter_eq_some_iff.mp whole).2, rfl⟩)
  next =>
    split
    · exact .inr (.inr rfl)
    · exact .inl rfl

theorem hasFormula_ofNumber (n : Float) : (ofNumber n).hasFormula keys = false := by
  obtain h | ⟨i, _, h⟩ | h := ofNumber_cases n <;> rw [h] <;> rfl

theorem hasFormula_of_isScalar {value : Value} (h : value.isScalar) :
    (ofValue keys value).hasFormula keys = false := by
  cases value with
  | number n => exact hasFormula_ofNumber n
  | array _ | object _ | formula _ => cases h
  | _ => rfl

theorem hasFormula_of_mem_items {items : List Value} {item : Value}
    (free : (ofValue keys (.array items)).hasFormula keys = false) (mem : item ∈ items) :
    (ofValue keys item).hasFormula keys = false := by
  refine itemsHaveFormula_eq_false_iff.mp free _ ?_
  rw [ofItems_eq_map]
  exact List.mem_map_of_mem mem

theorem hasFormula_of_mem_members {members : List (String × Value)} {key : String} {member : Value}
    (free : (ofValue keys (.object members)).hasFormula keys = false) (mem : (key, member) ∈ members) :
    (ofValue keys member).hasFormula keys = false := by
  refine membersHaveFormula_eq_false_iff.mp (Bool.or_eq_false_iff.mp free).2 (key, ofValue keys member) ?_
  rw [ofMembers_eq_map]
  exact List.mem_map_of_mem (f := fun m => (m.1, ofValue keys m.2)) mem

/-- Only texts are written as texts. -/
theorem eq_string_of_ofValue {value : Value} {s : String} (h : ofValue keys value = string s) :
    value = .string s := by
  cases value with
  | string t => cases h; rfl
  | number n =>
    obtain h' | ⟨i, _, h'⟩ | h' := ofNumber_cases n <;> rw [ofValue, h'] at h <;> cases h
  | _ => cases h

/-! ## Formulas replaced by values -/

variable {values : DocPath → Value} {path : DocPath}

/-- Where a text stands after formulas are replaced, there was the text or a formula. -/
theorem text_of_replaceFormulas {json : Json} {s : String}
    (h : (json.toValue keys).replaceFormulas values path = .string s) :
    json = string s ∨ ∃ members, json = object members ∧ keys.marks members = true := by
  cases json with
  | string t =>
    cases h
    exact .inl rfl
  | object members =>
    cases mark : keys.marks members with
    | true => exact .inr ⟨members, rfl, mark⟩
    | false =>
      rw [toValue_object (FormulaKeys.marks_eq_false_iff.mp mark)] at h
      cases h
  | _ => cases h

/-- A plain object comes to write a formula exactly if it wraps one that comes to a text. -/
theorem marks_replaceInMembers {members : List (String × Json)} (plain : keys.marks members = false) :
    keys.marks (ofMembers keys (Value.replaceInMembers values path (toMembers keys members))) = true ↔
      ∃ key s, keys.wrapped? members = some key ∧ values (path.key key) = .string s := by
  constructor
  · intro mark
    obtain ⟨key, s, same, known⟩ := FormulaKeys.marks_eq_true_iff.mp mark
    match members with
    | [] => cases same
    | [(key', json)] =>
      simp only [toMembers, Value.replaceInMembers, ofMembers, List.cons.injEq, Prod.mk.injEq,
        and_true] at same
      obtain ⟨rfl, written⟩ := same
      have text := eq_string_of_ofValue written
      -- A text that was there before would have made the object a formula already.
      obtain rfl | ⟨inner, rfl, mark'⟩ := text_of_replaceFormulas text
      · exact absurd (FormulaKeys.marks_eq_true_iff.mpr ⟨_, _, rfl, known⟩) (Bool.eq_false_iff.mp plain)
      · obtain ⟨source, formula⟩ := Option.isSome_iff_exists.mp mark'
        rw [toValue, formula] at text
        exact ⟨key', s, FormulaKeys.wrapped?_eq_some_iff.mpr ⟨inner, rfl, known, mark'⟩, text⟩
    | (_, _) :: (_, _) :: _ => simp [toMembers, Value.replaceInMembers, ofMembers] at same
  · rintro ⟨key, s, wraps, text⟩
    obtain ⟨inner, rfl, known, mark⟩ := FormulaKeys.wrapped?_eq_some_iff.mp wraps
    obtain ⟨source, formula⟩ := Option.isSome_iff_exists.mp mark
    refine FormulaKeys.marks_eq_true_iff.mpr ⟨key, s, ?_, known⟩
    simp only [toMembers, toValue, formula, Value.replaceInMembers, Value.replaceFormulas, text,
      ofMembers, ofValue]

theorem exists_wrapped_iff {members : List (String × Json)} {property : DocPath → Prop} :
    (∃ found ∈ (object members).wrappedPaths keys path, property found) ↔
      (∃ key, keys.wrapped? members = some key ∧ property (path.key key)) ∨
        ∃ found ∈ memberWrappedPaths keys path members, property found := by
  rw [wrappedPaths]
  cases keys.wrapped? members <;> simp [or_and_right, exists_or]

theorem not_wrapped_of_formula? {members : List (String × Json)} {source : String}
    (formula : keys.formula? members = some source) :
    (object members).wrappedPaths keys path = [] := by
  obtain ⟨key, rfl, _⟩ := FormulaKeys.formula?_eq_some_iff.mp formula
  rfl

mutual

/-- Where a wrapped formula comes to a text, a formula object comes about. -/
theorem hasFormula_of_wrapped (json : Json) (path : DocPath)
    (h : ∃ found ∈ json.wrappedPaths keys path, ∃ s, values found = .string s) :
    (ofValue keys ((json.toValue keys).replaceFormulas values path)).hasFormula keys = true := by
  match json with
  | null | bool _ | string _ | int _ | float _ => exact absurd h (by simp [wrappedPaths])
  | array items => exact itemsHaveFormula_of_wrapped items path 0 h
  | object members =>
    cases mark : keys.formula? members with
    | some source =>
      rw [not_wrapped_of_formula? mark] at h
      exact absurd h (by simp)
    | none =>
      rw [toValue_object mark]
      refine Bool.or_eq_true_iff.mpr ?_
      rcases exists_wrapped_iff.mp h with ⟨key, wraps, s, text⟩ | inside
      · exact .inl ((marks_replaceInMembers (FormulaKeys.marks_eq_false_iff.mpr mark)).mpr
          ⟨key, s, wraps, text⟩)
      · exact .inr (membersHaveFormula_of_wrapped members path inside)

theorem itemsHaveFormula_of_wrapped (items : List Json) (path : DocPath) (position : Nat)
    (h : ∃ found ∈ itemWrappedPaths keys path position items, ∃ s, values found = .string s) :
    itemsHaveFormula keys
      (ofItems keys (Value.replaceInItems values path position (toItems keys items))) = true := by
  match items with
  | [] => exact absurd h (by simp [itemWrappedPaths])
  | item :: rest =>
    obtain ⟨found, mem, text⟩ := h
    refine Bool.or_eq_true_iff.mpr ?_
    rcases List.mem_append.mp mem with here | later
    · exact .inl (hasFormula_of_wrapped item _ ⟨found, here, text⟩)
    · exact .inr (itemsHaveFormula_of_wrapped rest path _ ⟨found, later, text⟩)

theorem membersHaveFormula_of_wrapped (members : List (String × Json)) (path : DocPath)
    (h : ∃ found ∈ memberWrappedPaths keys path members, ∃ s, values found = .string s) :
    membersHaveFormula keys
      (ofMembers keys (Value.replaceInMembers values path (toMembers keys members))) = true := by
  match members with
  | [] => exact absurd h (by simp [memberWrappedPaths])
  | (key, json) :: rest =>
    obtain ⟨found, mem, text⟩ := h
    refine Bool.or_eq_true_iff.mpr ?_
    rcases List.mem_append.mp mem with here | later
    · exact .inl (hasFormula_of_wrapped json _ ⟨found, here, text⟩)
    · exact .inr (membersHaveFormula_of_wrapped rest path ⟨found, later, text⟩)

end

mutual

/-- Nothing else makes formula objects of values that hold none. -/
theorem wrapped_of_hasFormula
    (free : ∀ found, (ofValue keys (values found)).hasFormula keys = false) (json : Json)
    (path : DocPath)
    (h : (ofValue keys ((json.toValue keys).replaceFormulas values path)).hasFormula keys = true) :
    ∃ found ∈ json.wrappedPaths keys path, ∃ s, values found = .string s := by
  match json with
  | null | bool _ | string _ => cases h
  | int _ | float _ => exact absurd h (Bool.eq_false_iff.mp (hasFormula_ofNumber _))
  | array items => exact itemWrapped_of_hasFormula free items path 0 h
  | object members =>
    cases mark : keys.formula? members with
    | some source =>
      rw [toValue, mark] at h
      exact absurd h (Bool.eq_false_iff.mp (free path))
    | none =>
      rw [toValue_object mark] at h
      rcases Bool.or_eq_true_iff.mp h with here | inside
      · obtain ⟨key, s, wraps, text⟩ :=
          (marks_replaceInMembers (FormulaKeys.marks_eq_false_iff.mpr mark)).mp here
        exact exists_wrapped_iff.mpr (.inl ⟨key, wraps, s, text⟩)
      · exact exists_wrapped_iff.mpr (.inr (memberWrapped_of_hasFormula free members path inside))

theorem itemWrapped_of_hasFormula
    (free : ∀ found, (ofValue keys (values found)).hasFormula keys = false) (items : List Json)
    (path : DocPath) (position : Nat)
    (h : itemsHaveFormula keys
      (ofItems keys (Value.replaceInItems values path position (toItems keys items))) = true) :
    ∃ found ∈ itemWrappedPaths keys path position items, ∃ s, values found = .string s := by
  match items with
  | [] => cases h
  | item :: rest =>
    rcases Bool.or_eq_true_iff.mp h with here | later
    · obtain ⟨found, mem, text⟩ := wrapped_of_hasFormula free item _ here
      exact ⟨found, List.mem_append_left _ mem, text⟩
    · obtain ⟨found, mem, text⟩ := itemWrapped_of_hasFormula free rest path _ later
      exact ⟨found, List.mem_append_right _ mem, text⟩

theorem memberWrapped_of_hasFormula
    (free : ∀ found, (ofValue keys (values found)).hasFormula keys = false)
    (members : List (String × Json)) (path : DocPath)
    (h : membersHaveFormula keys
      (ofMembers keys (Value.replaceInMembers values path (toMembers keys members))) = true) :
    ∃ found ∈ memberWrappedPaths keys path members, ∃ s, values found = .string s := by
  match members with
  | [] => cases h
  | (key, json) :: rest =>
    rcases Bool.or_eq_true_iff.mp h with here | later
    · obtain ⟨found, mem, text⟩ := wrapped_of_hasFormula free json _ here
      exact ⟨found, List.mem_append_left _ mem, text⟩
    · obtain ⟨found, mem, text⟩ := memberWrapped_of_hasFormula free rest path later
      exact ⟨found, List.mem_append_right _ mem, text⟩

end

/-! ## Reading back what was written -/

theorem ofNumber_ofInt {i : Int} (exact : i.natAbs ≤ Binary64.maxExactInt) :
    ofNumber (Binary64.ofInt i) = int i := by
  rw [ofNumber, Binary64.exactInt?_ofInt exact]

/-- A number reads back as what it was written as, null included. -/
theorem ofValue_toValue_ofNumber (n : Float) :
    ofValue keys ((ofNumber n).toValue keys) = ofNumber n := by
  obtain written | ⟨i, exact, written⟩ | written := ofNumber_cases n <;> rw [written]
  · rfl
  · exact ofNumber_ofInt exact
  · exact written

mutual

/-- A value that is written without formula objects is written the same after reading it back. -/
theorem ofValue_toValue_ofValue {value : Value} (free : (ofValue keys value).hasFormula keys = false) :
    ofValue keys ((ofValue keys value).toValue keys) = ofValue keys value := by
  match value with
  | .null | .bool _ | .string _ => rfl
  | .number n => exact ofValue_toValue_ofNumber n
  | .array items =>
    rw [ofValue, toValue, ofValue, ofItems_toItems_ofItems free]
  | .object members =>
    obtain ⟨here, inside⟩ := Bool.or_eq_false_iff.mp free
    rw [ofValue, toValue_object (FormulaKeys.marks_eq_false_iff.mp here), ofValue,
      ofMembers_toMembers_ofMembers inside]
  | .formula source =>
    obtain ⟨here, _⟩ := Bool.or_eq_false_iff.mp free
    rw [ofValue, toValue_object (FormulaKeys.marks_eq_false_iff.mp here)]
    rfl

theorem ofItems_toItems_ofItems {items : List Value}
    (free : itemsHaveFormula keys (ofItems keys items) = false) :
    ofItems keys (toItems keys (ofItems keys items)) = ofItems keys items := by
  match items with
  | [] => rfl
  | item :: rest =>
    obtain ⟨here, later⟩ := Bool.or_eq_false_iff.mp free
    rw [ofItems, toItems, ofItems, ofValue_toValue_ofValue here, ofItems_toItems_ofItems later]

theorem ofMembers_toMembers_ofMembers {members : List (String × Value)}
    (free : membersHaveFormula keys (ofMembers keys members) = false) :
    ofMembers keys (toMembers keys (ofMembers keys members)) = ofMembers keys members := by
  match members with
  | [] => rfl
  | (key, value) :: rest =>
    obtain ⟨here, later⟩ := Bool.or_eq_false_iff.mp free
    rw [ofMembers, toMembers, ofMembers, ofValue_toValue_ofValue here,
      ofMembers_toMembers_ofMembers later]

end

end Json

end FormulaDoc
