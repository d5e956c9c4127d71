import FormulaDoc.Document.Value

/-!
# Documents in JSON

A formula is written as an object whose only member has a formula key and a string. Any other object
is data, also one that has a formula key among others.
-/
namespace FormulaDoc

/-- JSON with whole numbers and doubles told apart. -/
inductive Json where
  | null
  | bool (b : Bool)
  | int (i : Int)
  | float (x : Float)
  | string (s : String)
  | array (items : List Json)
  | object (members : List (String × Json))
  deriving Inhabited

/-- The keys that mark a formula; the first one is used for writing. -/
structure FormulaKeys where
  keys : List String
  deriving DecidableEq, Repr

namespace FormulaKeys

def default : FormulaKeys := ⟨["$formula", "$$formula"]⟩

def contains (keys : FormulaKeys) (key : String) : Bool := keys.keys.contains key

def primary (keys : FormulaKeys) : String := keys.keys.head?.getD "$formula"

/-- The formula that an object writes, if it writes one. -/
def formula? (keys : FormulaKeys) : List (String × Json) → Option String
  | [(key, .string source)] => if keys.contains key then some source else none
  | _ => none

end FormulaKeys

namespace Json

/-- An object from pairs in order; of a repeated key the last value counts, at the first place. -/
def ofPairs (pairs : List (String × Json)) : Json :=
  object (pairs.foldl (fun members pair => setMember pair.1 pair.2 members) [])

/-- A number: whole ones within `2 ^ 53` as integers, and null for one that is not finite. -/
def ofNumber (n : Float) : Json :=
  match Binary64.exactInt? n with
  | some i => int i
  | none => if Binary64.isFinite n then float n else null

mutual

def toValue (keys : FormulaKeys) : Json → Value
  | null => .null
  | bool b => .bool b
  | int i => .number (Binary64.ofInt i)
  | float x => .number x
  | string s => .string s
  | array items => .array (toItems keys items)
  | object members =>
    match keys.formula? members with
    | some source => .formula source
    | none => .object (toMembers keys members)

def toItems (keys : FormulaKeys) : List Json → List Value
  | [] => []
  | item :: rest => item.toValue keys :: toItems keys rest

def toMembers (keys : FormulaKeys) : List (String × Json) → List (String × Value)
  | [] => []
  | (key, json) :: rest => (key, json.toValue keys) :: toMembers keys rest

end

mutual

def ofValue (keys : FormulaKeys) : Value → Json
  | .null => null
  | .bool b => bool b
  | .number n => ofNumber n
  | .string s => string s
  | .array items => array (ofItems keys items)
  | .object members => object (ofMembers keys members)
  | .formula source => object [(keys.primary, string source)]

def ofItems (keys : FormulaKeys) : List Value → List Json
  | [] => []
  | item :: rest => ofValue keys item :: ofItems keys rest

def ofMembers (keys : FormulaKeys) : List (String × Value) → List (String × Json)
  | [] => []
  | (key, value) :: rest => (key, ofValue keys value) :: ofMembers keys rest

end

end Json

end FormulaDoc
