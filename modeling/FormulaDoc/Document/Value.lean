import FormulaDoc.Number.Integral
import FormulaDoc.Number.Order
import FormulaDoc.Number.Decimal
import FormulaDoc.Text.Quoted

/-!
# Values

A document is a tree of values. A formula is expression text that still waits to be evaluated.
Objects keep their members in order; a well-formed value has no key twice in one object.
-/
namespace FormulaDoc

inductive Value where
  | null
  | bool (b : Bool)
  | number (n : Float)
  | string (s : String)
  | array (items : List Value)
  | object (members : List (String × Value))
  | formula (source : String)
  deriving Inhabited

/-- Sets a member of an ordered object: a key already there keeps its place. -/
def setMember {α : Type} (key : String) (value : α) : List (String × α) → List (String × α)
  | [] => [(key, value)]
  | (k, v) :: rest => if k = key then (k, value) :: rest else (k, v) :: setMember key value rest

def modifyMember {α : Type} (key : String) (f : α → α) : List (String × α) → List (String × α)
  | [] => []
  | (k, v) :: rest => if k = key then (k, f v) :: rest else (k, v) :: modifyMember key f rest

namespace Value

/-- An object from pairs in order; of a repeated key the last value counts, at the first place. -/
def ofPairs (pairs : List (String × Value)) : Value :=
  object (pairs.foldl (fun members pair => setMember pair.1 pair.2 members) [])

def typeName : Value → String
  | null => "null"
  | bool _ => "bool"
  | number _ => "number"
  | string _ => "string"
  | array _ => "array"
  | object _ => "object"
  | formula _ => "formula"

def number? : Value → Option Float
  | number n => some n
  | _ => none

/-- The integer that a value is, if it is within `2 ^ 53` either way. -/
def integer? : Value → Option Int
  | number n => Binary64.exactInt? n
  | _ => none

def bool? : Value → Option Bool
  | bool b => some b
  | _ => none

def string? : Value → Option String
  | string s => some s
  | _ => none

def items? : Value → Option (List Value)
  | array items => some items
  | _ => none

def members? : Value → Option (List (String × Value))
  | object members => some members
  | _ => none

def isFormula : Value → Bool
  | formula _ => true
  | _ => false

/-- Whether a value is neither a container nor a formula. -/
def isScalar : Value → Bool
  | array _ | object _ | formula _ => false
  | _ => true

mutual

def containsFormula : Value → Bool
  | formula _ => true
  | array items => itemsContainFormula items
  | object members => membersContainFormula members
  | _ => false

def itemsContainFormula : List Value → Bool
  | [] => false
  | item :: rest => item.containsFormula || itemsContainFormula rest

def membersContainFormula : List (String × Value) → Bool
  | [] => false
  | (_, value) :: rest => value.containsFormula || membersContainFormula rest

end

mutual

/-- No object has a key twice, at any depth. -/
def WellFormed : Value → Prop
  | array items => ItemsWellFormed items
  | object members => (members.map Prod.fst).Nodup ∧ MembersWellFormed members
  | _ => True

def ItemsWellFormed : List Value → Prop
  | [] => True
  | item :: rest => item.WellFormed ∧ ItemsWellFormed rest

def MembersWellFormed : List (String × Value) → Prop
  | [] => True
  | (_, value) :: rest => value.WellFormed ∧ MembersWellFormed rest

end

mutual

/-- Equality of values as formulas see it: numbers compare as numbers, so that NaN differs from
itself, and the order of members does not count. -/
def equals : Value → Value → Bool
  | null, null => true
  | bool a, bool b => a == b
  | number a, number b => Binary64.equal a b
  | string a, string b => a == b
  | formula a, formula b => a == b
  | array as, array bs => itemsEqual as bs
  | object as, object bs => as.length == bs.length && membersWithin as bs
  | _, _ => false

def itemsEqual : List Value → List Value → Bool
  | [], [] => true
  | a :: as, b :: bs => equals a b && itemsEqual as bs
  | _, _ => false

/-- Whether every member has an equal one among others. -/
def membersWithin : List (String × Value) → List (String × Value) → Bool
  | [], _ => true
  | (key, a) :: as, bs =>
    (match bs.lookup key with
      | some b => equals a b
      | none => false) && membersWithin as bs

end

instance : BEq Value := ⟨equals⟩

/-- The text of a number: without a point or sign of zero where it is an integer within `2 ^ 53`. -/
def numberText (n : Float) : String :=
  match Binary64.exactInt? n with
  | some i => toString i
  | none => Decimal.text n

mutual

def text : Value → String
  | null => "null"
  | bool b => toString b
  | number n => numberText n
  | string s => Text.bareQuoted s
  | array items => "[" ++ String.intercalate "," (itemTexts items) ++ "]"
  | object members => "\x7b" ++ String.intercalate "," (memberTexts members) ++ "\x7d"
  | formula source => "formula(" ++ Text.bareQuoted source ++ ")"

def itemTexts : List Value → List String
  | [] => []
  | item :: rest => item.text :: itemTexts rest

def memberTexts : List (String × Value) → List String
  | [] => []
  | (key, value) :: rest => (Text.bareQuoted key ++ ":" ++ value.text) :: memberTexts rest

end

/-- The text that concatenation takes: a string as it is, anything else in compact notation. -/
def plainText : Value → String
  | string s => s
  | value => value.text

end Value

end FormulaDoc
