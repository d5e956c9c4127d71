import FormulaDoc.Evaluation.EvalError

/-!
# Operations on values

What the operators do. Nothing is converted: operands of other types are errors.
-/
namespace FormulaDoc

namespace Value

/-- How two numbers compare; NaN compares with nothing. -/
def compareNumbers (a b : Float) : Option Ordering :=
  if Binary64.less a b then some .lt
  else if Binary64.equal a b then some .eq
  else if Binary64.less b a then some .gt
  else none

def compareTexts (a b : String) : Ordering :=
  if a < b then .lt else if a = b then .eq else .gt

/-- How two values compare: none where one of them is NaN, and nothing at all where they are neither
two numbers nor two texts. -/
def compare? : Value → Value → Option (Option Ordering)
  | number a, number b => some (compareNumbers a b)
  | string a, string b => some (some (compareTexts a b))
  | _, _ => none

end Value

namespace BinaryOp

def holds : BinaryOp → Ordering → Bool
  | lt, ordering => ordering == .lt
  | le, ordering => ordering != .gt
  | gt, ordering => ordering == .gt
  | _, ordering => ordering != .lt

/-- The arithmetic of doubles: no operation fails. -/
def arithmetic? (a b : Float) : BinaryOp → Option Float
  | add => some (a + b)
  | sub => some (a - b)
  | mul => some (a * b)
  | div => some (a / b)
  | rem => some (Binary64.remainder a b)
  | _ => none

def requireBool (op : BinaryOp) (operand : Value) : Except EvalError Bool :=
  match operand.bool? with
  | some b => .ok b
  | none => .error (.logicalOperand op operand.typeName)

def mismatch (op : BinaryOp) (left right : Value) : EvalError :=
  .operandTypes op left.typeName right.typeName

/-- Comparison of two numbers or two texts; a comparison with NaN is false. -/
def compareValues (op : BinaryOp) (left right : Value) : Except EvalError Value :=
  match left.compare? right with
  | some ordering => .ok (.bool ((ordering.map op.holds).getD false))
  | none => .error (op.mismatch left right)

/-- Arithmetic of two numbers; addition also joins two texts. -/
def combine (op : BinaryOp) (left right : Value) : Except EvalError Value :=
  match left, right with
  | .number a, .number b =>
    match op.arithmetic? a b with
    | some n => .ok (.number n)
    | none => .error (op.mismatch left right)
  | .string a, .string b =>
    if op = add then .ok (.string (a ++ b)) else .error (op.mismatch left right)
  | _, _ => .error (op.mismatch left right)

def decideBools (op : BinaryOp) (left right : Value) : Except EvalError Value := do
  let a ← op.requireBool left
  let b ← op.requireBool right
  return .bool (if op = and then a && b else a || b)

def join (op : BinaryOp) (left right : Value) : Except EvalError Value :=
  if left.isScalar && right.isScalar then .ok (.string (left.plainText ++ right.plainText))
  else .error (op.mismatch left right)

def apply (op : BinaryOp) (left right : Value) : Except EvalError Value :=
  match op with
  | eq => .ok (.bool (left == right))
  | ne => .ok (.bool (left != right))
  | concat => op.join left right
  | and | or => op.decideBools left right
  | lt | le | gt | ge => op.compareValues left right
  | add | sub | mul | div | rem => op.combine left right

end BinaryOp

def UnaryOp.apply (op : UnaryOp) (operand : Value) : Except EvalError Value :=
  match op, operand with
  | neg, .number n => .ok (.number (Binary64.neg n))
  | not, .bool b => .ok (.bool !b)
  | _, _ => .error (.unaryOperand op operand.typeName)

end FormulaDoc
