/-!
# Operators

The operators of formulas, with the strength that they bind with and the symbols that name them.
-/
namespace FormulaDoc

inductive BinaryOp where
  | add | sub | mul | div | rem
  | concat
  | eq | ne | lt | le | gt | ge
  | and | or
  deriving DecidableEq, Repr

inductive UnaryOp where
  | neg
  | not
  deriving DecidableEq, Repr

namespace BinaryOp

def all : List BinaryOp :=
  [add, sub, mul, div, rem, concat, eq, ne, lt, le, gt, ge, and, or]

/-- How strongly an operator binds; more is tighter. -/
def precedence : BinaryOp → Nat
  | or => 1
  | and => 2
  | eq | ne => 4
  | lt | le | gt | ge => 5
  | add | sub | concat => 6
  | mul | div | rem => 7

/-- Whether the left operand alone can decide the result. -/
def isShortCircuit : BinaryOp → Bool
  | and | or => true
  | _ => false

def isComparison : BinaryOp → Bool
  | lt | le | gt | ge => true
  | _ => false

def symbol : BinaryOp → String
  | add => "+"
  | sub => "-"
  | mul => "*"
  | div => "/"
  | rem => "%"
  | concat => "~"
  | eq => "=="
  | ne => "!="
  | lt => "<"
  | le => "<="
  | gt => ">"
  | ge => ">="
  | and => "and"
  | or => "or"

theorem mem_all (op : BinaryOp) : op ∈ all := by cases op <;> decide

theorem symbol_injective {a b : BinaryOp} (h : a.symbol = b.symbol) : a = b := by
  revert h
  cases a <;> cases b <;> decide

end BinaryOp

namespace UnaryOp

def all : List UnaryOp := [neg, not]

def symbol : UnaryOp → String
  | neg => "-"
  | not => "not"

end UnaryOp

/-- How strongly the word `not` binds: between equality and `and`. -/
def notPrecedence : Nat := 3

end FormulaDoc
