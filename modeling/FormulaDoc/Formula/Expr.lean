import FormulaDoc.Document.Value
import FormulaDoc.Formula.Operator
import FormulaDoc.Formula.Span

/-!
# Expressions

The tree of a formula. Every node carries a mark, which is its span in a parsed formula; two formulas
that differ in layout only have the same tree once the marks are dropped.
-/
namespace FormulaDoc

/-- An expression with a mark of some type at each node. -/
inductive Expr (α : Type) where
  | literal (mark : α) (value : Value)
  /-- A bare name, looked up in the nearest container. -/
  | ident (mark : α) (name : String)
  /-- The scope some levels up; none is `this`, and each `super` is one. -/
  | scope (mark : α) (depth : Nat)
  | root (mark : α)
  | field (mark : α) (receiver : Expr α) (name : String)
  | index (mark : α) (receiver position : Expr α)
  | unary (mark : α) (op : UnaryOp) (operand : Expr α)
  | binary (mark : α) (op : BinaryOp) (left right : Expr α)
  | call (mark : α) (name : String) (args : List (Expr α))

namespace Expr

variable {α β : Type}

def mark : Expr α → α
  | literal m _ | ident m _ | scope m _ | root m | field m _ _ | index m _ _ | unary m _ _
  | binary m _ _ _ | call m _ _ => m

mutual

def map (f : α → β) : Expr α → Expr β
  | literal m value => literal (f m) value
  | ident m name => ident (f m) name
  | scope m depth => scope (f m) depth
  | root m => root (f m)
  | field m receiver name => field (f m) (receiver.map f) name
  | index m receiver position => index (f m) (receiver.map f) (position.map f)
  | unary m op operand => unary (f m) op (operand.map f)
  | binary m op left right => binary (f m) op (left.map f) (right.map f)
  | call m name args => call (f m) name (mapAll f args)

def mapAll (f : α → β) : List (Expr α) → List (Expr β)
  | [] => []
  | e :: es => e.map f :: mapAll f es

end

def bare (e : Expr α) : Expr Unit := e.map fun _ => ()

/-- The kind of a node; a literal is called by the kind of its value. -/
def label : Expr α → String
  | literal _ value => value.typeName
  | ident _ _ => "ident"
  | scope _ _ => "scope"
  | root _ => "root"
  | field _ _ _ => "field"
  | index _ _ _ => "index"
  | unary _ _ _ => "unary"
  | binary _ _ _ _ => "binary"
  | call _ _ _ => "call"

def children : Expr α → List (Expr α)
  | literal _ _ | ident _ _ | scope _ _ | root _ => []
  | field _ receiver _ => [receiver]
  | index _ receiver position => [receiver, position]
  | unary _ _ operand => [operand]
  | binary _ _ left right => [left, right]
  | call _ _ args => args

mutual

def size : Expr α → Nat
  | literal _ _ | ident _ _ | scope _ _ | root _ => 1
  | field _ receiver _ => receiver.size + 1
  | index _ receiver position => receiver.size + position.size + 1
  | unary _ _ operand => operand.size + 1
  | binary _ _ left right => left.size + right.size + 1
  | call _ _ args => sizeAll args + 1

def sizeAll : List (Expr α) → Nat
  | [] => 0
  | e :: es => e.size + sizeAll es

end

mutual

/-- All nodes, each before its parts, in front of a list. -/
def preorderOnto : Expr α → List (Expr α) → List (Expr α)
  | field m receiver name, tail => field m receiver name :: receiver.preorderOnto tail
  | index m receiver position, tail =>
    index m receiver position :: receiver.preorderOnto (position.preorderOnto tail)
  | unary m op operand, tail => unary m op operand :: operand.preorderOnto tail
  | binary m op left right, tail => binary m op left right :: left.preorderOnto (right.preorderOnto tail)
  | call m name args, tail => call m name args :: preorderAllOnto args tail
  | e, tail => e :: tail

def preorderAllOnto : List (Expr α) → List (Expr α) → List (Expr α)
  | [], tail => tail
  | e :: es, tail => e.preorderOnto (preorderAllOnto es tail)

end

def preorder (e : Expr α) : List (Expr α) := e.preorderOnto []

/-- The text of a scope: `this`, or as many `super` as it is levels up. -/
def scopeText : Nat → String
  | 0 => "this"
  | 1 => "super"
  | depth + 1 => scopeText depth ++ ".super"

/-- The text of a literal: strings with the visible escapes, all else in compact notation. -/
def literalText : Value → String
  | .string s => Text.visibleQuoted s
  | value => value.text

mutual

def text : Expr α → String
  | literal _ value => literalText value
  | ident _ name => name
  | scope _ depth => scopeText depth
  | root _ => "$"
  | field _ receiver name => "(. " ++ receiver.text ++ " " ++ name ++ ")"
  | index _ receiver position => "([] " ++ receiver.text ++ " " ++ position.text ++ ")"
  | unary _ op operand => "(" ++ op.symbol ++ " " ++ operand.text ++ ")"
  | binary _ op left right => "(" ++ op.symbol ++ " " ++ left.text ++ " " ++ right.text ++ ")"
  | call _ name args => "(" ++ name ++ argsText args ++ ")"

def argsText : List (Expr α) → String
  | [] => ""
  | e :: es => " " ++ e.text ++ argsText es

end

end Expr

end FormulaDoc
