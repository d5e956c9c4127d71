import FormulaDoc.Formula.Expr

/-!
# Numbered expressions

An arena stores expressions flat: an entry names its parts by the numbers of entries before it. The
entries of a tree are added part by part, so that they are its nodes in post-order and the last one
is the whole.
-/
namespace FormulaDoc

/-- An expression whose parts are numbers. -/
inductive Entry where
  | literal (value : Value)
  | ident (name : String)
  | scope (depth : Nat)
  | root
  | field (receiver : Nat) (name : String)
  | index (receiver position : Nat)
  | unary (op : UnaryOp) (operand : Nat)
  | binary (op : BinaryOp) (left right : Nat)
  | call (name : String) (args : List Nat)

def Entry.parts : Entry → List Nat
  | literal _ | ident _ | scope _ | root => []
  | field receiver _ => [receiver]
  | index receiver position => [receiver, position]
  | unary _ operand => [operand]
  | binary _ left right => [left, right]
  | call _ args => args

/-- Entries with their spans, numbered from zero. -/
structure Arena where
  entries : Array (Entry × Span)

namespace Arena

def empty : Arena := ⟨#[]⟩

def size (arena : Arena) : Nat := arena.entries.size

def isEmpty (arena : Arena) : Bool := arena.entries.isEmpty

def entry? (arena : Arena) (number : Nat) : Option (Entry × Span) := arena.entries[number]?

def add (arena : Arena) (entry : Entry) (span : Span) : Arena := ⟨arena.entries.push (entry, span)⟩

mutual

/-- Adds a tree: its parts from left to right and then the whole, which gets the number returned. -/
def addExpr (arena : Arena) : Expr Span → Arena × Nat
  | .literal span value => (arena.add (.literal value) span, arena.size)
  | .ident span name => (arena.add (.ident name) span, arena.size)
  | .scope span depth => (arena.add (.scope depth) span, arena.size)
  | .root span => (arena.add .root span, arena.size)
  | .field span receiver name =>
    let (arena, r) := arena.addExpr receiver
    (arena.add (.field r name) span, arena.size)
  | .index span receiver position =>
    let (arena, r) := arena.addExpr receiver
    let (arena, p) := arena.addExpr position
    (arena.add (.index r p) span, arena.size)
  | .unary span op operand =>
    let (arena, o) := arena.addExpr operand
    (arena.add (.unary op o) span, arena.size)
  | .binary span op left right =>
    let (arena, l) := arena.addExpr left
    let (arena, r) := arena.addExpr right
    (arena.add (.binary op l r) span, arena.size)
  | .call span name args =>
    let (arena, numbers) := arena.addAll args
    (arena.add (.call name numbers) span, arena.size)

def addAll (arena : Arena) : List (Expr Span) → Arena × List Nat
  | [] => (arena, [])
  | e :: es =>
    let (arena, number) := arena.addExpr e
    let (arena, numbers) := arena.addAll es
    (arena, number :: numbers)

end

def ofExpr (e : Expr Span) : Arena := (empty.addExpr e).1

/-- The tree of an entry, if its parts are entries before it. -/
def tree? (arena : Arena) (number : Nat) : Option (Expr Span) :=
  let part (i : Nat) : Option (Expr Span) := if _h : i < number then arena.tree? i else none
  match arena.entry? number with
  | none => none
  | some (.literal value, span) => some (.literal span value)
  | some (.ident name, span) => some (.ident span name)
  | some (.scope depth, span) => some (.scope span depth)
  | some (.root, span) => some (.root span)
  | some (.field receiver name, span) => (part receiver).map (.field span · name)
  | some (.index receiver position, span) =>
    (part receiver).bind fun r => (part position).map (.index span r ·)
  | some (.unary op operand, span) => (part operand).map (.unary span op ·)
  | some (.binary op left right, span) =>
    (part left).bind fun l => (part right).map (.binary span op l ·)
  | some (.call name args, span) => (args.mapM part).map (.call span name ·)
termination_by number

def text? (arena : Arena) (number : Nat) : Option String := (arena.tree? number).map Expr.text

end Arena

end FormulaDoc
