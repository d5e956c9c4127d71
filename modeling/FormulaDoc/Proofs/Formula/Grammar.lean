import FormulaDoc.Formula.Expr
import FormulaDoc.Formula.Token

/-!
# The grammar of formulas

The grammar as types of derivations. A derivation spells the tokens at its leaves and means a tree:
operators of a layer group to the left, a filter is a call with its input first, a chain of `this` and
`super` is one scope, and parentheses leave no node. A repetition is a symbol of its own, which is
empty or begins with one more part.
-/
namespace FormulaDoc

namespace Grammar

/-- The layers of binary operators, the loosest first. -/
inductive Layer where
  | disjunction
  | conjunction
  | equality
  | comparison
  | sum
  | product
  deriving DecidableEq, Repr

/-- What stands for an expression of its own. -/
inductive Nonterminal where
  | layer (l : Layer)
  /-- The word `not` with its operand, or an equality. -/
  | negation
  /-- Signs before an operand. -/
  | unary
  | filter
  /-- A primary expression with its properties and indices. -/
  | access
  | primary
  deriving DecidableEq, Repr

inductive Symbol where
  | whole (n : Nonterminal)
  /-- Further operators of a layer, each with its right operand. -/
  | operations (l : Layer)
  /-- Further filters. -/
  | filters
  /-- Further properties and indices. -/
  | accesses
  /-- Further links of a scope chain. -/
  | links
  | arguments
  | moreArguments

/-- What the operands of a layer are. -/
def Layer.operand : Layer → Nonterminal
  | disjunction => .layer conjunction
  | conjunction => .negation
  | equality => .layer comparison
  | comparison => .layer sum
  | sum => .layer product
  | product => .unary

/-- The operators of a layer with the tokens that write them. -/
def Layer.operators : Layer → List (TokenKind × BinaryOp)
  | disjunction => [(.word .or, .or), (.sign .either, .or)]
  | conjunction => [(.word .and, .and), (.sign .both, .and)]
  | equality => [(.sign .equal, .eq), (.sign .notEqual, .ne)]
  | comparison =>
    [(.sign .less, .lt), (.sign .lessEqual, .le), (.sign .greater, .gt), (.sign .greaterEqual, .ge)]
  | sum => [(.sign .plus, .add), (.sign .minus, .sub), (.sign .tilde, .concat)]
  | product => [(.sign .star, .mul), (.sign .slash, .div), (.sign .percent, .rem)]

/-- A whole formula. -/
abbrev expression : Nonterminal := .layer .disjunction

inductive IsLiteral : TokenKind → Value → Prop where
  | number (n : Float) : IsLiteral (.number n) (.number n)
  | string (s : String) : IsLiteral (.string s) (.string s)
  | true : IsLiteral (.word .true) (.bool Bool.true)
  | false : IsLiteral (.word .false) (.bool Bool.false)
  | null : IsLiteral (.word .null) .null

/-- The names of properties after a dot: any name, and the reserved words that anchor no path. -/
inductive IsProperty : TokenKind → String → Prop where
  | name (name : String) : IsProperty (.ident name) name
  | word {w : Keyword} : w ∈ [.true, .false, .null, .and, .or, .not] → IsProperty (.word w) w.text

/-- A derivation from a symbol. -/
inductive Phrase : Symbol → Type where
  | chain {l} (first : Phrase (.whole l.operand)) (rest : Phrase (.operations l)) :
      Phrase (.whole (.layer l))
  | noOperation {l} : Phrase (.operations l)
  | operation {l} (kind : TokenKind) (op : BinaryOp) (mem : (kind, op) ∈ l.operators)
      (operand : Phrase (.whole l.operand)) (rest : Phrase (.operations l)) :
      Phrase (.operations l)
  | not (operand : Phrase (.whole .negation)) : Phrase (.whole .negation)
  | equality (operand : Phrase (.whole (.layer .equality))) : Phrase (.whole .negation)
  | minus (operand : Phrase (.whole .unary)) : Phrase (.whole .unary)
  | bang (operand : Phrase (.whole .unary)) : Phrase (.whole .unary)
  | unsigned (operand : Phrase (.whole .filter)) : Phrase (.whole .unary)
  | filter (input : Phrase (.whole .access)) (rest : Phrase .filters) : Phrase (.whole .filter)
  | noFilter : Phrase .filters
  | filterName (name : String) (rest : Phrase .filters) : Phrase .filters
  | filterCall (name : String) (args : Phrase .arguments) (rest : Phrase .filters) : Phrase .filters
  | access (receiver : Phrase (.whole .primary)) (rest : Phrase .accesses) :
      Phrase (.whole .access)
  | noAccess : Phrase .accesses
  | property (kind : TokenKind) (name : String) (named : IsProperty kind name)
      (rest : Phrase .accesses) : Phrase .accesses
  | index (position : Phrase (.whole expression)) (rest : Phrase .accesses) : Phrase .accesses
  | literal (kind : TokenKind) (value : Value) (same : IsLiteral kind value) :
      Phrase (.whole .primary)
  | call (name : String) (args : Phrase .arguments) : Phrase (.whole .primary)
  | ident (name : String) : Phrase (.whole .primary)
  | this (rest : Phrase .links) : Phrase (.whole .primary)
  | super (rest : Phrase .links) : Phrase (.whole .primary)
  | root : Phrase (.whole .primary)
  | group (inner : Phrase (.whole expression)) : Phrase (.whole .primary)
  | noLink : Phrase .links
  | linkThis (rest : Phrase .links) : Phrase .links
  | linkSuper (rest : Phrase .links) : Phrase .links
  | noArguments : Phrase .arguments
  | someArguments (first : Phrase (.whole expression)) (rest : Phrase .moreArguments) :
      Phrase .arguments
  | noMore : Phrase .moreArguments
  | more (next : Phrase (.whole expression)) (rest : Phrase .moreArguments) : Phrase .moreArguments

/-- What a derivation from a symbol means: a tree, what a repetition makes of the tree before it, the
number of levels that links go up, or the trees of arguments. -/
abbrev Symbol.Meaning : Symbol → Type
  | whole _ => Expr Unit
  | operations _ | filters | accesses => Expr Unit → Expr Unit
  | links => Nat
  | arguments | moreArguments => List (Expr Unit)

namespace Phrase

/-- The tokens that a derivation spells. -/
@[simp]
def tokens : {s : Symbol} → Phrase s → List TokenKind
  | _, chain first rest => first.tokens ++ rest.tokens
  | _, noOperation => []
  | _, operation kind _ _ operand rest => kind :: (operand.tokens ++ rest.tokens)
  | _, not operand => .word .not :: operand.tokens
  | _, equality operand => operand.tokens
  | _, minus operand => .sign .minus :: operand.tokens
  | _, bang operand => .sign .bang :: operand.tokens
  | _, unsigned operand => operand.tokens
  | _, filter input rest => input.tokens ++ rest.tokens
  | _, noFilter => []
  | _, filterName name rest => .sign .pipe :: .ident name :: rest.tokens
  | _, filterCall name args rest =>
    .sign .pipe :: .ident name :: .sign .openParen ::
      (args.tokens ++ .sign .closeParen :: rest.tokens)
  | _, access receiver rest => receiver.tokens ++ rest.tokens
  | _, noAccess => []
  | _, property kind _ _ rest => .sign .dot :: kind :: rest.tokens
  | _, index position rest =>
    .sign .openBracket :: (position.tokens ++ .sign .closeBracket :: rest.tokens)
  | _, literal kind _ _ => [kind]
  | _, call name args => .ident name :: .sign .openParen :: (args.tokens ++ [.sign .closeParen])
  | _, ident name => [.ident name]
  | _, this rest => .word .this :: rest.tokens
  | _, super rest => .word .super :: rest.tokens
  | _, root => [.sign .dollar]
  | _, group inner => .sign .openParen :: (inner.tokens ++ [.sign .closeParen])
  | _, noLink => []
  | _, linkThis rest => .sign .dot :: .word .this :: rest.tokens
  | _, linkSuper rest => .sign .dot :: .word .super :: rest.tokens
  | _, noArguments => []
  | _, someArguments first rest => first.tokens ++ rest.tokens
  | _, noMore => []
  | _, more next rest => .sign .comma :: (next.tokens ++ rest.tokens)

/-- What a derivation means. -/
def meaning : {s : Symbol} → Phrase s → s.Meaning
  | _, chain first rest => rest.meaning first.meaning
  | _, noOperation => id
  | _, operation _ op _ operand rest => fun left => rest.meaning (.binary () op left operand.meaning)
  | _, not operand => .unary () .not operand.meaning
  | _, equality operand => operand.meaning
  | _, minus operand => .unary () .neg operand.meaning
  | _, bang operand => .unary () .not operand.meaning
  | _, unsigned operand => operand.meaning
  | _, filter input rest => rest.meaning input.meaning
  | _, noFilter => id
  | _, filterName name rest => fun input => rest.meaning (.call () name [input])
  | _, filterCall name args rest => fun input => rest.meaning (.call () name (input :: args.meaning))
  | _, access receiver rest => rest.meaning receiver.meaning
  | _, noAccess => id
  | _, property _ name _ rest => fun receiver => rest.meaning (.field () receiver name)
  | _, index position rest => fun receiver => rest.meaning (.index () receiver position.meaning)
  | _, literal _ value _ => .literal () value
  | _, call name args => .call () name args.meaning
  | _, ident name => .ident () name
  | _, this rest => .scope () rest.meaning
  | _, super rest => .scope () (Nat.succ rest.meaning)
  | _, root => .root ()
  | _, group inner => inner.meaning
  | _, noLink => (0 : Nat)
  | _, linkThis rest => rest.meaning
  | _, linkSuper rest => Nat.succ rest.meaning
  | _, noArguments => ([] : List (Expr Unit))
  | _, someArguments first rest => List.cons first.meaning rest.meaning
  | _, noMore => ([] : List (Expr Unit))
  | _, more next rest => List.cons next.meaning rest.meaning

end Phrase

end Grammar

end FormulaDoc
