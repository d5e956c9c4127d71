import FormulaDoc.Proofs.Formula.Reading

/-!
# Literals of formulas

Formulas have literals for scalars only: containers and formulas have no notation inside a formula, so
that they come into an evaluation from a document or from a function.
-/
namespace FormulaDoc

namespace Expr

variable {α β : Type}

mutual

/-- All literals of an expression are scalars. -/
def ScalarLiterals : Expr α → Prop
  | literal _ value => value.isScalar
  | ident _ _ | scope _ _ | root _ => True
  | field _ receiver _ => receiver.ScalarLiterals
  | index _ receiver position => receiver.ScalarLiterals ∧ position.ScalarLiterals
  | unary _ _ operand => operand.ScalarLiterals
  | binary _ _ left right => left.ScalarLiterals ∧ right.ScalarLiterals
  | call _ _ args => AllScalarLiterals args

def AllScalarLiterals : List (Expr α) → Prop
  | [] => True
  | e :: es => e.ScalarLiterals ∧ AllScalarLiterals es

end

mutual

theorem scalarLiterals_map (f : α → β) (e : Expr α) :
    (e.map f).ScalarLiterals ↔ e.ScalarLiterals := by
  match e with
  | literal _ _ | ident _ _ | scope _ _ | root _ => exact Iff.rfl
  | field _ receiver _ => exact scalarLiterals_map f receiver
  | index _ receiver position =>
    exact and_congr (scalarLiterals_map f receiver) (scalarLiterals_map f position)
  | unary _ _ operand => exact scalarLiterals_map f operand
  | binary _ _ left right =>
    exact and_congr (scalarLiterals_map f left) (scalarLiterals_map f right)
  | call _ _ args => exact allScalarLiterals_mapAll f args

theorem allScalarLiterals_mapAll (f : α → β) (es : List (Expr α)) :
    AllScalarLiterals (mapAll f es) ↔ AllScalarLiterals es := by
  match es with
  | [] => exact Iff.rfl
  | e :: es => exact and_congr (scalarLiterals_map f e) (allScalarLiterals_mapAll f es)

end

end Expr

namespace Grammar

theorem IsLiteral.isScalar {kind : TokenKind} {value : Value} (h : IsLiteral kind value) :
    value.isScalar := by
  cases h <;> rfl

/-- What a phrase means brings no literals but scalars. -/
def Symbol.Scalar : {s : Symbol} → s.Meaning → Prop
  | whole _, e => e.ScalarLiterals
  | operations _, f | filters, f | accesses, f => ∀ e, e.ScalarLiterals → (f e).ScalarLiterals
  | links, _ => True
  | arguments, es | moreArguments, es => Expr.AllScalarLiterals es

theorem Phrase.scalar_meaning {s : Symbol} (p : Phrase s) : Symbol.Scalar p.meaning := by
  induction p with
  | chain _ _ first rest => exact rest _ first
  | operation _ _ _ _ _ operand rest => exact fun e left => rest _ ⟨left, operand⟩
  | not _ ih | equality _ ih | minus _ ih | bang _ ih | unsigned _ ih | group _ ih | call _ _ ih =>
    exact ih
  | filter _ _ input rest => exact rest _ input
  | filterName _ _ rest => exact fun e input => rest _ ⟨input, trivial⟩
  | filterCall _ _ _ args rest => exact fun e input => rest _ ⟨input, args⟩
  | access _ _ receiver rest => exact rest _ receiver
  | property _ _ _ _ rest => exact fun e receiver => rest _ receiver
  | index _ _ position rest => exact fun e receiver => rest _ ⟨receiver, position⟩
  | literal _ _ literal => exact literal.isScalar
  | noOperation | noFilter | noAccess => exact fun _ h => h
  | ident | this | super | root | noLink | linkThis | linkSuper | noArguments | noMore => trivial
  | someArguments _ _ first rest => exact ⟨first, rest⟩
  | more _ _ next rest => exact ⟨next, rest⟩

end Grammar

theorem scalarLiterals_of_parse {source : String} {e : Expr Span} (h : parse source = .ok e) :
    e.ScalarLiterals := by
  obtain ⟨tokens, p, -, -, same⟩ := exists_phrase_of_parse h
  have bare : e.bare.ScalarLiterals := same ▸ p.scalar_meaning
  exact (Expr.scalarLiterals_map _ e).mp bare

end FormulaDoc
