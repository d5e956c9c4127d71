import FormulaDoc.Evaluation.Resolution
import FormulaDoc.Proofs.Document.Content
import FormulaDoc.Proofs.Formula.Reading

/-!
# What a formula evaluates to

Evaluation takes no account of the marks of an expression, so that it depends on a text only through
what the text's derivation means: layout, spans and superfluous parentheses make no difference.
-/
namespace FormulaDoc

variable {α β : Type} (f : α → β)

namespace Expr

theorem literalStep?_map (e : Expr α) : (e.map f).literalStep? = e.literalStep? := by
  cases e with
  | literal _ value => cases value <;> rfl
  | _ => rfl

theorem staticPath?_map (e : Expr α) : (e.map f).staticPath? = e.staticPath? := by
  match e with
  | scope _ _ => rfl
  | field _ receiver name => rw [map, staticPath?, staticPath?, staticPath?_map receiver]
  | index _ receiver position =>
    rw [map, staticPath?, staticPath?, staticPath?_map receiver, literalStep?_map f position]
  | literal _ _ | ident _ _ | root _ | unary _ _ _ | binary _ _ _ _ | call _ _ _ => rfl

end Expr

namespace Interpreter

variable (env : Environment) (ask : DocPath → Eval Value) (scope : Scope)

theorem valueOf_map (e : Expr α) (place : Eval Place) :
    valueOf ask scope (e.map f) place = valueOf ask scope e place := by
  rw [valueOf, valueOf, Expr.staticPath?_map]

mutual

theorem place_map (e : Expr α) : place env ask scope (e.map f) = place env ask scope e := by
  match e with
  | .literal _ _ | .ident _ _ | .scope _ _ | .root _ => rfl
  | .field _ receiver _ => rw [Expr.map, place, place, place_map receiver]
  | .index _ receiver position =>
    rw [Expr.map, place, place, place_map receiver, place_map position, valueOf_map]
  | .unary _ _ operand => rw [Expr.map, place, place, place_map operand, valueOf_map]
  | .binary _ _ left right =>
    rw [Expr.map, place, place, place_map left, place_map right, valueOf_map, valueOf_map]
  | .call _ _ args => rw [Expr.map, place, place, values_mapAll args]

theorem values_mapAll (es : List (Expr α)) :
    values env ask scope (Expr.mapAll f es) = values env ask scope es := by
  match es with
  | [] => rfl
  | e :: es => rw [Expr.mapAll, values, values, place_map e, valueOf_map, values_mapAll es]

end

theorem value_bare (e : Expr α) : value env ask scope e.bare = value env ask scope e := by
  rw [value, value, Expr.bare, place_map, valueOf_map]

/-- The name of a formula that is not settled yet comes to what the formula comes to. -/
theorem value_ident {container : DocPath} {name source : String} {members : List (String × Tree)}
    {pass pass' : Pass} {value : Value} (own : scope.containerPath? = some container)
    (inside : pass.tree.get? container = some (.object members))
    (member : members.lookup name = some (.formula ⟨source, .unresolved⟩))
    (asked : ask (container.key name) pass = (.ok value, pass'))
    (kept : pass'.tree.cell? (container.key name) = some ⟨source, .resolved value⟩) :
    Interpreter.value env ask scope (.ident () name) pass = (.ok value, pass') := by
  have found : pass.tree.get? (container.key name) = some (.formula ⟨source, .unresolved⟩) := by
    rw [DocPath.key, DocPath.child, Tree.get?_append, inside]
    show (members.lookup name).bind (·.get? []) = _
    rw [member]
    rfl
  have pending : Tree.pending (container.key name) (.formula ⟨source, .unresolved⟩) =
      [container.key name] := rfl
  have loaded : (pass'.tree.get? (container.key name)).bind Tree.toValue? = some value := by
    rw [Tree.cell?_eq_some_iff.mp kept]
    rfl
  have place : scope.namedPlace ask name pass = (.ok (.node (container.key name)), pass) := by
    rw [Scope.namedPlace, own]
    simp only [Place.field, Eval.bind_apply, Eval.read, inside, member, Eval.pure_apply]
  rw [Interpreter.value, valueOf]
  simp only [Expr.staticPath?, Interpreter.place, Eval.bind_apply, place, Place.load, Eval.read, found,
    pending, Place.askAll, asked, Eval.pure_apply, loaded]

end Interpreter

open Grammar

/-- An operand that only an access can be tighter than, as a whole formula. -/
def Grammar.Phrase.ofAccess (p : Phrase (.whole .access)) : Phrase (.whole expression) :=
  let operand : Phrase (.whole .negation) := .equality (.chain (.chain (.chain (.chain
    (.unsigned (.filter p .noFilter)) .noOperation) .noOperation) .noOperation) .noOperation)
  .chain (.chain operand .noOperation) .noOperation

/-- A text is read as what a derivation of its tokens means. -/
theorem exists_parse_of_phrase {source : String} {tokens : List Token}
    (lexed : scan source = .ok tokens) (p : Phrase (.whole expression))
    (spelled : p.tokens = tokens.map Token.kind) :
    ∃ e, parse source = .ok e ∧ e.bare = p.meaning := by
  rw [parse_eq_formula lexed]
  exact Parser.formula_of_phrase (endToken source).span p spelled

namespace Resolution

variable {env : Environment}

/-- A formula evaluates as what it is read as. -/
theorem evaluate_of_parse {ask : DocPath → Eval Value} {scope : Scope} {source : String}
    {e : Expr Span} (parsed : parse source = .ok e) :
    evaluate env ask scope source = Interpreter.value env ask scope e.bare := by
  rw [evaluate, parsed, Interpreter.value_bare]

/-- A formula evaluates as what its derivation means. -/
theorem evaluate_of_phrase {ask : DocPath → Eval Value} {scope : Scope} {source : String}
    {tokens : List Token} (lexed : scan source = .ok tokens) (p : Phrase (.whole expression))
    (spelled : p.tokens = tokens.map Token.kind) :
    evaluate env ask scope source = Interpreter.value env ask scope p.meaning := by
  obtain ⟨e, parsed, same⟩ := exists_parse_of_phrase lexed p spelled
  rw [evaluate_of_parse parsed, same]

/-- A name after the root evaluates as that member of the document. -/
theorem evaluate_rootField {source name : String} {first second third : Span}
    (lexed : scan source =
      .ok [⟨.sign .dollar, first⟩, ⟨.sign .dot, second⟩, ⟨.ident name, third⟩])
    (ask : DocPath → Eval Value) (scope : Scope) :
    evaluate env ask scope source =
      Interpreter.value env ask scope (.field () (.root ()) name) :=
  evaluate_of_phrase lexed (.ofAccess (.access .root (.property _ _ (.name name) .noAccess))) rfl

/-- A formula that evaluates to a value gives it and keeps it. -/
theorem resolveWithin_eq_of_evaluate {depth : Nat} {path : DocPath} {pass pass' : Pass}
    {source : String} {value : Value} (cell : pass.tree.cell? path = some ⟨source, .unresolved⟩)
    (evaluated : evaluate env (askFor (some path) (resolveWithin env depth)) (Scope.ofFormula path)
      source (pass.setState path .inProgress) = (.ok value, pass')) :
    resolveWithin env (depth + 1) path pass =
      (.ok value, pass'.setState path (.resolved value)) := by
  have began : resolveWithin env (depth + 1) path pass =
      start env (resolveWithin env depth) (Scope.ofFormula path) path source pass := by
    simp only [resolveWithin, settle, Eval.bind_apply, Eval.read, cell]
  rw [began, start, evaluated]
  rfl

theorem resolveWithin_of_evaluate {depth : Nat} {path : DocPath} {pass pass' : Pass} {source : String}
    {value : Value} (cell : pass.tree.cell? path = some ⟨source, .unresolved⟩)
    (evaluated : evaluate env (askFor (some path) (resolveWithin env depth)) (Scope.ofFormula path)
      source (pass.setState path .inProgress) = (.ok value, pass')) :
    (resolveWithin env (depth + 1) path pass).2 = pass'.setState path (.resolved value) :=
  congrArg Prod.snd (resolveWithin_eq_of_evaluate cell evaluated)

end Resolution

end FormulaDoc
