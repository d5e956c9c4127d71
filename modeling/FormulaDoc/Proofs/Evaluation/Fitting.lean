import FormulaDoc.Proofs.Evaluation.Interpretation

/-!
# What plans of expressions do

A plan made for a document asks only for formulas of the document and loads only parts of it. The
errors that it ends with by itself are its own: being part of a cycle is found out by asking and never
by the expression. Where the text can be read, a syntax error is not among them.
-/
namespace FormulaDoc

namespace EvalError

/-- An error that an expression comes to by itself: that a formula has failed or is part of a cycle is
found out by asking only. -/
def Own : EvalError → Prop
  | cyclicReference _ | dependencyFailed _ _ | other _ _ => False
  | _ => True

theorem Own.kind_ne {e : EvalError} (h : e.Own) : e.kind ≠ .cyclicReference := by
  cases e with
  | cyclicReference _ | dependencyFailed _ _ | other _ _ => exact h.elim
  | _ => rintro ⟨⟩

/-- An error of its own of an expression that can be read. -/
def Native : EvalError → Prop
  | syntaxError _ => False
  | e => e.Own

theorem Native.own {e : EvalError} (h : e.Native) : e.Own := by
  cases e with
  | syntaxError _ => exact h.elim
  | _ => exact h

theorem native_of_requireBool {op : BinaryOp} {operand : Value} {e : EvalError}
    (h : op.requireBool operand = .error e) : e.Native := by
  rw [BinaryOp.requireBool] at h
  split at h <;> cases h
  trivial

theorem native_mismatch (op : BinaryOp) (left right : Value) : (op.mismatch left right).Native := by
  trivial

theorem native_of_binary {op : BinaryOp} {left right : Value} {e : EvalError}
    (h : op.apply left right = .error e) : e.Native := by
  have logic : op.decideBools left right = .error e → e.Native := by
    intro h
    rw [BinaryOp.decideBools] at h
    rcases first : op.requireBool left with e' | a <;> rw [first] at h
    · cases h
      exact native_of_requireBool first
    · rcases second : op.requireBool right with e' | b <;> rw [second] at h
      · cases h
        exact native_of_requireBool second
      · cases h
  have order : op.compareValues left right = .error e → e.Native := by
    intro h
    rw [BinaryOp.compareValues] at h
    split at h <;> cases h
    exact native_mismatch op left right
  have numbers : op.combine left right = .error e → e.Native := by
    intro h
    simp only [BinaryOp.combine] at h
    split at h <;> (try split at h) <;> cases h <;> exact native_mismatch op _ _
  cases op <;> simp only [BinaryOp.apply, reduceCtorEq] at h <;>
    first
    | exact logic h
    | exact order h
    | exact numbers h
    | (rw [BinaryOp.join] at h
       split at h <;> cases h
       exact native_mismatch _ left right)

theorem native_of_unary {op : UnaryOp} {operand : Value} {e : EvalError}
    (h : op.apply operand = .error e) : e.Native := by
  simp only [UnaryOp.apply] at h
  split at h <;> cases h
  trivial

theorem native_of_field {value : Value} {key : String} {e : EvalError}
    (h : value.field key = .error e) : e.Native := by
  simp only [Value.field] at h
  split at h <;> (try split at h) <;> cases h <;> trivial

theorem native_of_element {value : Value} {index : Int} {e : EvalError}
    (h : value.element index = .error e) : e.Native := by
  simp only [Value.element] at h
  split at h <;> (try split at h) <;> cases h <;> trivial

theorem native_of_ancestor {scope : Scope} {depth : Nat} {e : EvalError}
    (h : scope.ancestor depth = .error e) : e.Native := by
  rw [Scope.ancestor] at h
  split at h <;> cases h
  trivial

theorem native_of_call {env : Environment} {name : String} {args : List Value} {pass : Pass}
    {e : EvalError} (h : (Interpreter.call env name args pass).1 = .error e) : e.Native := by
  rw [Interpreter.call] at h
  split at h
  · cases h
    trivial
  · split at h
    · cases h
      trivial
    · split at h <;> cases h
      trivial

end EvalError

namespace Plan

variable {α β : Type} {document : Value}

/-- A plan asks for formulas of a document, loads parts of it from the beginning and ends with no
error but its own. -/
def Fits (document : Value) : Plan α → Prop
  | done (.ok _) => True
  | done (.error e) => e.Own
  | ask path next =>
    (∃ source, document.get? path = some (.formula source)) ∧ ∀ value, (next value).Fits document
  | gather path next => (∃ part, document.get? path = some part) ∧
    ∀ value, (next value).Fits document
  | await _ _ _ => False
  | call _ _ next => ∀ value, (next value).Fits document

theorem fits_done {outcome : Except EvalError α} (h : ∀ e, outcome = .error e → e.Own) :
    (done outcome).Fits document := by
  cases outcome with
  | ok _ => trivial
  | error e => exact h e rfl

theorem Fits.bind {plan : Plan α} {f : α → Plan β} (first : plan.Fits document)
    (rest : ∀ a, (f a).Fits document) : (plan >>= f).Fits document := by
  induction plan with
  | done outcome =>
    cases outcome with
    | ok a => exact rest a
    | error e => exact first
  | ask path next ih => exact ⟨first.1, fun value => ih value (first.2 value)⟩
  | gather path next ih => exact ⟨first.1, fun value => ih value (first.2 value)⟩
  | await path waiting next ih => exact first.elim
  | call name args next ih => exact fun value => ih value (first value)

/-- All errors that a plan ends with by itself are in a class. -/
def Raises (allowed : EvalError → Prop) : Plan α → Prop
  | done (.ok _) => True
  | done (.error e) => allowed e
  | ask _ next | gather _ next | await _ _ next | call _ _ next => ∀ value, (next value).Raises allowed

theorem raises_done {allowed : EvalError → Prop} {outcome : Except EvalError α}
    (h : ∀ e, outcome = .error e → allowed e) : (done outcome).Raises allowed := by
  cases outcome with
  | ok _ => trivial
  | error e => exact h e rfl

theorem Raises.bind {allowed : EvalError → Prop} {plan : Plan α} {f : α → Plan β}
    (first : plan.Raises allowed) (rest : ∀ a, (f a).Raises allowed) :
    (plan >>= f).Raises allowed := by
  induction plan with
  | done outcome =>
    cases outcome with
    | ok a => exact rest a
    | error e => exact first
  | ask _ next ih | gather _ next ih | await _ _ next ih | call _ _ next ih =>
    exact fun value => ih value (first value)

theorem Raises.mono {allowed allowed' : EvalError → Prop} (more : ∀ e, allowed e → allowed' e)
    {plan : Plan α} (h : plan.Raises allowed) : plan.Raises allowed' := by
  induction plan with
  | done outcome =>
    cases outcome with
    | ok _ => trivial
    | error e => exact more e h
  | ask _ next ih | gather _ next ih | await _ _ next ih | call _ _ next ih =>
    exact fun value => ih value (h value)

/-- A plan that fits a document and whose own errors are those of an expression that can be read. -/
structure Expressed (document : Value) (plan : Plan α) : Prop where
  fits : plan.Fits document
  raises : plan.Raises EvalError.Native

theorem expressed_done {outcome : Except EvalError α} (h : ∀ e, outcome = .error e → e.Native) :
    (done outcome).Expressed document :=
  ⟨fits_done fun e failed => (h e failed).own, raises_done h⟩

theorem expressed_pure (a : α) : (pure a : Plan α).Expressed document := ⟨trivial, trivial⟩

theorem Expressed.bind {plan : Plan α} {f : α → Plan β} (first : plan.Expressed document)
    (rest : ∀ a, (f a).Expressed document) : (plan >>= f).Expressed document :=
  ⟨first.fits.bind fun a => (rest a).fits, first.raises.bind fun a => (rest a).raises⟩

theorem expressed_fail {e : EvalError} (h : e.Native) : (fail e : Plan α).Expressed document :=
  ⟨h.own, h⟩

theorem expressed_map {outcome : Except EvalError α} (f : α → β)
    (h : ∀ e, outcome = .error e → e.Native) : (done (outcome.map f)).Expressed document := by
  cases outcome with
  | ok a => exact expressed_pure (f a)
  | error e => exact expressed_fail (h e rfl)

theorem expressed_ask {path : DocPath} {next : Value → Plan α} {source : String}
    (here : document.get? path = some (.formula source))
    (rest : ∀ value, (next value).Expressed document) : (ask path next).Expressed document :=
  ⟨⟨⟨source, here⟩, fun value => (rest value).fits⟩, fun value => (rest value).raises⟩

theorem expressed_field (key : String) (place : Place) :
    (field document key place).Expressed document := by
  cases place with
  | computed value => exact expressed_map _ fun _ => EvalError.native_of_field
  | node path =>
    simp only [field]
    split
    · exact expressed_fail trivial
    · split
      · exact expressed_pure _
      · exact expressed_fail trivial
    · next source here =>
      exact expressed_ask here fun value => expressed_map _ fun _ => EvalError.native_of_field
    · exact expressed_fail trivial

theorem expressed_element (index : Int) (place : Place) :
    (element document index place).Expressed document := by
  cases place with
  | computed value => exact expressed_map _ fun _ => EvalError.native_of_element
  | node path =>
    simp only [element]
    split
    · exact expressed_fail trivial
    · split
      · exact expressed_pure _
      · exact expressed_fail trivial
    · next source here =>
      exact expressed_ask here fun value => expressed_map _ fun _ => EvalError.native_of_element
    · exact expressed_fail trivial

theorem expressed_select (key : Value) (place : Place) :
    (select document key place).Expressed document := by
  simp only [select]
  split
  · exact expressed_element _ place
  · exact expressed_field _ place
  · exact expressed_fail trivial
  · exact expressed_fail trivial

theorem expressed_load (place : Place) : (load document place).Expressed document := by
  cases place with
  | computed value => exact expressed_pure value
  | node path =>
    simp only [load]
    split
    · exact expressed_fail trivial
    · next part here => exact ⟨⟨⟨part, here⟩, fun _ => trivial⟩, fun _ => trivial⟩

theorem expressed_namedPlace (scope : Scope) (name : String) :
    (namedPlace document scope name).Expressed document := by
  rw [namedPlace]
  split
  · exact expressed_field name _
  · exact expressed_fail trivial

theorem expressed_binary (op : BinaryOp) {left right : Plan Value} (first : left.Expressed document)
    (second : right.Expressed document) : (binary op left right).Expressed document := by
  rw [binary]
  split
  · refine first.bind fun lhs =>
      (expressed_done fun _ => EvalError.native_of_requireBool).bind fun decided => ?_
    split
    · exact expressed_pure _
    · exact second.bind fun rhs =>
        (expressed_done fun _ => EvalError.native_of_requireBool).bind fun _ => expressed_pure _
  · exact first.bind fun lhs =>
      second.bind fun rhs => expressed_done fun _ => EvalError.native_of_binary

variable {μ : Type}

mutual

theorem expressed_place (scope : Scope) (e : Expr μ) :
    (place document scope e).Expressed document := by
  match e with
  | .literal _ _ | .root _ => exact expressed_pure _
  | .ident _ name => exact expressed_namedPlace scope name
  | .scope _ depth =>
    exact (expressed_done fun _ => EvalError.native_of_ancestor).bind fun _ => expressed_pure _
  | .field _ receiver name => exact (expressed_place scope receiver).bind (expressed_field name)
  | .index _ receiver position =>
    exact (expressed_place scope receiver).bind fun base =>
      ((expressed_place scope position).bind expressed_load).bind fun key => expressed_select key base
  | .unary _ op operand =>
    exact ((expressed_place scope operand).bind expressed_load).bind fun _ =>
      (expressed_done fun _ => EvalError.native_of_unary).bind fun _ => expressed_pure _
  | .binary _ op left right =>
    exact (expressed_binary op ((expressed_place scope left).bind expressed_load)
      ((expressed_place scope right).bind expressed_load)).bind fun _ => expressed_pure _
  | .call _ name args =>
    exact (expressed_values scope args).bind fun _ =>
      Expressed.bind ⟨fun _ => trivial, fun _ => trivial⟩ fun _ => expressed_pure _

theorem expressed_values (scope : Scope) (es : List (Expr μ)) :
    (values document scope es).Expressed document := by
  match es with
  | [] => exact expressed_pure _
  | e :: es =>
    exact ((expressed_place scope e).bind expressed_load).bind fun _ =>
      (expressed_values scope es).bind fun _ => expressed_pure _

end

theorem expressed_value (scope : Scope) (e : Expr μ) : (value document scope e).Expressed document :=
  (expressed_place scope e).bind expressed_load

theorem fits_ofText (scope : Scope) (source : String) :
    (ofText document scope source).Fits document := by
  rw [ofText]
  split
  · exact fits_done fun e same => by cases same; trivial
  · exact (expressed_value scope _).fits

end Plan

end FormulaDoc
