import FormulaDoc.Proofs.Document.Outline
import FormulaDoc.Proofs.Evaluation.Agreement
import FormulaDoc.Proofs.Evaluation.Cycle
import FormulaDoc.Proofs.Evaluation.Termination

/-!
# Two evaluations side by side

Documents of one outline, evaluated with the same functions, take the same steps as long as no formula
is asked for whose texts differ in them. What an expression does is decided by its document's outline,
and what it is told by the states of the formulas. So one evaluation follows the other, step by step,
and both come to the same end.
-/
namespace FormulaDoc

open Resolution

/-! ## Plans depend on the outline -/

namespace Plan

variable {μ : Type} (document : Value)

theorem field_outline (key : String) (place : Place) :
    field document.outline key place = field document key place := by
  cases place with
  | computed value => rfl
  | node path =>
    simp only [field, Value.get?_outline]
    rcases document.get? path with _ | value
    · rfl
    · cases value with
      | object members =>
        simp only [Option.map_some, Value.outline, Value.outlineMembers_eq_map, lookup_map_values]
        cases members.lookup key <;> rfl
      | _ => rfl

theorem element_outline (index : Int) (place : Place) :
    element document.outline index place = element document index place := by
  cases place with
  | computed value => rfl
  | node path =>
    simp only [element, Value.get?_outline]
    rcases document.get? path with _ | value
    · rfl
    · cases value with
      | array items =>
        simp only [Option.map_some, Value.outline, Value.outlineItems_eq_map, List.length_map]
      | _ => rfl

theorem select_outline (key : Value) (place : Place) :
    select document.outline key place = select document key place := by
  simp only [select, field_outline, element_outline]

theorem load_outline (place : Place) : load document.outline place = load document place := by
  cases place with
  | computed value => rfl
  | node path =>
    simp only [load, Value.get?_outline]
    cases document.get? path <;> rfl

theorem namedPlace_outline (scope : Scope) (name : String) :
    namedPlace document.outline scope name = namedPlace document scope name := by
  simp only [namedPlace, field_outline]

mutual

theorem place_outline (scope : Scope) (e : Expr μ) :
    place document.outline scope e = place document scope e := by
  match e with
  | .literal _ _ | .root _ | .scope _ _ => rfl
  | .ident _ name => exact namedPlace_outline document scope name
  | .field _ receiver name =>
    rw [place, place, place_outline scope receiver, funext (field_outline document name)]
  | .index _ receiver position =>
    rw [place, place, place_outline scope receiver, place_outline scope position,
      funext (load_outline document)]
    simp only [select_outline]
  | .unary _ op operand =>
    rw [place, place, place_outline scope operand, funext (load_outline document)]
  | .binary _ op left right =>
    rw [place, place, place_outline scope left, place_outline scope right,
      funext (load_outline document)]
  | .call _ name args => rw [place, place, values_outline scope args]

theorem values_outline (scope : Scope) (es : List (Expr μ)) :
    values document.outline scope es = values document scope es := by
  match es with
  | [] => rfl
  | e :: es =>
    rw [values, values, place_outline scope e, values_outline scope es,
      funext (load_outline document)]

end

theorem ofText_outline (scope : Scope) (source : String) :
    ofText document.outline scope source = ofText document scope source := by
  rw [ofText, ofText]
  cases parse source with
  | error e => rfl
  | ok e =>
    show place _ scope e >>= load _ = place _ scope e >>= load _
    rw [place_outline, funext (load_outline document)]

end Plan

/-! ## Passes that differ in texts only -/

/-- Two passes with the same states and errors, and with the same texts but for hidden formulas. Calls
and requests are counted by each for itself. -/
structure Pass.Alike (hidden : DocPath → Prop) (pass pass' : Pass) : Prop where
  outline : pass.tree.outline = pass'.tree.outline
  cells : ∀ path, ¬ hidden path → pass.tree.cell? path = pass'.tree.cell? path
  errors : pass.errors = pass'.errors

namespace Pass.Alike

variable {hidden : DocPath → Prop} {pass pass' : Pass}

theorem state? (h : pass.Alike hidden pass') (path : DocPath) :
    pass.state? path = pass'.state? path := by
  have within : ∀ tree : Tree, (tree.outline.cell? path).map Cell.state =
      (tree.cell? path).map Cell.state := by
    intro tree
    rw [Tree.outline, Tree.cell?_mapCells, Option.map_map]
    rfl
  rw [Pass.state?, Pass.state?, ← within, h.outline, within]

theorem reply? (h : pass.Alike hidden pass') (path : DocPath) :
    pass.reply? path = pass'.reply? path := by
  rw [Pass.reply?, Pass.reply?, h.state? path]

theorem pendingAt (h : pass.Alike hidden pass') (path : DocPath) :
    Plan.pendingAt pass.tree path = Plan.pendingAt pass'.tree path := by
  rw [Plan.pendingAt, Plan.pendingAt, ← Tree.cellsWithin_outline, h.outline,
    Tree.cellsWithin_outline]

theorem collected (h : pass.Alike hidden pass') (path : DocPath) :
    Plan.collected pass.tree path = Plan.collected pass'.tree path := by
  have within : ∀ tree : Tree, Plan.collected tree.outline path = Plan.collected tree path := by
    intro tree
    have keeps : ∀ cell : Cell, (⟨"", cell.state⟩ : Cell).state = cell.state := fun _ => rfl
    rw [Plan.collected, Plan.collected, Tree.outline, Tree.get?_mapCells]
    cases tree.get? path with
    | none => rfl
    | some part =>
      rw [Option.map_some, Option.bind_some, Option.bind_some, Tree.toValue?_mapCells keeps]
  rw [← within, h.outline, within]

theorem note (h : pass.Alike hidden pass') (asker : Option DocPath) (path : DocPath) :
    (pass.note asker path).Alike hidden (pass'.note asker path) :=
  ⟨h.outline, h.cells, h.errors⟩

theorem setState (h : pass.Alike hidden pass') (path : DocPath) (state : CellState) :
    (pass.setState path state).Alike hidden (pass'.setState path state) where
  outline := by
    show (pass.tree.setState path state).outline = (pass'.tree.setState path state).outline
    rw [Tree.outline_setState, Tree.outline_setState, h.outline]
  cells := by
    intro other seen
    show (pass.tree.setState path state).cell? other = (pass'.tree.setState path state).cell? other
    rw [Tree.cell?_setState, Tree.cell?_setState, h.cells other seen]
  errors := h.errors

theorem conclude (h : pass.Alike hidden pass') (path : DocPath)
    (outcome : Except EvalError Value) :
    (pass.conclude path outcome).Alike hidden (pass'.conclude path outcome) := by
  cases outcome with
  | ok value => exact h.setState path (.resolved value)
  | error e =>
    have failed := h.setState path (.failed e.kind)
    refine ⟨failed.outline, failed.cells, ?_⟩
    show pass.errors ++ [(path, e)] = pass'.errors ++ [(path, e)]
    rw [h.errors]

end Pass.Alike

/-- The working trees of a document and of one with another text for a formula are alike but for that
formula. -/
theorem Pass.start_reword (document : Value) (path : DocPath) (text : String) :
    (Pass.start document).Alike (· = path) (Pass.start (document.reword text path)) where
  outline := by
    show (Tree.ofValue document).outline = (Tree.ofValue (document.reword text path)).outline
    rw [Tree.outline_ofValue, Tree.outline_ofValue, Value.outline_reword]
  cells := by
    intro other seen
    show (Tree.ofValue document).cell? other = (Tree.ofValue (document.reword text path)).cell? other
    rw [Tree.cell?_ofValue, Tree.cell?_ofValue, Value.source?_reword, if_neg (Ne.symm seen)]
  errors := rfl

namespace Machine

variable {env env' : Environment} {document document' : Value} {hidden : DocPath → Prop}

/-- Two documents with one outline, evaluated where every call gives the same. -/
structure Twins (env env' : Environment) (document document' : Value) : Prop where
  outline : document.outline = document'.outline
  calls : ∀ name args pass pass',
    (Interpreter.call env name args pass).1 = (Interpreter.call env' name args pass').1

theorem Twins.ofText (twins : Twins env env' document document') (scope : Scope)
    (source : String) : Plan.ofText document scope source = Plan.ofText document' scope source := by
  rw [← Plan.ofText_outline document, twins.outline, Plan.ofText_outline document']

theorem Twins.formulas (twins : Twins env env' document document') :
    (Tree.ofValue document).formulas = (Tree.ofValue document').formulas := by
  have listed : ∀ value : Value, (Tree.ofValue value.outline).formulas = (Tree.ofValue value).formulas := by
    intro value
    rw [← Tree.outline_ofValue]
    exact Tree.cellsWithin_outline _ (Tree.ofValue value) DocPath.root
  rw [← listed document, twins.outline, listed document']

end Machine

/-- Whether a function gives the same at two times: because they are one, or because it does not look
at the clock. -/
def Function.SameAt (f : Function) (now now' : Float) : Prop :=
  ∀ args draw, f.body args ⟨now, draw⟩ = f.body args ⟨now', draw⟩

theorem Function.pure_ofText (name : String) (f : List Char → List Char) : (ofText name f).Pure :=
  fun _ _ _ _ => rfl

theorem Function.sameAt_ofText (name : String) (f : List Char → List Char) (now now' : Float) :
    (ofText name f).SameAt now now' := fun _ _ => rfl

theorem Interpreter.call_eq_of_sameAt {env env' : Environment}
    (registry : env.registry = env'.registry) (pure : ∀ f ∈ env.registry, f.Pure)
    (same : ∀ f ∈ env.registry, f.SameAt env.now env'.now) (name : String) (args : List Value)
    (pass pass' : Pass) : (call env name args pass).1 = (call env' name args pass').1 := by
  have pure' : ∀ f ∈ env'.registry, f.Pure := registry ▸ pure
  rw [Machine.call_eq_firstCall pure, Machine.call_eq_firstCall pure', firstCall, firstCall, call,
    call, ← registry]
  cases found : env.registry.lookup? name with
  | none => rfl
  | some f =>
    have mem : f ∈ env.registry := List.mem_of_find?_eq_some found
    have body : ∀ draw draw', f.body args ⟨env.now, draw⟩ = f.body args ⟨env'.now, draw'⟩ :=
      fun draw draw' => (pure f mem args env.now draw draw').trans (same f mem args draw')
    have result : ∀ draw draw', f.call args ⟨env.now, draw⟩ = f.call args ⟨env'.now, draw'⟩ := by
      intro draw draw'
      rw [Function.call, Function.call, body draw draw']
    simp only [result (env.draws _) (env'.draws (Pass.start .null).calls)]

namespace Machine

variable {env env' : Environment} {document document' : Value} {hidden : DocPath → Prop}

theorem twins_of_pure {engine : Engine} {around around' : Surroundings}
    (pure : ∀ f ∈ engine.registry, f.Pure)
    (same : ∀ f ∈ engine.registry,
      f.SameAt (engine.environment around).now (engine.environment around').now)
    (outline : document.outline = document'.outline) :
    Twins (engine.environment around) (engine.environment around') document document' :=
  ⟨outline, Interpreter.call_eq_of_sameAt rfl pure same⟩

/-! ## One evaluation follows another -/

/-- A step within an evaluation that asks for no hidden formula can be taken in the other one, too. -/
theorem Twins.step (twins : Twins env env' document document') {stack stack' : List Frame}
    {pass next pass' : Pass} (h : Step env document ⟨stack, pass⟩ ⟨stack', next⟩)
    (busy : stack ≠ []) (alike : pass.Alike hidden pass')
    (away : ∀ owner path, hidden path → (owner, path) ∉ next.needs) :
    ∃ next', Step env' document' ⟨stack, pass'⟩ ⟨stack', next'⟩ ∧ next.Alike hidden next' := by
  cases h with
  | begin _ | express _ => exact absurd rfl busy
  | @enter owner plan rest pass path source asked cell =>
    have seen : ¬ hidden path := fun hides => away owner path hides List.mem_cons_self
    have there : pass'.tree.cell? path = some ⟨source, .unresolved⟩ :=
      (alike.cells path seen).symm.trans cell
    have frame : frameOf document path source = frameOf document' path source := by
      rw [frameOf, frameOf, twins.ofText]
    refine ⟨(pass'.note owner path).setState path .inProgress, ?_, (alike.note _ _).setState _ _⟩
    rw [frame]
    exact .enter asked there
  | @reply owner plan rest pass path outcome asked reply =>
    exact ⟨pass'.note owner path, .reply asked ((alike.reply? path).symm.trans reply), alike.note _ _⟩
  | @leave path outcome rest pass =>
    exact ⟨pass'.conclude path outcome, .leave, alike.conclude path outcome⟩
  | finish => exact ⟨pass', .finish, alike⟩
  | @gather owner path next rest pass =>
    rw [alike.pendingAt]
    exact ⟨pass', .gather, alike⟩
  | @collect owner path next rest pass =>
    rw [alike.collected]
    exact ⟨pass', .collect, alike⟩
  | @call owner name args next rest pass =>
    rw [twins.calls name args pass pass']
    refine ⟨(Interpreter.call env' name args pass').2, .call, ?_⟩
    obtain ⟨calls, same⟩ := Interpreter.call_keeps env name args pass
    obtain ⟨calls', same'⟩ := Interpreter.call_keeps env' name args pass'
    rw [same, same']
    exact ⟨alike.outline, alike.cells, alike.errors⟩

theorem Twins.run (twins : Twins env env' document document') {m m' : Machine}
    (h : Run env document m m') {pass : Pass} (alike : m.pass.Alike hidden pass)
    (away : ∀ owner path, hidden path → (owner, path) ∉ m'.pass.needs) :
    ∃ pass', Run env' document' ⟨m.stack, pass⟩ ⟨m'.stack, pass'⟩ ∧ m'.pass.Alike hidden pass' := by
  induction h with
  | refl => exact ⟨pass, .refl, alike⟩
  | tail _ inner ih =>
    obtain ⟨step, busy, still⟩ := inner
    obtain ⟨before, runs, same⟩ := ih fun owner path hides mem =>
      away owner path hides (step_needs_mono step mem)
    obtain ⟨after, step', alike'⟩ := twins.step step busy same away
    exact ⟨after, runs.tail ⟨step', busy, still⟩, alike'⟩

/-- Two evaluations that begin alike and end come to the same outcome. -/
theorem Twins.outcome_eq (twins : Twins env env' document document') {m : Machine}
    {owner owner' : Option DocPath} {outcome outcome' : Except EvalError Value}
    {pass after after' : Pass} (h : Run env document m ⟨[⟨owner, .done outcome⟩], after⟩)
    (h' : Run env' document' ⟨m.stack, pass⟩ ⟨[⟨owner', .done outcome'⟩], after'⟩)
    (alike : m.pass.Alike hidden pass)
    (away : ∀ owner path, hidden path → (owner, path) ∉ after.needs) :
    outcome = outcome' ∧ after.Alike hidden after' := by
  obtain ⟨reached, runs, same⟩ := twins.run h alike away
  obtain ⟨outcomes, passes⟩ := Run.unique runs h'
  subst passes
  exact ⟨outcomes, same⟩

/-! ## Resolving a formula in both -/

variable {depth depth' : Nat}

/-- A formula that is resolved in alike passes comes to the same in both. -/
theorem Twins.resolveWithin (twins : Twins env env' document document') {pass pass' : Pass}
    (coherent : Coherent document ⟨[], pass⟩) (coherent' : Coherent document' ⟨[], pass'⟩)
    (enough : (Tree.ofValue document).formulas.length < depth)
    (enough' : (Tree.ofValue document).formulas.length < depth')
    (alike : pass.Alike hidden pass') (path : DocPath) (seen : ¬ hidden path)
    (away : ∀ owner other, hidden other →
      (owner, other) ∉ (resolveWithin env depth path pass).2.needs) :
    (resolveWithin env depth path pass).1 = (resolveWithin env' depth' path pass').1 ∧
      (resolveWithin env depth path pass).2.Alike hidden
        (resolveWithin env' depth' path pass').2 := by
  rw [twins.formulas] at enough'
  cases reply : pass.reply? path with
  | some outcome =>
    have reply' := (alike.reply? path).symm.trans reply
    rw [resolveWithin_of_reply (Nat.zero_lt_of_lt enough) reply,
      resolveWithin_of_reply (Nat.zero_lt_of_lt enough') reply']
    exact ⟨rfl, alike⟩
  | none =>
    obtain ⟨source, cell⟩ := Pass.reply?_eq_none_iff.mp reply
    have cell' := (alike.cells path seen).symm.trans cell
    obtain ⟨outcome, last, resolved, runs⟩ := run_resolveWithin coherent enough cell
    obtain ⟨outcome', last', resolved', runs'⟩ := run_resolveWithin coherent' enough' cell'
    have frame : frameOf document' path source = frameOf document path source := by
      rw [frameOf, frameOf, twins.ofText]
    rw [frame] at runs'
    rw [resolved] at away ⊢
    rw [resolved']
    simp only [Pass.needs_conclude] at away
    obtain ⟨rfl, after⟩ := twins.outcome_eq runs runs' (alike.setState path .inProgress) away
    exact ⟨rfl, after.conclude path outcome⟩

end Machine

end FormulaDoc
