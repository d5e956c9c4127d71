import FormulaDoc.Proofs.Evaluation.Meaning
import FormulaDoc.Proofs.Evaluation.Order
import FormulaDoc.Proofs.Evaluation.Simulation

/-!
# Formulas that are not needed

A formula that nothing asks for has no influence: whatever its text is, an expression comes to the same
value or finds the same errors. With the formulas of a document it is the same, if what a formula asks
for is taken from where it is resolved first; later on a container may be loaded whose formulas are
resolved already, and these are not asked for again.
-/
namespace FormulaDoc

open Relation Resolution

namespace Engine

open Machine

variable {engine : Engine} {around around' : Surroundings} {document : Value}

/-- An expression comes to the same with any text for a formula that its run does not ask for. -/
theorem evaluateExpression_reword (pure : ∀ f ∈ engine.registry, f.Pure)
    (same : ∀ f ∈ engine.registry,
      f.SameAt (engine.environment around).now (engine.environment around').now)
    (expression text : String) (path : DocPath)
    (away : ∀ asker, (asker, path) ∉ (engine.runExpression around expression document).2.needs) :
    engine.evaluateExpression around' expression (document.reword text path) =
      engine.evaluateExpression around expression document := by
  have twins : Twins (engine.environment around) (engine.environment around') document
      (document.reword text path) := twins_of_pure pure same (document.outline_reword text path).symm
  have runs := run_evaluate (engine.environment around) expression document
    (Nat.lt_succ_self _ : _ < depthOf (Pass.start document).tree)
  have runs' := run_evaluate (engine.environment around') expression (document.reword text path)
    (Nat.lt_succ_self _ : _ < depthOf (Pass.start (document.reword text path)).tree)
  rw [← twins.ofText] at runs'
  have unasked : ∀ owner other, other = path →
      (owner, other) ∉ (engine.runExpression around expression document).2.needs := by
    rintro owner other rfl
    exact away owner
  obtain ⟨outcome, after⟩ : (engine.runExpression around expression document).1 =
        (engine.runExpression around' expression (document.reword text path)).1 ∧
      (engine.runExpression around expression document).2.Alike (· = path)
        (engine.runExpression around' expression (document.reword text path)).2 :=
    twins.outcome_eq runs runs' (Pass.start_reword document path text) unasked
  rw [evaluateExpression, evaluateExpression]
  rcases ran : engine.runExpression around expression document with ⟨ended, last⟩
  rcases ran' : engine.runExpression around' expression (document.reword text path) with
    ⟨ended', last'⟩
  rw [ran, ran'] at outcome after
  obtain rfl : ended = ended' := outcome
  have reports : last'.report = last.report := by
    rw [Pass.report, Pass.report, after.errors]
  cases ended <;> simp only [reports]

/-- Traversal leaves a formula in the state that it comes to when it is resolved first. -/
theorem state?_finalPass (pure : ∀ f ∈ engine.registry, f.Pure)
    (wellFormed : document.WellFormed) (path : DocPath) :
    (engine.finalPass around document).state? path =
      (resolve (engine.environment around) path (Pass.start document)).2.state? path := by
  let resolved := fun pass path => (resolve (engine.environment around) path pass).2
  have each : ∀ pass path, Coherent document ⟨[], pass⟩ →
      Execution (engine.environment around) document ⟨[], pass⟩ ⟨[], resolved pass path⟩ ∧
        ∀ state, (resolved pass path).state? path = some state → state.IsSettled :=
    fun _ path coherent => execution_resolve coherent path
  let order := (Tree.ofValue document).formulas
  have complete : Complete (engine.environment around) document
      ((path :: order).foldl resolved (Pass.start document)) :=
    complete_foldl each fun _ _ formula => List.mem_cons_of_mem _ (mem_formulas_of_get? formula)
  have first := each (Pass.start document) path (start_coherent document)
  have kept := execution_coherent first.1 (start_coherent document)
  have later := (execution_foldl each order kept).1
  rw [(engine.complete_finalPass around document).state?_eq complete pure wellFormed path]
  show (order.foldl resolved (resolved (Pass.start document) path)).state? path =
    (resolved (Pass.start document) path).state? path
  rcases here : (resolved (Pass.start document) path).state? path with _ | state
  · by_contra other
    obtain ⟨state, there⟩ := Option.ne_none_iff_exists'.mp other
    obtain ⟨before, found⟩ := kept.exists_state?_iff.mpr
      ((execution_coherent later kept).exists_state?_iff.mp ⟨state, there⟩)
    rw [here] at found
    cases found
  · exact execution_keeps_settled later kept here (first.2 state here)

/-- A formula comes to the same end with any text for another one that is not asked for when it is
resolved first. -/
theorem state?_finalPass_reword (pure : ∀ f ∈ engine.registry, f.Pure)
    (same : ∀ f ∈ engine.registry,
      f.SameAt (engine.environment around).now (engine.environment around').now)
    (wellFormed : document.WellFormed) (text : String) {formula path : DocPath}
    (apart : formula ≠ path)
    (away : ∀ asker, (asker, path) ∉
      (resolve (engine.environment around) formula (Pass.start document)).2.needs) :
    (engine.finalPass around' (document.reword text path)).state? formula =
      (engine.finalPass around document).state? formula := by
  have outline : document.outline = (document.reword text path).outline :=
    (document.outline_reword text path).symm
  have twins : Twins (engine.environment around) (engine.environment around') document
      (document.reword text path) := twins_of_pure pure same outline
  have wellFormed' : (document.reword text path).WellFormed := by
    rw [← Value.wellFormed_outline, ← outline, Value.wellFormed_outline]
    exact wellFormed
  have enough : (Tree.ofValue document).formulas.length < depthOf (Pass.start document).tree :=
    Nat.lt_succ_self _
  have enough' : (Tree.ofValue document).formulas.length <
      depthOf (Pass.start (document.reword text path)).tree := by
    rw [twins.formulas]
    exact Nat.lt_succ_self _
  have unasked : ∀ owner other, other = path → (owner, other) ∉
      (resolve (engine.environment around) formula (Pass.start document)).2.needs := by
    rintro owner other rfl
    exact away owner
  have resolved := twins.resolveWithin (start_coherent document) (start_coherent _) enough enough'
    (Pass.start_reword document path text) formula apart unasked
  rw [state?_finalPass pure wellFormed formula, state?_finalPass pure wellFormed' formula]
  exact (resolved.2.state? formula).symm

/-- A formula that is not asked for has no influence. An expression whose run does not ask for a formula
comes to the same value or the same failure with any other text for it, and so does every formula of a
document that does not ask for it, directly or through others, when it is the first one to be resolved:
`evaluate` leaves it in the same state. -/
theorem unasked_texts_are_irrelevant (engine : Engine) (around around' : Surroundings)
    (document : Value) (path : DocPath) (text : String) (pure : ∀ f ∈ engine.registry, f.Pure)
    (same : ∀ f ∈ engine.registry,
      f.SameAt (engine.environment around).now (engine.environment around').now)
    (wellFormed : document.WellFormed) :
    (∀ expression,
      (∀ asker, (asker, path) ∉ (engine.runExpression around expression document).2.needs) →
      engine.evaluateExpression around' expression (document.reword text path) =
        engine.evaluateExpression around expression document) ∧
    ∀ formula, formula ≠ path →
      (∀ asker, (asker, path) ∉
        (resolve (engine.environment around) formula (Pass.start document)).2.needs) →
      (engine.finalPass around' (document.reword text path)).state? formula =
        (engine.finalPass around document).state? formula := by
  constructor
  · intro expression away
    exact evaluateExpression_reword pure same expression text path away
  · intro formula apart away
    exact state?_finalPass_reword pure same wellFormed text apart away

open Grammar in
/-- A formula that takes the value of another one, and a third one that it does not ask for. -/
theorem unasked_texts_are_irrelevant_upper :
    let engine : Engine := ⟨[Function.upper], FormulaKeys.default, none⟩
    let around : Surroundings := ⟨0, id⟩
    let around' : Surroundings := ⟨1, fun calls => calls + 7⟩
    let document : Value := .object [("a", .formula "b"), ("b", .formula "'x'"),
      ("c", .formula "UPPER(a)")]
    (∀ f ∈ engine.registry, f.Pure) ∧
    (∀ f ∈ engine.registry,
      f.SameAt (engine.environment around).now (engine.environment around').now) ∧
    document.WellFormed ∧
    engine.evaluateExpression around' "b" (document.reword "1 +" [.key "c"]) =
      engine.evaluateExpression around "b" document ∧
    (engine.finalPass around' (document.reword "1 +" [.key "c"])).state? [.key "a"] =
      (engine.finalPass around document).state? [.key "a"] := by
  intro engine around around' document
  have pure : ∀ f ∈ engine.registry, f.Pure :=
    List.forall_mem_singleton.mpr (Function.pure_ofText _ _)
  have same : ∀ f ∈ engine.registry,
      f.SameAt (engine.environment around).now (engine.environment around').now :=
    List.forall_mem_singleton.mpr (Function.sameAt_ofText _ _ _ _)
  have wellFormed : document.WellFormed := by
    simp [document, Value.WellFormed, Value.MembersWellFormed]
  let env := engine.environment around
  have letter (ask : DocPath → Eval Value) (scope : Scope) :
      Resolution.evaluate env ask scope "'x'" =
        Interpreter.value env ask scope (.literal () (.string "x")) :=
    have lexed : scan "'x'" = .ok [⟨.string "x", ⟨0, 3⟩⟩] := by cbv
    evaluate_of_phrase lexed (.ofAccess (.access (.literal _ _ (.string "x")) .noAccess)) rfl
  have name (ask : DocPath → Eval Value) (scope : Scope) :
      Resolution.evaluate env ask scope "b" = Interpreter.value env ask scope (.ident () "b") :=
    have lexed : scan "b" = .ok [⟨.ident "b", ⟨0, 1⟩⟩] := by cbv
    evaluate_of_phrase lexed (.ofAccess (.access (.ident "b") .noAccess)) rfl
  let first : DocPath := [.key "a"]
  let second : DocPath := [.key "b"]
  let letterPass (pass : Pass) : Pass :=
    (pass.setState second .inProgress).setState second (.resolved (.string "x"))
  -- the second formula is a letter, which asks for nothing
  have begins (depth : Nat) (pass : Pass)
      (cell : pass.tree.cell? second = some ⟨"'x'", .unresolved⟩) :
      resolveWithin env (depth + 1) second pass = (.ok (.string "x"), letterPass pass) :=
    resolveWithin_eq_of_evaluate cell (by rw [letter]; rfl)
  let noted := (Pass.start document).note none second
  have asks : engine.runExpression around "b" document =
      (.ok (.string "x"), letterPass noted) := by
    show Resolution.evaluate env (askFor none (resolveWithin env 4)) Scope.root "b" _ = _
    rw [name]
    exact Interpreter.value_ident env _ _ rfl rfl rfl (begins 3 noted rfl) rfl
  let waiting := ((Pass.start document).setState first .inProgress).note (some first) second
  have follows : (resolve env first (Pass.start document)).2 =
      (letterPass waiting).setState first (.resolved (.string "x")) := by
    refine resolveWithin_of_evaluate rfl ?_
    rw [name]
    exact Interpreter.value_ident env _ _ rfl rfl rfl (begins 2 waiting rfl) rfl
  -- both runs ask for the second formula and for nothing else
  have different {asker owner : Option DocPath} : (asker, [.key "c"]) ∉ [(owner, second)] := by
    intro asked
    have paths : [.key "c"] = second := congrArg Prod.snd (List.mem_singleton.mp asked)
    exact absurd paths (by decide)
  have results := unasked_texts_are_irrelevant engine around around' document [.key "c"] "1 +" pure same
    wellFormed
  refine ⟨pure, same, wellFormed, results.1 "b" ?_, results.2 first (by decide) ?_⟩
  · intro asker
    rw [asks]
    exact different
  · intro asker
    have needs : (resolve env first (Pass.start document)).2.needs = [(some first, second)] := by
      rw [follows]
      rfl
    show (asker, [.key "c"]) ∉ (resolve env first (Pass.start document)).2.needs
    rw [needs]
    exact different

open Grammar in
/-- A formula may take the value of another one without ever asking for it: it loads a container whose
formulas are resolved already. -/
theorem evaluate_loads_unasked :
    ¬ ∀ (engine : Engine) (around : Surroundings) (document : Value) (formula path : DocPath)
      (text : String), (∀ f ∈ engine.registry, f.Pure) → document.WellFormed → formula ≠ path →
      ¬ TransGen (engine.finalPass around document).AskedFor formula path →
      (engine.finalPass around (document.reword text path)).state? formula =
        (engine.finalPass around document).state? formula := by
  intro claimed
  let engine : Engine := ⟨[], FormulaKeys.default, some 0⟩
  let around : Surroundings := ⟨0, id⟩
  let env := engine.environment around
  let document (text : String) : Value :=
    .object [("o", .object [("q", .formula text)]), ("p", .formula "$.o")]
  let inner : DocPath := [.key "o", .key "q"]
  let outer : DocPath := [.key "p"]
  have first (ask : DocPath → Eval Value) (scope : Scope) :
      Resolution.evaluate env ask scope "'a'" =
        Interpreter.value env ask scope (.literal () (.string "a")) :=
    have lexed : scan "'a'" = .ok [⟨.string "a", ⟨0, 3⟩⟩] := by cbv
    evaluate_of_phrase lexed (.ofAccess (.access (.literal _ _ (.string "a")) .noAccess)) rfl
  have second (ask : DocPath → Eval Value) (scope : Scope) :
      Resolution.evaluate env ask scope "'b'" =
        Interpreter.value env ask scope (.literal () (.string "b")) :=
    have lexed : scan "'b'" = .ok [⟨.string "b", ⟨0, 3⟩⟩] := by cbv
    evaluate_of_phrase lexed (.ofAccess (.access (.literal _ _ (.string "b")) .noAccess)) rfl
  have whole (ask : DocPath → Eval Value) (scope : Scope) :
      Resolution.evaluate env ask scope "$.o" =
        Interpreter.value env ask scope (.field () (.root ()) "o") :=
    have lexed : scan "$.o" = .ok [⟨.sign .dollar, ⟨0, 1⟩⟩, ⟨.sign .dot, ⟨1, 2⟩⟩,
        ⟨.ident "o", ⟨2, 3⟩⟩] := by cbv
    evaluate_of_phrase lexed (.ofAccess (.access .root (.property _ _ (.name "o") .noAccess))) rfl
  -- the inner formula is resolved to its letter, and the outer one loads it without a request
  have final (text letter : String)
      (reads : ∀ ask scope, Resolution.evaluate env ask scope text =
        Interpreter.value env ask scope (.literal () (.string letter))) :
      (engine.finalPass around (document text)).needs = [] ∧
      (engine.finalPass around (document text)).state? outer =
        some (.resolved (.object [("q", .string letter)])) := by
    let known := ((Pass.start (document text)).setState inner .inProgress).setState inner
      (.resolved (.string letter))
    let last := (known.setState outer .inProgress).setState outer
      (.resolved (.object [("q", .string letter)]))
    have begins : (resolveWithin env 4 inner (Pass.start (document text))).2 = known :=
      resolveWithin_of_evaluate rfl (by rw [reads]; rfl)
    have ends : (resolveWithin env 4 outer known).2 = last :=
      resolveWithin_of_evaluate rfl (by rw [whole]; rfl)
    have passes : engine.finalPass around (document text) = last := by
      have order : (Pass.start (document text)).tree.formulas = [inner, outer] := rfl
      rw [finalPass, Traversal.visitDocument_eq, order, ← ends, ← begins]
      rfl
    rw [passes]
    exact ⟨rfl, rfl⟩
  obtain ⟨none, before⟩ := final "'a'" "a" first
  obtain ⟨_, after⟩ := final "'b'" "b" second
  have pure : ∀ f ∈ engine.registry, f.Pure := fun _ mem => (List.not_mem_nil mem).elim
  have wellFormed : (document "'a'").WellFormed := by
    simp [document, Value.WellFormed, Value.MembersWellFormed]
  have unasked : ¬ TransGen (engine.finalPass around (document "'a'")).AskedFor outer inner := by
    intro way
    obtain ⟨other, asked, _⟩ := TransGen.head'_iff.mp way
    rw [Pass.AskedFor, none] at asked
    cases asked
  have unchanged : (engine.finalPass around (document "'b'")).state? outer = _ :=
    claimed engine around (document "'a'") outer inner "'b'" pure wellFormed (by decide) unasked
  rw [before, after] at unchanged
  simp at unchanged

end Engine

end FormulaDoc
