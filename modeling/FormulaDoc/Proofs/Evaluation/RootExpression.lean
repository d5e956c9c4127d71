import FormulaDoc.Proofs.Evaluation.Causality
import FormulaDoc.Proofs.Evaluation.Meaning
import FormulaDoc.Proofs.Evaluation.Reference
import FormulaDoc.Proofs.Evaluation.Simulation

/-!
# A document as an expression

The expression `$` in a document has the document's own value. It asks for all formulas in document
order and stops at the first failure, where the evaluation of the document goes on with the next
formula. Up to there the two do the same, so that they succeed together, with one value, and what the
expression finds is the beginning of what the evaluation finds.
-/
namespace FormulaDoc

open Resolution

namespace Plan

theorem pendingAt_start (document : Value) :
    pendingAt (Pass.start document).tree DocPath.root = (Tree.ofValue document).formulas := by
  have fresh : (Pass.start document).tree =
      (Tree.ofValue document).mapCells fun cell => { cell with state := .unresolved } := by
    rw [← Tree.blank_eq_mapCells, Tree.blank_ofValue]
    rfl
  rw [fresh]
  apply Tree.cellsWithin_mapCells
  exact fun _ => rfl

open Grammar in
/-- The expression `$` loads the whole document. -/
theorem evaluate_root (env : Environment) (ask : DocPath → Eval Value) (scope : Scope)
    (pass : Pass) :
    evaluate env ask scope "$" pass =
      settleNode ask DocPath.root (pendingAt pass.tree DocPath.root) pass := by
  have lexed : scan "$" = .ok [⟨.sign .dollar, ⟨0, 1⟩⟩] := by cbv
  have loads : evaluate env ask scope "$" = Place.load ask (.node DocPath.root) :=
    evaluate_of_phrase lexed (.ofAccess (.access .root .noAccess)) rfl
  rw [loads]
  simp only [Place.load, settleNode, Eval.bind_apply, Eval.read, DocPath.root, Tree.get?, pendingAt,
    Tree.cellsWithin, Tree.pending]
  rcases Place.askAll ask (pass.tree.cellPaths (fun state => !state.isResolved) []) pass with
    ⟨_ | _, after⟩
  · rfl
  · simp only [collect, collected, Tree.get?]
    cases (some after.tree).bind Tree.toValue? <;> rfl

end Plan

namespace Machine

variable {env env' : Environment} {document : Value} {depth depth' : Nat}

/-! ## Asking again -/

theorem reply?_conclude {pass : Pass} {path : DocPath} {state : CellState}
    (here : pass.state? path = some state) (outcome : Except EvalError Value) :
    (pass.conclude path outcome).reply? path = some (verdict path outcome) := by
  rw [Pass.reply?, Pass.state?_conclude, if_pos rfl, here]
  cases outcome <;> rfl

/-- Once a formula is resolved, whoever asks for it again gets the same. -/
theorem reply?_resolveWithin {pass : Pass} (shape : pass.tree.blank = Tree.ofValue document)
    (path : DocPath) :
    (resolveWithin env (depth + 1) path pass).2.reply? path =
      some (resolveWithin env (depth + 1) path pass).1 := by
  simp only [resolveWithin]
  cases reply : pass.reply? path with
  | some outcome =>
    rw [settle_of_reply reply]
    exact reply
  | none =>
    obtain ⟨source, cell⟩ := Pass.reply?_eq_none_iff.mp reply
    have steady : Steady document (resolveWithin env depth) := steady_resolveWithin env depth
    have begun : (pass.setState path .inProgress).tree.blank = Tree.ofValue document :=
      (Tree.blank_setState _ _ _).trans shape
    have kept := @Plan.steady_run _ env _ document (steady_askFor steady (some path))
      (frameOf document path source).plan _ begun
    obtain ⟨state, after⟩ := Tree.cell?_of_shape kept (Tree.source_of_shape shape cell)
    rw [settle_of_unresolved cell, start_eq steady path source shape]
    exact reply?_conclude (Pass.state?_of_cell? after) _

/-- What is said of a formula that has come to an end is what its state keeps. -/
theorem settled_of_reply {pass : Pass} {path : DocPath} {outcome : Except EvalError Value}
    {state : CellState} (reply : pass.reply? path = some outcome)
    (here : pass.state? path = some state) (settled : state.IsSettled) :
    (∃ value, outcome = .ok value ∧ pass.state? path = some (.resolved value)) ∨
      ∃ e kind, outcome = .error e ∧ pass.state? path = some (.failed kind) := by
  rw [Pass.reply?, here] at reply
  cases state with
  | unresolved | inProgress => exact settled.elim
  | resolved value =>
    cases reply
    exact .inl ⟨value, rfl, here⟩
  | failed kind =>
    cases reply
    exact .inr ⟨_, kind, rfl, here⟩

theorem Accounted.errors_ne_nil {pass : Pass} (h : Accounted pass) {path : DocPath}
    {kind : FaultKind} (failed : pass.state? path = some (.failed kind)) : pass.errors ≠ [] := by
  obtain ⟨e, mem, _⟩ := (h.recorded path kind).mp failed
  exact List.ne_nil_of_mem mem

/-! ## Asking for all formulas and resolving each -/

theorem Coherent.note {pass : Pass} (h : Coherent document ⟨[], pass⟩) (asker : Option DocPath)
    (path : DocPath) : Coherent document ⟨[], pass.note asker path⟩ :=
  ⟨h.shape, h.active, h.nodup, h.linked, h.fits⟩

/-- To ask for a formula is to resolve it, but for the request that is noted. It comes to a value that it
keeps, or it fails and an error is on record. -/
theorem ask_cases (twins : Twins env env' document document)
    (enough : (Tree.ofValue document).formulas.length < depth + 1)
    (enough' : (Tree.ofValue document).formulas.length < depth') {path : DocPath}
    (formula : ∃ source, document.get? path = some (.formula source)) {pass pass' : Pass}
    (reached : Execution env document ⟨[], Pass.start document⟩ ⟨[], pass⟩)
    (coherent' : Coherent document ⟨[], pass'⟩) (alike : pass.Alike (fun _ => False) pass') :
    let resolved := resolveWithin env (depth + 1) path pass
    let asked := askFor none (resolveWithin env' depth') path pass'
    resolved.2.Alike (fun _ => False) asked.2 ∧ Coherent document ⟨[], asked.2⟩ ∧
      ((∃ value, asked.1 = .ok value ∧ resolved.2.state? path = some (.resolved value)) ∨
        ∃ e, asked.1 = .error e ∧ resolved.2.errors ≠ []) := by
  intro resolved asked
  have coherent := execution_coherent reached (start_coherent document)
  have noted := coherent'.note none path
  obtain ⟨resolving, settled⟩ : Execution env document ⟨[], pass⟩ ⟨[], resolved.2⟩ ∧ _ :=
    execution_resolveWithin coherent enough path
  have resolving' : Execution env' document ⟨[], pass'.note none path⟩ ⟨[], asked.2⟩ :=
    (execution_resolveWithin noted enough' path).1
  have kept := execution_coherent resolving coherent
  obtain ⟨outcome, after⟩ := twins.resolveWithin coherent noted enough enough'
    ⟨alike.outline, alike.cells, alike.errors⟩ path id fun _ _ hides => hides.elim
  have outcome : resolved.1 = asked.1 := outcome
  obtain ⟨state, here⟩ := kept.exists_state?_iff.mpr formula
  have reply : resolved.2.reply? path = some resolved.1 := reply?_resolveWithin coherent.shape path
  refine ⟨after, execution_coherent resolving' noted, ?_⟩
  rcases settled_of_reply reply here (settled state here) with
    ⟨value, ok, held⟩ | ⟨e, kind, error, failed⟩
  · exact .inl ⟨value, outcome.symm.trans ok, held⟩
  · have accounted := execution_accounted (reached.trans resolving) (start_coherent document)
      (start_accounted document)
    exact .inr ⟨e, outcome.symm.trans error, accounted.errors_ne_nil failed⟩

/-- To ask for formulas one after another is to resolve each of them, up to the first that fails. -/
theorem askAll_cases (twins : Twins env env' document document)
    (enough : (Tree.ofValue document).formulas.length ≤ depth)
    (enough' : (Tree.ofValue document).formulas.length < depth') {order : List DocPath}
    (formulas : ∀ path ∈ order, ∃ source, document.get? path = some (.formula source))
    {pass pass' : Pass} (reached : Execution env document ⟨[], Pass.start document⟩ ⟨[], pass⟩)
    (coherent' : Coherent document ⟨[], pass'⟩) (alike : pass.Alike (fun _ => False) pass') :
    let last := Traversal.resolveEach env depth order pass
    let asked := Place.askAll (askFor none (resolveWithin env' depth')) order pass'
    (asked.1 = .ok () ∧ last.Alike (fun _ => False) asked.2 ∧
      ∀ path ∈ order, ∃ value, last.state? path = some (.resolved value)) ∨
    ∃ e, asked.1 = .error e ∧ asked.2.errors <+: last.errors ∧ asked.2.errors ≠ [] := by
  induction order generalizing pass pass' with
  | nil => exact .inl ⟨rfl, alike, fun _ mem => (List.not_mem_nil mem).elim⟩
  | cons path order ih =>
    have less := Nat.lt_succ_of_le enough
    have coherent := execution_coherent reached (start_coherent document)
    have resolving : Execution env document ⟨[], pass⟩
        ⟨[], (resolveWithin env (depth + 1) path pass).2⟩ :=
      (execution_resolveWithin coherent less path).1
    have kept := execution_coherent resolving coherent
    have later : ∀ found ∈ order, ∃ source, document.get? found = some (.formula source) :=
      fun found mem => formulas found (List.mem_cons_of_mem _ mem)
    have goes : Execution env document ⟨[], (resolveWithin env (depth + 1) path pass).2⟩
        ⟨[], Traversal.resolveEach env depth (path :: order) pass⟩ :=
      (execution_foldl (fun _ path kept => execution_resolveWithin kept less path) order kept).1
    obtain ⟨after, kept', ended⟩ := ask_cases twins less enough' (formulas path List.mem_cons_self)
      reached coherent' alike
    simp only [Place.askAll, Eval.bind_apply]
    rcases answer : askFor none (resolveWithin env' depth') path pass' with ⟨outcome, next⟩
    rw [answer] at after kept' ended
    rcases ended with ⟨value, rfl, held⟩ | ⟨e, rfl, found⟩
    · have held' := execution_keeps_settled goes kept held trivial
      rcases ih later (reached.trans resolving) kept' after with ⟨done, same, all⟩ | failed
      · left
        refine ⟨done, same, ?_⟩
        intro other mem
        rcases List.mem_cons.mp mem with rfl | mem
        · exact ⟨value, held'⟩
        · exact all other mem
      · exact .inr failed
    · right
      refine ⟨e, rfl, ?_, after.errors ▸ found⟩
      rw [← after.errors]
      exact execution_errors_grow goes

end Machine

namespace Engine

open Machine

variable {engine : Engine} {around around' : Surroundings} {document : Value}

theorem runExpression_root (engine : Engine) (around : Surroundings) (document : Value) :
    engine.runExpression around "$" document =
      let env := engine.environment around
      Plan.settleNode (askFor none (resolveWithin env (depthOf (Tree.ofValue document))))
        DocPath.root (Tree.ofValue document).formulas (Pass.start document) := by
  rw [runExpression, Plan.evaluate_root, Plan.pendingAt_start]
  rfl

/-- A document and its root expression succeed with one value, or both fail and the expression finds
the beginning of what the document has, and an error of its own after it. -/
theorem evaluate_root_cases (pure : ∀ f ∈ engine.registry, f.Pure)
    (same : ∀ f ∈ engine.registry,
      f.SameAt (engine.environment around).now (engine.environment around').now)
    (wellFormed : document.WellFormed) :
    (∃ value, engine.evaluate around document = .ok value ∧
      engine.evaluateExpression around' "$" document = .ok value) ∨
    ∃ failure failure' faults own, engine.evaluate around document = .error failure ∧
      engine.evaluateExpression around' "$" document = .error failure' ∧
      failure'.faults = faults ++ [own] ∧ own.path = DocPath.root ∧ faults <+: failure.faults := by
  have complete := engine.complete_finalPass around document
  have twins : Twins (engine.environment around) (engine.environment around') document document :=
    twins_of_pure pure same rfl
  have traversed : engine.finalPass around document = Traversal.resolveEach
      (engine.environment around) (depthOf (Tree.ofValue document))
      (Tree.ofValue document).formulas (Pass.start document) := Traversal.visitDocument_eq _ _
  have listed : ∀ path ∈ (Tree.ofValue document).formulas,
      ∃ source, document.get? path = some (.formula source) := by
    intro path mem
    rw [Tree.formulas_eq_cellsWithin] at mem
    exact ((Value.mem_formulasWithin_iff wellFormed).mp mem).2
  have enough : (Tree.ofValue document).formulas.length < depthOf (Tree.ofValue document) :=
    Nat.lt_succ_self _
  have alike : (Pass.start document).Alike (fun _ => False) (Pass.start document) :=
    ⟨rfl, fun _ _ => rfl, rfl⟩
  have asking := askAll_cases twins (Nat.le_of_lt enough) enough listed .refl
    (start_coherent document) alike
  rw [← traversed] at asking
  rw [evaluateExpression, runExpression_root]
  simp only [Plan.settleNode, Eval.bind_apply]
  rcases asked : Place.askAll (askFor none (resolveWithin (engine.environment around')
      (depthOf (Tree.ofValue document)))) (Tree.ofValue document).formulas (Pass.start document)
    with ⟨e | ⟨⟩, last⟩ <;> rw [asked] at asking
  · right
    rcases asking with ⟨done, _⟩ | ⟨e', failed, beginning, found⟩
    · cases done
    · have more : (engine.finalPass around document).report ≠ [] := by
        intro none
        rw [Pass.report, List.map_eq_nil_iff] at none
        rw [none] at beginning
        exact found (List.prefix_nil.mp beginning)
      refine ⟨⟨_, more⟩, _, last.report, Fault.ofError DocPath.root e,
        evaluate_eq_error_iff.mpr rfl, rfl, rfl, rfl, ?_⟩
      exact beginning.map fun entry => Fault.ofError entry.1 entry.2
  · left
    rcases asking with ⟨_, alike, all⟩ | ⟨e, failed, _⟩
    · have every : ∀ path source, document.get? path = some (.formula source) →
          ∃ value, (engine.finalPass around document).state? path = some (.resolved value) :=
        fun path source formula => all path (mem_formulas_of_get? formula)
      have none := complete.errors_eq_nil_iff.mpr every
      have whole : Plan.collected (engine.finalPass around document).tree DocPath.root = _ :=
        collected_eq complete.coherent.shape wellFormed rfl fun path mem => by
          obtain ⟨_, source, formula⟩ := (Value.mem_formulasWithin_iff wellFormed).mp mem
          exact every path source formula
      rw [alike.collected] at whole
      have quiet : last.report = [] := by
        rw [Pass.report, ← alike.errors, none, List.map_nil]
      refine ⟨_, evaluate_eq_ok_iff.mpr ⟨none, rfl⟩, ?_⟩
      rw [complete.toValue_eq wellFormed every]
      simp only [Plan.collect, whole, quiet, Report.failure?]
    · cases failed

/-- The evaluation of a document and that of its root expression give the same value if either gives
one. If they fail, the errors that the expression finds before its own at the root are the first errors
that the evaluation of the document finds. -/
theorem evaluate_iff_root_expression (engine : Engine) (around around' : Surroundings)
    (document : Value) (pure : ∀ f ∈ engine.registry, f.Pure)
    (same : ∀ f ∈ engine.registry,
      f.SameAt (engine.environment around).now (engine.environment around').now)
    (wellFormed : document.WellFormed) :
    (∀ value, engine.evaluate around document = .ok value ↔
      engine.evaluateExpression around' "$" document = .ok value) ∧
    ∀ failure failure', engine.evaluate around document = .error failure →
      engine.evaluateExpression around' "$" document = .error failure' →
      ∃ faults own, failure'.faults = faults ++ [own] ∧ own.path = DocPath.root ∧
        faults <+: failure.faults := by
  rcases evaluate_root_cases pure same wellFormed with
    ⟨value, whole, expression⟩ | ⟨failure, failure', faults, own, whole, expression, parts⟩
  · constructor
    · intro other
      rw [whole, expression]
    · intro failure failure' failed _
      rw [whole] at failed
      cases failed
  · constructor
    · intro value
      rw [whole, expression]
      constructor <;> exact nofun
    · intro failed failed' here here'
      rw [whole] at here
      rw [expression] at here'
      cases here
      cases here'
      exact ⟨faults, own, parts⟩

/-- A document with two formulas that fail, one because of the other, at two times of the day. -/
theorem evaluate_iff_root_expression_upper :
    let engine : Engine := ⟨[Function.upper], FormulaKeys.default, none⟩
    let around : Surroundings := ⟨0, id⟩
    let around' : Surroundings := ⟨1, fun calls => calls + 7⟩
    let document : Value := .object [("a", .formula "UPPER('text')"), ("b", .formula "c"),
      ("c", .formula "missing"), ("d", .array [.formula "super.super.a", .null])]
    (∀ f ∈ engine.registry, f.Pure) ∧
    (∀ f ∈ engine.registry,
      f.SameAt (engine.environment around).now (engine.environment around').now) ∧
    document.WellFormed ∧
    (∀ value, engine.evaluate around document = .ok value ↔
      engine.evaluateExpression around' "$" document = .ok value) ∧
    ∀ failure failure', engine.evaluate around document = .error failure →
      engine.evaluateExpression around' "$" document = .error failure' →
      ∃ faults own, failure'.faults = faults ++ [own] ∧ own.path = DocPath.root ∧
        faults <+: failure.faults := by
  intro engine around around' document
  have pure : ∀ f ∈ engine.registry, f.Pure :=
    List.forall_mem_singleton.mpr (Function.pure_ofText _ _)
  have same : ∀ f ∈ engine.registry,
      f.SameAt (engine.environment around).now (engine.environment around').now :=
    List.forall_mem_singleton.mpr (Function.sameAt_ofText _ _ _ _)
  have wellFormed : document.WellFormed := by
    simp [document, Value.WellFormed, Value.MembersWellFormed, Value.ItemsWellFormed]
  exact ⟨pure, same, wellFormed,
    evaluate_iff_root_expression engine around around' document pure same wellFormed⟩

end Engine

end FormulaDoc
