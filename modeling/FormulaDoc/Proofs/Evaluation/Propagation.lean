import FormulaDoc.Proofs.Evaluation.Accounting
import FormulaDoc.Proofs.Evaluation.Meaning

/-!
# Failures reach the top

An evaluation stops at the first formula it needs that has no value, and fails for that. So within one
evaluation nothing ever runs on beside a recorded error: whatever has been recorded, the innermost
evaluation under way is failing by the error recorded last. An expression that comes to a value has
left no error behind, and one that fails reports what was recorded before it.
-/
namespace FormulaDoc

namespace Machine

variable {env : Environment} {document : Value}

/-- Nothing is recorded yet, or the innermost evaluation under way fails because the formula that was
recorded last did. -/
def Surfaces (m : Machine) : Prop :=
  m.pass.errors = [] ∨ ∃ before path cause owner rest,
    m.pass.errors = before ++ [(path, cause)] ∧
      m.stack = ⟨owner, .fail (.dependencyFailed path cause.kind)⟩ :: rest

/-- While an evaluation goes on, nothing is recorded. -/
theorem Surfaces.errors_eq_nil {frame : Frame} {rest : List Frame} {pass : Pass}
    (h : Surfaces ⟨frame :: rest, pass⟩) (going : ∀ e, frame.plan ≠ .fail e) : pass.errors = [] := by
  rcases h with none | ⟨_, _, _, _, _, _, stack⟩
  · exact none
  · cases stack
    exact absurd rfl (going _)

/-- What a formula fails by is recorded and passed on to the evaluation that waits for it. -/
theorem surfaces_leave {path : DocPath} {e : EvalError} {below : Frame} {rest : List Frame}
    {pass : Pass} (asked : below.plan.asked? = some path) :
    Surfaces ⟨deliver (Resolution.verdict path (.error e)) (below :: rest),
      pass.conclude path (.error e)⟩ := by
  have failing : deliver (Resolution.verdict path (.error e)) (below :: rest) =
      ⟨below.owner, .fail (.dependencyFailed path e.kind)⟩ :: rest := by
    rw [deliver, Resolution.verdict, Plan.deliver_error asked]
  exact .inr ⟨pass.errors, path, e, below.owner, rest, rfl, failing⟩

theorem step_surfaces {m m' : Machine} (h : Inner env document m m') (coherent : Coherent document m)
    (hm : Surfaces m) : Surfaces m' := by
  obtain ⟨step, before, after⟩ := h
  cases step with
  | begin _ | express _ => exact absurd rfl before
  | finish => exact absurd rfl after
  | enter asked _ | reply asked _ =>
    exact .inl (hm.errors_eq_nil fun e => Plan.ne_done_of_asked asked (.error e))
  | @leave path outcome rest pass =>
    cases outcome with
    | ok value =>
      apply Or.inl
      apply hm.errors_eq_nil
      intro e same
      cases same
    | error e =>
      cases rest with
      | nil => exact absurd rfl after
      | cons below rest => exact surfaces_leave (coherent.asked rfl)
  | call =>
    apply Or.inl
    rw [Interpreter.errors_call]
    apply hm.errors_eq_nil
    intro e same
    cases same
  | gather | collect =>
    apply Or.inl
    apply hm.errors_eq_nil
    intro e same
    cases same

theorem run_surfaces {m m' : Machine} (h : Run env document m m') (coherent : Coherent document m)
    (hm : Surfaces m) : Surfaces m' := by
  induction h with
  | refl => exact hm
  | tail before step ih =>
    exact step_surfaces step (execution_coherent (Run.execution before) coherent) ih

end Machine

namespace Engine

section Expressions

variable (engine : Engine) (around : Surroundings) (text : String) (data : Value)

/-- An expression leaves no error, or it fails because the formula that was recorded last did. -/
theorem runExpression_surfaces :
    let ran := engine.runExpression around text data
    ran.2.errors = [] ∨ ∃ before path cause, ran.2.errors = before ++ [(path, cause)] ∧
      ran.1 = .error (.dependencyFailed path cause.kind) := by
  intro ran
  let env := engine.environment around
  let begun : Machine := ⟨[⟨none, Plan.ofText data Scope.root text⟩], Pass.start data⟩
  have runs : Machine.Run env data begun ⟨[⟨none, .done ran.1⟩], ran.2⟩ :=
    Machine.run_evaluate env text data (Nat.lt_succ_self _)
  have express : Machine.Step env data ⟨[], Pass.start data⟩ begun :=
    .express (Plan.fits_ofText Scope.root text)
  have coherent := Machine.step_coherent express (Machine.start_coherent data)
  rcases Machine.run_surfaces runs coherent (.inl rfl) with none |
    ⟨before, path, cause, owner, rest, last, stack⟩
  · exact .inl none
  · simp only [List.cons.injEq, Frame.mk.injEq, Plan.fail, Plan.done.injEq] at stack
    exact .inr ⟨before, path, cause, last, stack.1.2⟩

theorem errors_runExpression_ok {value : Value}
    (succeeds : (engine.runExpression around text data).1 = .ok value) :
    (engine.runExpression around text data).2.errors = [] := by
  rcases runExpression_surfaces engine around text data with none | ⟨_, _, _, _, fails⟩
  · exact none
  · rw [succeeds] at fails
    cases fails

theorem evaluateExpression_of_ok {value : Value}
    (succeeds : (engine.runExpression around text data).1 = .ok value) :
    engine.evaluateExpression around text data = .ok value := by
  have clean := errors_runExpression_ok engine around text data succeeds
  rw [evaluateExpression]
  generalize engine.runExpression around text data = ran at succeeds clean ⊢
  obtain ⟨outcome, pass⟩ := ran
  cases succeeds
  have clean : pass.errors = [] := clean
  simp only [Pass.report, clean, List.map_nil, Report.failure?]

theorem evaluateExpression_of_error {e : EvalError}
    (fails : (engine.runExpression around text data).1 = .error e) :
    engine.evaluateExpression around text data =
      .error ((engine.runExpression around text data).2.report.failWith
        (Fault.ofError DocPath.root e)) := by
  rw [evaluateExpression]
  generalize engine.runExpression around text data = ran at fails ⊢
  obtain ⟨outcome, pass⟩ := ran
  cases fails
  rfl

/-- A text that cannot be read fails before anything is asked for. -/
theorem runExpression_of_unreadable {e : SyntaxError} (unreadable : parse text = .error e) :
    engine.runExpression around text data = (.error (.syntaxError e), Pass.start data) := by
  rw [runExpression, Resolution.evaluate, unreadable]
  rfl

end Expressions

/-- An expression that comes to a value has failed nowhere on the way, so that its evaluation gives
this value. One that comes to an error, or cannot be read, gives a failure, which lists the errors
recorded for formulas of the data as they were found, and then the expression's own, at the root. What
is recorded is each formula that failed, once; and if anything is, the expression's own error names
the formula recorded last. -/
theorem evaluateExpression_reports (engine : Engine) (around : Surroundings) (text : String)
    (data : Value) :
    let ran := engine.runExpression around text data
    (∀ value, ran.1 = .ok value →
      ran.2.errors = [] ∧ (∀ path kind, ran.2.state? path ≠ some (.failed kind)) ∧
        engine.evaluateExpression around text data = .ok value) ∧
    (∀ e, ran.1 = .error e →
      (∃ failure, engine.evaluateExpression around text data = .error failure ∧
        failure.faults = ran.2.report ++ [⟨DocPath.root, e.kind, e.code, e.message⟩]) ∧
      (ran.2.errors.map Prod.fst).Nodup ∧
      (∀ path kind, (∃ cause, (path, cause) ∈ ran.2.errors ∧ cause.kind = kind) ↔
        ran.2.state? path = some (.failed kind)) ∧
      (∀ path cause, (path, cause) ∈ ran.2.errors →
        ∃ source, data.get? path = some (.formula source)) ∧
      ∀ before path cause, ran.2.errors = before ++ [(path, cause)] →
        e = .dependencyFailed path cause.kind) ∧
    ∀ e, parse text = .error e → ran = (.error (.syntaxError e), Pass.start data) := by
  intro ran
  have accounted : Machine.Accounted ran.2 := accounted_runExpression engine around text data
  have coherent : Machine.Coherent data ⟨[], ran.2⟩ :=
    Machine.execution_coherent (engine.execution_runExpression around text data)
      (Machine.start_coherent data)
  refine ⟨?_, ?_, ?_⟩
  · intro value succeeds
    have clean := errors_runExpression_ok engine around text data succeeds
    refine ⟨clean, ?_, evaluateExpression_of_ok engine around text data succeeds⟩
    intro path kind failed
    obtain ⟨cause, mem, _⟩ := (accounted.recorded path kind).mp failed
    rw [clean] at mem
    exact List.not_mem_nil mem
  · intro e fails
    have failure := evaluateExpression_of_error engine around text data fails
    refine ⟨⟨_, failure, rfl⟩, accounted.nodup, ?_, ?_, ?_⟩
    · intro path kind
      exact (accounted.recorded path kind).symm
    · intro path cause mem
      have failed := (accounted.recorded path cause.kind).mpr ⟨cause, mem, rfl⟩
      exact coherent.exists_state?_iff.mp ⟨_, failed⟩
    · intro before path cause last
      rcases runExpression_surfaces engine around text data with none |
        ⟨before', path', cause', last', surfaced⟩
      · rw [last] at none
        cases before <;> cases none
      · have same : before ++ [(path, cause)] = before' ++ [(path', cause')] := last.symm.trans last'
        obtain ⟨rfl, pair⟩ := List.append_inj' same rfl
        cases pair
        exact Except.error.inj (fails.symm.trans surfaced)
  · intro e unreadable
    exact runExpression_of_unreadable engine around text data unreadable

open Grammar in
/-- The formula that is needed fails first, and the expression for that. -/
theorem evaluateExpression_reports_formula_first :
    let engine : Engine := { registry := [] }
    let data : Value := .object [("a", .formula "$.b")]
    ∃ failure, engine.evaluateExpression ⟨0, id⟩ "$.a" data = .error failure ∧
      failure.faults.map Fault.path = [[.key "a"], DocPath.root] := by
  intro engine data
  let env := engine.environment ⟨0, id⟩
  have first : scan "$.b" = .ok [⟨.sign .dollar, ⟨0, 1⟩⟩, ⟨.sign .dot, ⟨1, 2⟩⟩,
      ⟨.ident "b", ⟨2, 3⟩⟩] := by cbv
  have second : scan "$.a" = .ok [⟨.sign .dollar, ⟨0, 1⟩⟩, ⟨.sign .dot, ⟨1, 2⟩⟩,
      ⟨.ident "a", ⟨2, 3⟩⟩] := by cbv
  let path : DocPath := [.key "a"]
  let cause : EvalError := .noProperty "b" DocPath.root
  let noted := (Pass.start data).note none path
  let last := ((noted.setState path .inProgress).setState path (.failed .reference)).record path cause
  have ran : engine.runExpression ⟨0, id⟩ "$.a" data =
      (.error (.dependencyFailed path .reference), last) := by
    have asked : Resolution.resolveWithin env 2 path noted =
        (.error (.dependencyFailed path .reference), last) := by
      have began : Resolution.resolveWithin env 2 path noted =
          Resolution.start env (Resolution.resolveWithin env 1) (Scope.ofFormula path) path "$.b"
            noted := Resolution.settle_of_unresolved rfl _
      rw [began, Resolution.start, Resolution.evaluate_rootField first]
      rfl
    let ask := Resolution.askFor none (Resolution.resolveWithin env 2)
    have all : Place.askAll ask [path] (Pass.start data) =
        (.error (.dependencyFailed path .reference), last) := by
      show (Resolution.resolveWithin env 2 path >>= fun _ => Place.askAll ask []) noted = _
      rw [Eval.bind_apply, asked]
    show Resolution.evaluate env ask Scope.root "$.a" (Pass.start data) = _
    rw [Resolution.evaluate_rootField second]
    show (Place.askAll ask [path] >>= fun _ => _) (Pass.start data) = _
    rw [Eval.bind_apply, all]
  obtain ⟨failure, fails, faults⟩ :=
    ((evaluateExpression_reports engine ⟨0, id⟩ "$.a" data).2.1 _ (congrArg Prod.fst ran)).1
  refine ⟨failure, fails, ?_⟩
  rw [faults, ran]
  rfl

end Engine

end FormulaDoc
