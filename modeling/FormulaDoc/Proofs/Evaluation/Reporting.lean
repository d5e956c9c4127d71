import FormulaDoc.Proofs.Evaluation.Messages
import FormulaDoc.Proofs.Evaluation.Causality
import FormulaDoc.Proofs.Evaluation.Propagation

/-!
# What failures say

The text of a failure has one line for each fault, and one more for each newline in a key or a date
pattern that a message quotes. No other text brings in a newline: what evaluation reports of a formula's
text are names, which are words, and pieces that are written with escapes.
-/
namespace FormulaDoc

open Text

/-! ## Where errors come from -/

namespace EvalError

variable {e : EvalError}

theorem reportable_of_requireBool {op : BinaryOp} {operand : Value}
    (h : op.requireBool operand = .error e) : e.Reportable := by
  rw [BinaryOp.requireBool] at h
  split at h <;> cases h
  exact operand.newlines_typeName

theorem reportable_mismatch (op : BinaryOp) (left right : Value) : (op.mismatch left right).Reportable :=
  ⟨left.newlines_typeName, right.newlines_typeName⟩

theorem reportable_of_binary {op : BinaryOp} {left right : Value} (h : op.apply left right = .error e) :
    e.Reportable := by
  have logic : op.decideBools left right = .error e → e.Reportable := by
    intro h
    rw [BinaryOp.decideBools] at h
    rcases first : op.requireBool left with e' | a <;> rw [first] at h
    · cases h
      exact reportable_of_requireBool first
    · rcases second : op.requireBool right with e' | b <;> rw [second] at h
      · cases h
        exact reportable_of_requireBool second
      · cases h
  have order : op.compareValues left right = .error e → e.Reportable := by
    intro h
    rw [BinaryOp.compareValues] at h
    split at h <;> cases h
    exact reportable_mismatch op left right
  have numbers : op.combine left right = .error e → e.Reportable := by
    intro h
    simp only [BinaryOp.combine] at h
    split at h <;> (try split at h) <;> cases h <;> exact reportable_mismatch op _ _
  have join : op.join left right = .error e → e.Reportable := by
    intro h
    rw [BinaryOp.join] at h
    split at h <;> cases h
    exact reportable_mismatch op left right
  cases op with
  | eq | ne => cases h
  | concat => exact join h
  | and | or => exact logic h
  | lt | le | gt | ge => exact order h
  | add | sub | mul | div | rem => exact numbers h

theorem reportable_of_unary {op : UnaryOp} {operand : Value} (h : op.apply operand = .error e) :
    e.Reportable := by
  simp only [UnaryOp.apply] at h
  split at h <;> cases h
  exact operand.newlines_typeName

theorem reportable_of_field {value : Value} {key : String} (h : value.field key = .error e) :
    e.Reportable := by
  simp only [Value.field] at h
  split at h
  · split at h <;> cases h
    trivial
  · cases h
    exact ⟨.inr ⟨key, rfl⟩, value.newlines_typeName⟩

theorem reportable_of_element {value : Value} {index : Int} (h : value.element index = .error e) :
    e.Reportable := by
  simp only [Value.element] at h
  split at h
  · split at h <;> cases h
    trivial
  · cases h
    exact ⟨.inl (newlines_indexAccess index), value.newlines_typeName⟩

theorem reportable_of_ancestor {scope : Scope} {depth : Nat} (h : scope.ancestor depth = .error e) :
    e.Reportable := by
  rw [Scope.ancestor] at h
  split at h <;> cases h
  trivial

theorem reportable_of_call {env : Environment} (reports : ∀ f ∈ env.registry, f.Reports) {name : String}
    (plain : newlines name = 0) {args : List Value} {pass : Pass}
    (h : (Interpreter.call env name args pass).1 = .error e) : e.Reportable := by
  rw [Interpreter.call] at h
  split at h
  · cases h
    exact plain
  · rename_i f found
    split at h
    · rename_i inner failed
      cases h
      exact ⟨plain, (reports f (Registry.mem_of_lookup? found)).call _ _ inner failed⟩
    · split at h <;> cases h
      exact ⟨plain, trivial⟩

end EvalError

/-! ## Plans -/

namespace Plan

variable {α β : Type} {document : Value}

/-- A plan ends with reportable errors only, and calls functions by names of one line. -/
def Reports : Plan α → Prop
  | done (.ok _) => True
  | done (.error e) => e.Reportable
  | ask _ next | gather _ next | await _ _ next => ∀ value, (next value).Reports
  | call name _ next => newlines name = 0 ∧ ∀ value, (next value).Reports

theorem reports_done {outcome : Except EvalError α} (h : ∀ e, outcome = .error e → e.Reportable) :
    (done outcome).Reports := by
  cases outcome with
  | ok _ => trivial
  | error e => exact h e rfl

theorem reports_pure (a : α) : (pure a : Plan α).Reports := trivial

theorem reports_map {outcome : Except EvalError α} (f : α → β)
    (h : ∀ e, outcome = .error e → e.Reportable) : (done (outcome.map f)).Reports := by
  cases outcome with
  | ok a => trivial
  | error e => exact h e rfl

theorem Reports.bind {plan : Plan α} {f : α → Plan β} (first : plan.Reports)
    (rest : ∀ a, (f a).Reports) : (plan >>= f).Reports := by
  induction plan with
  | done outcome =>
    cases outcome with
    | ok a => exact rest a
    | error e => exact first
  | ask _ next ih | gather _ next ih | await _ _ next ih => exact fun value => ih value (first value)
  | call _ _ next ih => exact ⟨first.1, fun value => ih value (first.2 value)⟩

theorem reports_field (key : String) (place : Place) : (field document key place).Reports := by
  cases place with
  | computed value => exact reports_map _ fun _ => EvalError.reportable_of_field
  | node path =>
    simp only [field]
    split
    · trivial
    · split
      · exact reports_pure _
      · trivial
    · exact fun value => reports_map _ fun _ => EvalError.reportable_of_field
    · exact ⟨.inr ⟨key, rfl⟩, Value.newlines_typeName _⟩

theorem reports_element (index : Int) (place : Place) : (element document index place).Reports := by
  cases place with
  | computed value => exact reports_map _ fun _ => EvalError.reportable_of_element
  | node path =>
    simp only [element]
    split
    · trivial
    · split
      · exact reports_pure _
      · trivial
    · exact fun value => reports_map _ fun _ => EvalError.reportable_of_element
    · exact ⟨.inl (EvalError.newlines_indexAccess index), Value.newlines_typeName _⟩

theorem reports_select (key : Value) (place : Place) : (select document key place).Reports := by
  simp only [select]
  split
  · exact reports_element _ place
  · exact reports_field _ place
  · exact newlines_ofList _
  · exact Value.newlines_typeName _

theorem reports_load (place : Place) : (load document place).Reports := by
  cases place with
  | computed value => exact reports_pure value
  | node path =>
    simp only [load]
    split
    · trivial
    · exact fun _ => reports_pure _

theorem reports_namedPlace (scope : Scope) {name : String} (plain : newlines name = 0) :
    (namedPlace document scope name).Reports := by
  rw [namedPlace]
  split
  · exact reports_field name _
  · exact plain

theorem reports_binary (op : BinaryOp) {left right : Plan Value} (first : left.Reports)
    (second : right.Reports) : (binary op left right).Reports := by
  rw [binary]
  split
  · refine first.bind fun lhs =>
      (reports_done fun _ => EvalError.reportable_of_requireBool).bind fun decided => ?_
    split
    · exact reports_pure _
    · exact second.bind fun rhs =>
        (reports_done fun _ => EvalError.reportable_of_requireBool).bind fun _ => reports_pure _
  · exact first.bind fun lhs => second.bind fun rhs => reports_done fun _ => EvalError.reportable_of_binary

variable {μ : Type}

mutual

theorem reports_place (scope : Scope) (e : Expr μ) (legible : e.Legible) :
    (place document scope e).Reports := by
  match e with
  | .literal _ _ | .root _ => exact reports_pure _
  | .ident _ name => exact reports_namedPlace scope (newlines_of_isWord legible.1)
  | .scope _ depth =>
    exact (reports_done fun _ => EvalError.reportable_of_ancestor).bind fun _ => reports_pure _
  | .field _ receiver name => exact (reports_place scope receiver legible.1).bind (reports_field name)
  | .index _ receiver position =>
    exact (reports_place scope receiver legible.1).bind fun base =>
      ((reports_place scope position legible.2).bind reports_load).bind fun key =>
        reports_select key base
  | .unary _ op operand =>
    exact ((reports_place scope operand legible).bind reports_load).bind fun _ =>
      (reports_done fun _ => EvalError.reportable_of_unary).bind fun _ => reports_pure _
  | .binary _ op left right =>
    exact (reports_binary op ((reports_place scope left legible.1).bind reports_load)
      ((reports_place scope right legible.2).bind reports_load)).bind fun _ => reports_pure _
  | .call _ name args =>
    exact (reports_values scope args legible.2).bind fun _ =>
      Reports.bind ⟨newlines_of_isWord legible.1.1, fun _ => reports_pure _⟩ fun _ => reports_pure _

theorem reports_values (scope : Scope) (es : List (Expr μ)) (legible : Expr.AllLegible es) :
    (values document scope es).Reports := by
  match es with
  | [] => exact reports_pure _
  | e :: es =>
    exact ((reports_place scope e legible.1).bind reports_load).bind fun _ =>
      (reports_values scope es legible.2).bind fun _ => reports_pure _

end

theorem reports_ofText (scope : Scope) (source : String) : (ofText document scope source).Reports := by
  rw [ofText]
  split
  · rename_i unreadable
    exact newlines_of_parse unreadable
  · rename_i parsed
    exact (reports_place scope _ (legible_of_parse parsed)).bind reports_load

theorem Reports.deliver {plan : Plan Value} {outcome : Except EvalError Value} (h : plan.Reports)
    (reportable : ∀ e, outcome = .error e → e.Reportable) : (plan.deliver outcome).Reports := by
  cases plan with
  | ask _ next =>
    cases outcome with
    | ok value => exact h value
    | error e => exact reportable e rfl
  | await _ waiting next =>
    cases waiting with
    | nil => exact h
    | cons _ _ =>
      cases outcome with
      | ok _ => exact h
      | error e => exact reportable e rfl
  | _ => exact h

end Plan

/-! ## Executions -/

theorem Pass.reportable_of_reply {pass : Pass} {path : DocPath} {e : EvalError}
    (h : pass.reply? path = some (.error e)) : e.Reportable := by
  rw [Pass.reply?] at h
  split at h <;> cases h <;> trivial

theorem Resolution.reportable_of_verdict {path : DocPath} {outcome : Except EvalError Value}
    {e : EvalError} (h : verdict path outcome = .error e) : e.Reportable := by
  cases outcome <;> cases h
  trivial

namespace Machine

variable {env : Environment} {document : Value}

/-- The formulas under evaluation report what can be reported, and so does what has been recorded. -/
structure Reporting (m : Machine) : Prop where
  running : ∀ frame ∈ m.stack, ∀ path, frame.owner = some path → frame.plan.Reports
  recorded : ∀ path e, (path, e) ∈ m.pass.errors → e.Reportable

theorem start_reporting (document : Value) : Reporting ⟨[], Pass.start document⟩ :=
  ⟨fun _ mem => absurd mem List.not_mem_nil, fun _ _ mem => absurd mem List.not_mem_nil⟩

theorem Origin.reports {m m' : Machine} {frame : Frame} (h : Origin env document m m' frame)
    (reports : ∀ f ∈ env.registry, f.Reports) (hm : Reporting m) {path : DocPath}
    (owner : frame.owner = some path) : frame.plan.Reports := by
  cases h with
  | kept mem => exact hm.running frame mem path owner
  | formula _ => exact Plan.reports_ofText _ _
  | expression _ => cases owner
  | reply mem asked reply =>
    apply (hm.running _ mem path owner).deliver
    rintro e rfl
    exact Pass.reportable_of_reply reply
  | verdict mem asked _ =>
    exact (hm.running _ mem path owner).deliver fun e => Resolution.reportable_of_verdict
  | gather mem =>
    have before := hm.running _ mem path owner
    exact before
  | collect mem =>
    refine (Plan.reports_done fun e failed => ?_).bind (hm.running _ mem path owner)
    rw [Plan.collected] at failed
    split at failed <;> cases failed
    trivial
  | call mem =>
    have before := hm.running _ mem path owner
    exact (Plan.reports_done fun e failed =>
      EvalError.reportable_of_call reports before.1 failed).bind before.2

theorem step_reporting {m m' : Machine} (reports : ∀ f ∈ env.registry, f.Reports)
    (h : Step env document m m') (coherent : Coherent document m) (hm : Reporting m) : Reporting m' := by
  constructor
  · intro frame mem path owner
    exact (step_origin h coherent mem).reports reports hm owner
  · intro path e mem
    rcases step_recorded h mem with older | running
    · exact hm.recorded path e older
    · exact hm.running _ running path rfl

theorem execution_reporting {m m' : Machine} (reports : ∀ f ∈ env.registry, f.Reports)
    (h : Execution env document m m') (coherent : Coherent document m) (hm : Reporting m) :
    Reporting m' := by
  induction h with
  | refl => exact hm
  | tail before step ih => exact step_reporting reports step (execution_coherent before coherent) ih

theorem Complete.reportable {pass : Pass} (h : Complete env document pass)
    (reports : ∀ f ∈ env.registry, f.Reports) {path : DocPath} {e : EvalError}
    (mem : (path, e) ∈ pass.errors) : e.Reportable :=
  (execution_reporting reports h.reached (start_coherent document) (start_reporting document)).recorded
    path e mem

end Machine

theorem Fault.newlines_text (fault : Fault) : newlines fault.text = newlines fault.message := by
  have code (code : FaultCode) : newlines code.text = 0 := by cases code <;> exact newlines_ofList _
  rw [text, newlines_append_of_left]
  simp only [newlines_append_eq_zero, and_assoc]
  exact ⟨DocPath.newlines_text _, newlines_ofList _, code _, newlines_ofList _⟩

namespace Engine

/-- The only formula of a document, which comes to an error. -/
theorem finalPass_of_error (engine : Engine) (around : Surroundings) {document : Value} {path : DocPath}
    {source : String} {cause : EvalError} {pass : Pass}
    (only : (Pass.start document).tree.formulas = [path])
    (cell : (Pass.start document).tree.cell? path = some ⟨source, .unresolved⟩)
    (fails : let env := engine.environment around
      Resolution.evaluate env (Resolution.askFor (some path) (Resolution.resolveWithin env 2))
        (Scope.ofFormula path) source ((Pass.start document).setState path .inProgress) =
          (.error cause, pass)) :
    engine.finalPass around document = (pass.setState path (.failed cause.kind)).record path cause := by
  rw [finalPass, Traversal.visitDocument_eq, Resolution.depthOf, only]
  show (Resolution.resolveWithin (engine.environment around) 3 path (Pass.start document)).2 = _
  rw [Resolution.resolveWithin, Resolution.settle_of_unresolved cell, Resolution.start, fails]
  rfl

/-- The text of a failure falls into the lines of its faults. A fault has one line, and one more for each
newline of the key or date pattern that its message quotes. Hence each fault has exactly its own line if
and only if no key or date pattern that is quoted has a newline. -/
theorem lines_of_failure (engine : Engine) (around : Surroundings) (document : Value)
    (builtin : ∀ f ∈ engine.registry, f ∈ Registry.builtins) {failure : Failure}
    (failed : engine.evaluate around document = .error failure) :
    let errors := (engine.finalPass around document).errors
    failure.faults = errors.map (fun found => Fault.ofError found.1 found.2) ∧
    lines failure.text = failure.faults.flatMap (fun fault => lines fault.text) ∧
    (∀ path e, (path, e) ∈ errors →
      (∀ raw, e.Quotes raw → (lines (Fault.ofError path e).text).length = newlines raw + 1) ∧
      ((∀ raw, ¬ e.Quotes raw) →
        lines (Fault.ofError path e).text = [(Fault.ofError path e).text])) ∧
    (lines failure.text = failure.faults.map Fault.text ↔
      ∀ path e raw, (path, e) ∈ errors → e.Quotes raw → '\n' ∉ raw.toList) := by
  intro errors
  have faults : failure.faults = errors.map fun found => Fault.ofError found.1 found.2 :=
    evaluate_eq_error_iff.mp failed
  have some : failure.faults.map Fault.text ≠ [] := by
    rw [Ne, List.map_eq_nil_iff]
    exact failure.faults_ne_nil
  have reports : ∀ f ∈ engine.registry, f.Reports :=
    fun f mem => Function.reports_of_mem_builtins (builtin f mem)
  have tidy {path : DocPath} {e : EvalError} (mem : (path, e) ∈ errors) : Tidy e.Quotes e.message :=
    ((engine.complete_finalPass around document).reportable reports mem).tidy
  have size (path : DocPath) (e : EvalError) :
      newlines (Fault.ofError path e).text = newlines e.message := Fault.newlines_text _
  refine ⟨faults, ?_, ?_, ?_⟩
  · rw [Failure.text, lines_intercalate some, List.flatMap_map]
  · intro path e mem
    constructor
    · intro raw quotes
      rw [length_lines, size, (tidy mem).quoted raw quotes]
    · intro unquoted
      apply lines_of_newlines
      rw [size, (tidy mem).unquoted unquoted]
  · rw [Failure.text, lines_intercalate_eq_iff some, faults, List.map_map, List.forall_mem_map]
    constructor
    · intro single path e raw mem quotes
      have none : newlines e.message = 0 := (size path e).symm.trans (single (path, e) mem)
      exact newlines_eq_zero_iff.mp ((tidy mem).newlines_eq_zero_iff.mp none raw quotes)
    · rintro plain ⟨path, e⟩ mem
      refine (size path e).trans ((tidy mem).newlines_eq_zero_iff.mpr fun raw quotes => ?_)
      exact newlines_eq_zero_iff.mpr (plain path e raw mem quotes)

/-- A formula that fails for a key without newlines. -/
theorem lines_of_failure_key :
    let engine : Engine := {}
    let document : Value := .object [("a", .formula "$.b")]
    (∀ f ∈ engine.registry, f ∈ Registry.builtins) ∧
    ∃ failure, engine.evaluate ⟨0, id⟩ document = .error failure ∧
      lines failure.text = failure.faults.map Fault.text := by
  intro engine document
  let path : DocPath := [.key "a"]
  let cause : EvalError := .noProperty "b" DocPath.root
  let begun := (Pass.start document).setState path .inProgress
  have lexed : scan "$.b" = .ok [⟨.sign .dollar, ⟨0, 1⟩⟩, ⟨.sign .dot, ⟨1, 2⟩⟩,
      ⟨.ident "b", ⟨2, 3⟩⟩] := by cbv
  have fails (env : Environment) (ask : DocPath → Eval Value) :
      Resolution.evaluate env ask (Scope.ofFormula path) "$.b" begun = (.error cause, begun) := by
    rw [Resolution.evaluate_rootField lexed]
    rfl
  have final : engine.finalPass ⟨0, id⟩ document = _ := engine.finalPass_of_error _ rfl rfl (fails _ _)
  have failed : engine.evaluate ⟨0, id⟩ document = .error (.single (Fault.ofError path cause)) := by
    rw [evaluate_eq_error_iff, final]
    rfl
  have builtin : ∀ f ∈ engine.registry, f ∈ Registry.builtins := fun _ mem => mem
  refine ⟨builtin, _, failed, ?_⟩
  have result := lines_of_failure engine ⟨0, id⟩ document builtin failed
  refine result.2.2.2.mpr fun path' e raw mem quotes => ?_
  rw [final] at mem
  cases List.mem_singleton.mp mem
  have key : EvalError.Quotes (.noProperty "b" DocPath.root) raw := quotes
  cases key
  decide

/-- A key with a newline, which its formula spells with an escape, breaks the line of a fault. -/
theorem evaluate_breaks_line :
    let engine : Engine := {}
    let document : Value := .object [("a", .formula "$['x\\ny']")]
    ∃ failure, engine.evaluate ⟨0, id⟩ document = .error failure ∧ failure.faults.length = 1 ∧
      lines failure.text = ["a: [E2001] no property `x", "y` in `$`"] := by
  intro engine document
  let path : DocPath := [.key "a"]
  let cause : EvalError := .noProperty "x\ny" DocPath.root
  let begun := (Pass.start document).setState path .inProgress
  have parsed : parse "$['x\\ny']" =
      .ok (.index ⟨0, 9⟩ (.root ⟨0, 1⟩) (.literal ⟨2, 8⟩ (.string "x\ny"))) := by cbv
  have fails (env : Environment) (ask : DocPath → Eval Value) :
      Resolution.evaluate env ask (Scope.ofFormula path) "$['x\\ny']" begun =
        (.error cause, begun) := by
    rw [Resolution.evaluate_of_parse parsed]
    rfl
  have final : engine.finalPass ⟨0, id⟩ document = _ := engine.finalPass_of_error _ rfl rfl (fails _ _)
  have failed : engine.evaluate ⟨0, id⟩ document = .error (.single (Fault.ofError path cause)) := by
    rw [evaluate_eq_error_iff, final]
    rfl
  refine ⟨_, failed, rfl, ?_⟩
  decide

end Engine

end FormulaDoc
