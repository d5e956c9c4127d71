import FormulaDoc.Proofs.Evaluation.Causality

/-!
# Formulas that cannot be read

The text of a formula decides by itself whether its evaluation fails by a syntax error: one that cannot
be read fails so at once, and one that can be read never does, whatever it needs. Who needs an
unreadable formula fails for that, by an error of another kind. Hence the syntax errors reported are
those of the formulas that cannot be read, each at its own place.
-/
namespace FormulaDoc

/-- An error that evaluation may come to after a text has been read. -/
def EvalError.Semantic : EvalError → Prop
  | syntaxError _ | other _ _ => False
  | _ => True

theorem EvalError.Native.semantic {e : EvalError} (h : e.Native) : e.Semantic := by
  cases e with
  | syntaxError _ | other _ _ => exact h.elim
  | _ => trivial

theorem EvalError.Semantic.kind_ne {e : EvalError} (h : e.Semantic) : e.kind ≠ .parse := by
  intro same
  cases e with
  | syntaxError _ | other _ _ => exact h.elim
  | dependencyFailed path kind =>
    rw [EvalError.kind] at same
    split at same <;> cases same
  | _ => cases same

theorem EvalError.Semantic.code_eq {e : EvalError} (h : e.Semantic) : e.code = e.kind.code := by
  rcases e.code_eq with same | ⟨s, rfl⟩
  · exact same
  · exact h.elim

namespace Plan

/-- What a text allows its evaluation to be at any moment: it has failed by the text's syntax error, or
there is none and it comes to no such error. -/
def TrueTo (source : String) (plan : Plan Value) : Prop :=
  match parse source with
  | .error e => plan = .fail (.syntaxError e)
  | .ok _ => plan.Raises EvalError.Semantic

theorem trueTo_ofText (document : Value) (scope : Scope) (source : String) :
    (ofText document scope source).TrueTo source := by
  rw [ofText, TrueTo]
  cases parse source with
  | error e => rfl
  | ok e => exact (expressed_value scope e).raises.mono fun _ => EvalError.Native.semantic

/-- A plan that goes on belongs to a text that can be read. -/
theorem TrueTo.raises {source : String} {plan : Plan Value} (h : plan.TrueTo source)
    (going : ∀ outcome, plan ≠ .done outcome) : plan.Raises EvalError.Semantic := by
  rw [TrueTo] at h
  split at h
  · exact absurd h (going _)
  · exact h

/-- What a plan goes on with is true to the same text, as long as no syntax error comes from outside. -/
theorem TrueTo.next {source : String} {plan plan' : Plan Value} (h : plan.TrueTo source)
    (going : ∀ outcome, plan ≠ .done outcome) (raises : plan'.Raises EvalError.Semantic) :
    plan'.TrueTo source := by
  rw [TrueTo] at h ⊢
  split at h
  · exact absurd h (going _)
  · exact raises

theorem Raises.deliver {plan : Plan Value} {outcome : Except EvalError Value}
    (raises : plan.Raises EvalError.Semantic)
    (semantic : ∀ e, outcome = .error e → e.Semantic) :
    (plan.deliver outcome).Raises EvalError.Semantic := by
  cases plan with
  | ask _ next =>
    cases outcome with
    | ok value => exact raises value
    | error e => exact semantic e rfl
  | await _ waiting next =>
    cases waiting with
    | nil => exact raises
    | cons _ _ =>
      cases outcome with
      | ok _ => exact raises
      | error e => exact semantic e rfl
  | _ => exact raises

theorem TrueTo.deliver {source : String} {plan : Plan Value} {path : DocPath}
    {outcome : Except EvalError Value} (h : plan.TrueTo source) (asked : plan.asked? = some path)
    (semantic : ∀ e, outcome = .error e → e.Semantic) : (plan.deliver outcome).TrueTo source := by
  have going := ne_done_of_asked asked
  exact h.next going ((h.raises going).deliver semantic)

end Plan

theorem Pass.semantic_of_reply {pass : Pass} {path : DocPath} {e : EvalError}
    (h : pass.reply? path = some (.error e)) : e.Semantic := by
  rw [Pass.reply?] at h
  split at h <;> cases h <;> trivial

theorem Resolution.semantic_of_verdict {path : DocPath} {outcome : Except EvalError Value}
    {e : EvalError} (h : verdict path outcome = .error e) : e.Semantic := by
  cases outcome <;> cases h
  trivial

namespace Machine

variable {env : Environment} {document : Value}

/-- Something that belongs to a formula is true to the formula's text. -/
def Belongs (document : Value) (path : DocPath) (plan : Plan Value) : Prop :=
  ∃ source, document.get? path = some (.formula source) ∧ plan.TrueTo source

/-- What is under evaluation, what has been recorded and what formulas have come to is true to the texts
of the formulas that it belongs to. -/
structure Truthful (document : Value) (m : Machine) : Prop where
  running : ∀ frame ∈ m.stack, ∀ path, frame.owner = some path → Belongs document path frame.plan
  recorded : ∀ path e, (path, e) ∈ m.pass.errors → Belongs document path (.fail e)
  resolved : ∀ path value, m.pass.state? path = some (.resolved value) →
    Belongs document path (.done (.ok value))

theorem start_truthful (document : Value) : Truthful document ⟨[], Pass.start document⟩ := by
  constructor
  · intro frame mem
    exact absurd mem List.not_mem_nil
  · intro path e mem
    exact absurd mem List.not_mem_nil
  · intro path value here
    cases state?_start here

theorem Belongs.imp {path : DocPath} {plan plan' : Plan Value} (h : Belongs document path plan)
    (next : ∀ source, plan.TrueTo source → plan'.TrueTo source) : Belongs document path plan' := by
  obtain ⟨source, formula, true_⟩ := h
  exact ⟨source, formula, next source true_⟩

theorem Origin.belongs {m m' : Machine} {frame : Frame} (h : Origin env document m m' frame)
    (coherent : Coherent document m) (hm : Truthful document m) {path : DocPath}
    (owner : frame.owner = some path) : Belongs document path frame.plan := by
  cases h with
  | kept mem => exact hm.running frame mem path owner
  | @formula begun source cell =>
    cases owner
    exact ⟨source, Tree.source_of_shape coherent.shape cell, Plan.trueTo_ofText _ _ _⟩
  | expression _ => cases owner
  | reply mem asked reply =>
    apply (hm.running _ mem path owner).imp
    intro source same
    apply same.deliver asked
    rintro e rfl
    exact Pass.semantic_of_reply reply
  | verdict mem asked _ =>
    apply (hm.running _ mem path owner).imp
    intro source same
    exact same.deliver asked fun e => Resolution.semantic_of_verdict
  | gather mem =>
    apply (hm.running _ mem path owner).imp
    intro source same
    exact same.next (by simp) (same.raises (by simp))
  | collect mem =>
    apply (hm.running _ mem path owner).imp
    intro source same
    apply same.next (by simp)
    refine (Plan.raises_done fun e failed => ?_).bind (same.raises (by simp))
    rw [Plan.collected] at failed
    split at failed <;> cases failed
    trivial
  | call mem =>
    apply (hm.running _ mem path owner).imp
    intro source same
    apply same.next (by simp)
    refine (Plan.raises_done fun e failed => ?_).bind (same.raises (by simp))
    exact (EvalError.native_of_call failed).semantic

theorem step_truthful {m m' : Machine} (h : Step env document m m') (coherent : Coherent document m)
    (hm : Truthful document m) : Truthful document m' := by
  constructor
  · intro frame mem path owner
    exact (step_origin h coherent mem).belongs coherent hm owner
  · intro path e mem
    rcases step_recorded h mem with older | running
    · exact hm.recorded path e older
    · exact hm.running _ running path rfl
  · intro path value here
    rcases step_settles h here trivial with older | ⟨outcome, rest, stack, same, _⟩
    · exact hm.resolved path value older
    · cases outcome with
      | error e => cases same
      | ok found =>
        cases same
        exact hm.running _ (stack ▸ List.mem_cons_self) path rfl

theorem execution_truthful {m m' : Machine} (h : Execution env document m m')
    (coherent : Coherent document m) (hm : Truthful document m) : Truthful document m' := by
  induction h with
  | refl => exact hm
  | tail before step ih => exact step_truthful step (execution_coherent before coherent) ih

theorem Complete.truthful {pass : Pass} (h : Complete env document pass) :
    Truthful document ⟨[], pass⟩ :=
  execution_truthful h.reached (start_coherent document) (start_truthful document)

/-- In the end a formula that cannot be read has failed by its syntax error, and nothing else has. -/
theorem Complete.recorded_syntaxError_iff {pass : Pass} (h : Complete env document pass)
    {path : DocPath} {e : SyntaxError} :
    (path, .syntaxError e) ∈ pass.errors ↔
      ∃ source, document.get? path = some (.formula source) ∧ parse source = .error e := by
  constructor
  · intro mem
    obtain ⟨source, formula, same⟩ := h.truthful.recorded path _ mem
    refine ⟨source, formula, ?_⟩
    rw [Plan.TrueTo] at same
    split at same
    · rename_i unreadable
      cases same
      exact unreadable
    · exact same.elim
  · rintro ⟨source, formula, unreadable⟩
    obtain ⟨state, here⟩ := h.coherent.exists_state?_iff.mpr ⟨source, formula⟩
    have sourceOf {plan : Plan Value} (belongs : Belongs document path plan) :
        plan = .fail (.syntaxError e) := by
      obtain ⟨source', formula', same⟩ := belongs
      rw [formula] at formula'
      cases formula'
      rwa [Plan.TrueTo, unreadable] at same
    cases state with
    | unresolved | inProgress => exact (h.settled path _ here).elim
    | resolved value => cases sourceOf (h.truthful.resolved path value here)
    | failed kind =>
      obtain ⟨cause, mem, _⟩ := (h.accounted.recorded path kind).mp here
      cases sourceOf (h.truthful.recorded path cause mem)
      exact mem

/-- A recorded error is the syntax error of a formula or one that evaluation has come to. -/
theorem Complete.semantic_of_recorded {pass : Pass} (h : Complete env document pass) {path : DocPath}
    {e : EvalError} (mem : (path, e) ∈ pass.errors) : e.Semantic ∨ ∃ s, e = .syntaxError s := by
  obtain ⟨source, _, same⟩ := h.truthful.recorded path e mem
  rw [Plan.TrueTo] at same
  split at same
  · cases same
    exact .inr ⟨_, rfl⟩
  · exact .inl same

end Machine

namespace Engine

/-- The syntax errors that an evaluation reports are those of the formulas that cannot be read: each is
reported where its formula is, with the code and the text of the syntax error. All other errors have
the code of their kind, so that a code belongs to the text of a formula exactly if the kind does. -/
theorem evaluate_reports_unreadable (engine : Engine) (around : Surroundings) (document : Value) :
    (∀ path fault,
      (∃ failure, engine.evaluate around document = .error failure ∧ fault ∈ failure.faults ∧
        fault.path = path ∧ fault.kind = .parse) ↔
      ∃ source e, document.get? path = some (.formula source) ∧ parse source = .error e ∧
        fault = ⟨path, .parse, e.code, e.text⟩) ∧
    ∀ failure, engine.evaluate around document = .error failure → ∀ fault ∈ failure.faults,
      (fault.kind ≠ .parse → fault.code = fault.kind.code) ∧
      (fault.code.isParseCode = true ↔ fault.kind = .parse) := by
  have complete := engine.complete_finalPass around document
  have reported {fault : Fault} (mem : fault ∈ (engine.finalPass around document).report) :
      ∃ path e, (path, e) ∈ (engine.finalPass around document).errors ∧
        fault = Fault.ofError path e ∧ (e.Semantic ∨ ∃ s, e = .syntaxError s) := by
    obtain ⟨⟨path, e⟩, recorded, rfl⟩ := List.mem_map.mp mem
    exact ⟨path, e, recorded, rfl, complete.semantic_of_recorded recorded⟩
  constructor
  · intro path fault
    constructor
    · rintro ⟨failure, failed, mem, rfl, kind⟩
      rw [evaluate_eq_error_iff.mp failed] at mem
      obtain ⟨path, e, recorded, rfl, semantic | ⟨s, rfl⟩⟩ := reported mem
      · exact absurd kind semantic.kind_ne
      · obtain ⟨source, formula, unreadable⟩ := complete.recorded_syntaxError_iff.mp recorded
        exact ⟨source, s, formula, unreadable, rfl⟩
    · rintro ⟨source, e, formula, unreadable, rfl⟩
      have recorded := complete.recorded_syntaxError_iff.mpr ⟨source, formula, unreadable⟩
      have mem : Fault.ofError path (.syntaxError e) ∈
          (engine.finalPass around document).report := List.mem_map.mpr ⟨_, recorded, rfl⟩
      exact ⟨⟨_, List.ne_nil_of_mem mem⟩, evaluate_eq_error_iff.mpr rfl, mem, rfl, rfl⟩
  · intro failure failed fault mem
    rw [evaluate_eq_error_iff.mp failed] at mem
    obtain ⟨path, e, recorded, rfl, semantic | ⟨s, rfl⟩⟩ := reported mem
    · have code : e.code = e.kind.code := semantic.code_eq
      refine ⟨fun _ => code, ?_⟩
      show e.code.isParseCode = true ↔ e.kind = .parse
      rw [code, FaultKind.isParseCode_code, decide_eq_true_iff]
    · refine ⟨fun other => absurd rfl other, ?_⟩
      exact ⟨fun _ => rfl, fun _ => s.kind.isParseCode_code⟩

end Engine

end FormulaDoc
