import FormulaDoc.Proofs.Evaluation.Answer
import FormulaDoc.Proofs.Evaluation.Sinking

/-!
# Evaluation agrees with the answers

With functions that depend on nothing but their arguments and the time, a formula ends as its answer
says, whoever asks for it first and whatever has been evaluated before. Only the formulas that have no
answer fail as cyclic.
-/
namespace FormulaDoc

def CellState.ofResult : Except FaultKind Value → CellState
  | .ok value => .resolved value
  | .error kind => .failed kind

theorem CellState.ofOutcome_eq (outcome : Except EvalError Value) :
    ofOutcome outcome = ofResult (outcome.mapError EvalError.kind) := by
  cases outcome <;> rfl

theorem CellState.ofResult_injective {r r' : Except FaultKind Value}
    (h : ofResult r = ofResult r') : r = r' := by
  cases r <;> cases r' <;> cases h <;> rfl

theorem CellState.isSettled_ofResult (r : Except FaultKind Value) : (ofResult r).IsSettled := by
  cases r <;> trivial

def Pass.valueAt (pass : Pass) (path : DocPath) : Value :=
  match pass.state? path with
  | some (.resolved value) => value
  | _ => .null

theorem Pass.valueAt_eq {pass : Pass} {path : DocPath} {value : Value}
    (h : pass.state? path = some (.resolved value)) : pass.valueAt path = value := by
  rw [valueAt, h]

namespace Machine

variable {env : Environment} {document : Value}

/-- The formulas that have ended, those under evaluation and what is loaded by them all agree with the
answers. -/
structure Agrees (env : Environment) (document : Value) (m : Machine) : Prop where
  known : ∀ path result, m.pass.state? path = some (.ofResult result) →
    result ≠ .error .cyclicReference → EndsWith env document path result
  residual : ∀ frame ∈ m.stack, ∀ path, frame.owner = some path → ¬ frame.plan.Sinks →
    Residual env document (Plan.ofFormula document path) frame.plan
  awaited : ∀ frame ∈ m.stack, ∀ path waiting next, frame.plan = .await path waiting next →
    ∀ found ∈ document.formulasWithin path,
      found ∈ waiting ∨ ∃ value, m.pass.state? found = some (.resolved value)

theorem start_agrees (env : Environment) (document : Value) :
    Agrees env document ⟨[], Pass.start document⟩ := by
  refine ⟨fun path result here => ?_, fun _ mem => (List.not_mem_nil mem).elim,
    fun _ mem => (List.not_mem_nil mem).elim⟩
  have unsettled := state?_start here
  cases result <;> cases unsettled

theorem Agrees.endsWith_valueAt {m : Machine} (hm : Agrees env document m) {path : DocPath}
    (h : ∃ value, m.pass.state? path = some (.resolved value)) :
    EndsWith env document path (.ok (m.pass.valueAt path)) := by
  obtain ⟨value, here⟩ := h
  rw [Pass.valueAt_eq here]
  exact hm.known path (.ok value) here (by simp)

theorem plan_frameOf {tree : Tree} (shape : tree.blank = Tree.ofValue document) {path : DocPath}
    {cell : Cell} (here : tree.cell? path = some cell) :
    (frameOf document path cell.source).plan = Plan.ofFormula document path := by
  rw [Plan.ofFormula, Tree.source_of_shape shape here]
  rfl

theorem step_known {m m' : Machine} (h : Step env document m m') (hm : Agrees env document m)
    {path : DocPath} {result : Except FaultKind Value}
    (here : m'.pass.state? path = some (.ofResult result))
    (apart : result ≠ .error .cyclicReference) : EndsWith env document path result := by
  rcases step_settles h here (CellState.isSettled_ofResult result) with
    old | ⟨outcome, rest, stack, same, _⟩
  · exact hm.known path result old apart
  · rw [CellState.ofOutcome_eq] at same
    cases CellState.ofResult_injective same
    have floats : ¬ (Plan.done outcome).Sinks := by
      rintro ⟨e, failed, kind⟩
      cases failed
      exact apart (congrArg Except.error kind)
    obtain ⟨level, whole⟩ := (hm.residual _ (stack ▸ List.mem_cons_self) path rfl floats).back 0 _
      rfl
    exact ⟨level + 1, whole⟩

theorem endsWith_of_not_formula {path : DocPath}
    (h : ¬ ∃ source, document.get? path = some (.formula source)) :
    EndsWith env document path (.error .reference) := by
  refine ⟨1, ?_⟩
  rw [answerWithin, Plan.ofFormula]
  split
  · next source here => exact absurd ⟨source, here⟩ h
  · rfl

theorem kind_dependencyFailed_of_ne {path : DocPath} {kind : FaultKind}
    (h : kind ≠ .cyclicReference) : (EvalError.dependencyFailed path kind).kind = .reference :=
  if_neg h

/-- An evaluation that goes on with what is there for a formula comes to the same. -/
theorem residual_reply {stack : List Frame} {pass : Pass} (coherent : Coherent document ⟨stack, pass⟩)
    (known : ∀ path result, pass.state? path = some (.ofResult result) →
      result ≠ .error .cyclicReference → EndsWith env document path result)
    {plan : Plan Value} {path : DocPath} {outcome : Except EvalError Value}
    (asked : plan.asked? = some path) (reply : pass.reply? path = some outcome)
    (floats : ¬ (plan.deliver outcome).Sinks) :
    Residual env document plan (plan.deliver outcome) := by
  rw [Pass.reply?] at reply
  split at reply
  · next absent =>
    cases reply
    refine .deliver_error asked (endsWith_of_not_formula fun formula => ?_) rfl
    obtain ⟨state, here⟩ := coherent.exists_state?_iff.mpr formula
    rw [absent] at here
    cases here
  · next value here =>
    cases reply
    exact .deliver_ok asked (known path (.ok value) here (by simp))
  · cases reply
    exact absurd ((Plan.sinks_deliver_iff asked).mpr rfl) floats
  · next kind here =>
    cases reply
    rw [Plan.sinks_deliver_iff asked, kind_dependencyFailed_iff] at floats
    exact .deliver_error asked (known path (.error kind) here (by simpa using floats))
      (kind_dependencyFailed_of_ne floats)
  · cases reply

/-- An evaluation that goes on with what one above it has come to comes to the same. -/
theorem residual_verdict {plan : Plan Value} {path : DocPath} {outcome : Except EvalError Value}
    (asked : plan.asked? = some path)
    (ends : outcome.mapError EvalError.kind ≠ .error .cyclicReference →
      EndsWith env document path (outcome.mapError EvalError.kind))
    (floats : ¬ (plan.deliver (Resolution.verdict path outcome)).Sinks) :
    Residual env document plan (plan.deliver (Resolution.verdict path outcome)) := by
  cases outcome with
  | ok value => exact .deliver_ok asked (ends (by simp [Except.mapError]))
  | error e =>
    rw [Resolution.verdict, Plan.sinks_deliver_iff asked, kind_dependencyFailed_iff] at floats
    exact .deliver_error asked (ends fun same => floats (Except.error.inj same))
      (kind_dependencyFailed_of_ne floats)

theorem pendingAt_eq_filter {pass : Pass} (shape : pass.tree.blank = Tree.ofValue document)
    (wellFormed : document.WellFormed) (path : DocPath) :
    Plan.pendingAt pass.tree path = (document.formulasWithin path).filter
      (pass.tree.passesAt fun state => !state.isResolved) := by
  rw [Plan.pendingAt, Tree.cellsWithin_eq_filter (Tree.keyed_of_shape shape wellFormed),
    ← Tree.cellsWithin_blank, shape]
  rfl

theorem resolved_of_not_pending {pass : Pass} (shape : pass.tree.blank = Tree.ofValue document)
    (wellFormed : document.WellFormed) {path found : DocPath}
    (mem : found ∈ document.formulasWithin path)
    (dropped : pass.tree.passesAt (fun state => !state.isResolved) found = false) :
    ∃ value, pass.state? found = some (.resolved value) := by
  obtain ⟨_, source, formula⟩ := (Value.mem_formulasWithin_iff wellFormed).mp mem
  obtain ⟨state, cell⟩ := Tree.cell?_of_shape shape formula
  rw [Pass.state?_of_cell? cell]
  simp only [Tree.passesAt, cell, Option.any_some] at dropped
  cases state with
  | resolved value => exact ⟨value, rfl⟩
  | _ => cases dropped

/-- A node whose formulas all have a value gives its part of the document with them put in. -/
theorem collected_eq {pass : Pass} (shape : pass.tree.blank = Tree.ofValue document)
    (wellFormed : document.WellFormed) {path : DocPath} {part : Value}
    (here : document.get? path = some part)
    (resolved : ∀ found ∈ document.formulasWithin path,
      ∃ value, pass.state? found = some (.resolved value)) :
    Plan.collected pass.tree path = .ok (part.replaceFormulas pass.valueAt path) := by
  rcases Plan.node_of_shape shape path with ⟨_, nowhere⟩ | ⟨tree, value, node, there, same⟩
  · rw [here] at nowhere
    cases nowhere
  · cases here.symm.trans there
    have all : tree.AllCells (fun found cell => cell.state = .resolved (pass.valueAt found)) path := by
      refine Tree.allCells_part (Tree.keyed_of_shape shape wellFormed) node ?_
      intro found cell inside cellHere
      obtain ⟨value, state⟩ := resolved found ((Value.mem_formulasWithin_iff wellFormed).mpr
        ⟨inside, cell.source, Tree.source_of_shape shape cellHere⟩)
      rw [Pass.valueAt_eq state]
      rw [Pass.state?_of_cell? cellHere] at state
      exact Option.some.inj state
    rw [Plan.collected, node, Option.bind_some, all.toValue?_eq same]

/-- Functions of the arguments and the time alone give the same at every call. -/
theorem call_eq_firstCall (pure : ∀ f ∈ env.registry, f.Pure) (name : String) (args : List Value)
    (pass : Pass) : (Interpreter.call env name args pass).1 = Interpreter.firstCall env name args := by
  simp only [Interpreter.firstCall, Interpreter.call]
  cases found : env.registry.lookup? name with
  | none => rfl
  | some f =>
    have same := (pure f (List.mem_of_find?_eq_some found)).call_eq args env.now
      (env.draws pass.calls) (env.draws (Pass.start .null).calls)
    simp only [same]
    split
    · rfl
    · split <;> rfl

theorem residual_call (pure : ∀ f ∈ env.registry, f.Pure) (name : String) (args : List Value)
    (next : Value → Plan Value) (pass : Pass) :
    Residual env document (.call name args next)
      (.done (Interpreter.call env name args pass).1 >>= next) := by
  refine .of_answer_eq fun level => ?_
  rw [call_eq_firstCall pure, Plan.answer_call]
  cases Interpreter.firstCall env name args <;> rfl

/-- Every evaluation that goes on still comes to what its formula comes to. -/
theorem step_residual {m m' : Machine} (h : Step env document m m')
    (pure : ∀ f ∈ env.registry, f.Pure) (wellFormed : document.WellFormed)
    (coherent : Coherent document m) (hm : Agrees env document m) {frame : Frame}
    (mem : frame ∈ m'.stack) {path : DocPath} (owner : frame.owner = some path)
    (floats : ¬ frame.plan.Sinks) :
    Residual env document (Plan.ofFormula document path) frame.plan := by
  have before : ∀ frame ∈ m.stack, frame.owner = some path →
      (∀ outcome, frame.plan ≠ .done outcome) →
      Residual env document (Plan.ofFormula document path) frame.plan :=
    fun frame mem owner going =>
      hm.residual frame mem path owner (Plan.not_sinks_of_ne_done going)
  cases step_origin h coherent mem with
  | kept older => exact hm.residual frame older path owner floats
  | formula cell =>
    cases owner
    rw [plan_frameOf coherent.shape cell]
    exact .refl _
  | expression _ => cases owner
  | reply asker asked reply =>
    have whole := before _ asker owner (Plan.ne_done_of_asked asked)
    exact whole.trans (residual_reply coherent hm.known asked reply floats)
  | verdict asker asked ended =>
    have whole := before _ asker owner (Plan.ne_done_of_asked asked)
    rw [CellState.ofOutcome_eq] at ended
    exact whole.trans (residual_verdict asked (step_known h hm ended) floats)
  | gather loader =>
    refine (before _ loader owner (by simp)).trans ?_
    rw [pendingAt_eq_filter coherent.shape wellFormed]
    exact .gather fun found inside dropped =>
      hm.endsWith_valueAt (resolved_of_not_pending coherent.shape wellFormed inside dropped)
  | @collect _ node next loader =>
    have resolved : ∀ found ∈ document.formulasWithin node,
        ∃ value, m.pass.state? found = some (.resolved value) := fun found inside =>
      (hm.awaited _ loader node [] next rfl found inside).resolve_left List.not_mem_nil
    obtain ⟨⟨part, here⟩, _⟩ := proceeds_of_ne_done (coherent.fits _ loader) (by simp)
    refine (before _ loader owner (by simp)).trans ?_
    rw [collected_eq coherent.shape wellFormed here resolved]
    exact .collect wellFormed here fun found inside => hm.endsWith_valueAt (resolved found inside)
  | call caller => exact (before _ caller owner (by simp)).trans (residual_call pure _ _ _ _)

theorem resolved_of_reply {pass : Pass} {path : DocPath} {value : Value}
    (h : pass.reply? path = some (.ok value)) : pass.state? path = some (.resolved value) := by
  rw [Pass.reply?] at h
  split at h <;> cases h
  assumption

theorem fits_ne_await {plan : Plan Value} (fits : plan.Fits document) {path : DocPath}
    {waiting : List DocPath} {next : Value → Plan Value} : plan ≠ .await path waiting next := by
  rintro rfl
  exact fits

/-- A plan that loads a node after it got something was about to ask for one formula more. -/
theorem await_of_deliver {plan : Plan Value} (proceeds : plan.Proceeds document) {needed : DocPath}
    (asked : plan.asked? = some needed) {outcome : Except EvalError Value} {path : DocPath}
    {waiting : List DocPath} {next : Value → Plan Value}
    (h : plan.deliver outcome = .await path waiting next) :
    (∃ value, outcome = .ok value) ∧ plan = .await path (needed :: waiting) next := by
  cases outcome with
  | error e =>
    rw [Plan.deliver_error asked] at h
    cases h
  | ok value =>
    refine ⟨⟨value, rfl⟩, ?_⟩
    cases plan with
    | ask _ next => exact absurd h (fits_ne_await (proceeds.2 value))
    | await node waiting next =>
      cases waiting with
      | nil => cases asked
      | cons first rest =>
        cases asked
        cases h
        rfl
    | _ => cases asked

/-- What a node waits for shrinks only as formulas get their values. -/
theorem step_awaited {m m' : Machine} (h : Step env document m m')
    (wellFormed : document.WellFormed) (coherent : Coherent document m)
    (hm : Agrees env document m) {frame : Frame} (mem : frame ∈ m'.stack) {path : DocPath}
    {waiting : List DocPath} {next : Value → Plan Value}
    (loads : frame.plan = .await path waiting next) {found : DocPath}
    (inside : found ∈ document.formulasWithin path) :
    found ∈ waiting ∨ ∃ value, m'.pass.state? found = some (.resolved value) := by
  have kept : ∀ frame ∈ m.stack, ∀ waiting, frame.plan = .await path waiting next →
      found ∈ waiting ∨ ∃ value, m'.pass.state? found = some (.resolved value) := by
    intro frame mem waiting loads
    refine (hm.awaited frame mem path waiting next loads found inside).imp_right ?_
    rintro ⟨value, here⟩
    exact ⟨value, step_keeps_settled h coherent here trivial⟩
  -- what is left to ask for after one more formula is there
  have fewer : ∀ frame ∈ m.stack, ∀ needed value,
      frame.plan = .await path (needed :: waiting) next →
      m'.pass.state? needed = some (.resolved value) →
      found ∈ waiting ∨ ∃ value, m'.pass.state? found = some (.resolved value) := by
    intro frame mem needed value loads here
    rcases kept frame mem _ loads with waits | there
    · rcases List.mem_cons.mp waits with rfl | waits
      · exact .inr ⟨value, here⟩
      · exact .inl waits
    · exact .inr there
  cases step_origin h coherent mem with
  | kept older => exact kept frame older waiting loads
  | formula _ => exact absurd loads (fits_ne_await (Plan.fits_ofText _ _))
  | expression fits => exact absurd loads (fits_ne_await fits)
  | @reply _ _ needed _ asker asked reply =>
    have proceeds := proceeds_of_asked (coherent.fits _ asker) asked
    obtain ⟨⟨value, rfl⟩, before⟩ := await_of_deliver proceeds asked loads
    exact fewer _ asker needed value before
      (step_keeps_settled h coherent (resolved_of_reply reply) trivial)
  | @verdict _ _ needed outcome asker asked ended =>
    have proceeds := proceeds_of_asked (coherent.fits _ asker) asked
    obtain ⟨⟨value, same⟩, before⟩ := await_of_deliver proceeds asked loads
    cases outcome with
    | error e => cases same
    | ok result => exact fewer _ asker needed result before ended
  | gather loader =>
    cases loads
    rw [pendingAt_eq_filter coherent.shape wellFormed]
    cases listed : m.pass.tree.passesAt (fun state => !state.isResolved) found with
    | true => exact .inl (List.mem_filter.mpr ⟨inside, listed⟩)
    | false =>
      obtain ⟨value, here⟩ := resolved_of_not_pending coherent.shape wellFormed inside listed
      exact .inr ⟨value, step_keeps_settled h coherent here trivial⟩
  | collect loader =>
    have before := proceeds_of_ne_done (coherent.fits _ loader) (by simp)
    exact absurd loads (fits_ne_await (fits_collected_bind before.2 _ _))
  | call caller =>
    have before := proceeds_of_ne_done (coherent.fits _ caller) (by simp)
    exact absurd loads (fits_ne_await (fits_call_bind before _ _ _ _))

theorem step_agrees {m m' : Machine} (h : Step env document m m')
    (pure : ∀ f ∈ env.registry, f.Pure) (wellFormed : document.WellFormed)
    (coherent : Coherent document m) (hm : Agrees env document m) : Agrees env document m' where
  known _ _ := step_known h hm
  residual _ mem _ := step_residual h pure wellFormed coherent hm mem
  awaited _ mem _ _ _ loads _ := step_awaited h wellFormed coherent hm mem loads

theorem execution_agrees {m m' : Machine} (h : Execution env document m m')
    (pure : ∀ f ∈ env.registry, f.Pure) (wellFormed : document.WellFormed)
    (coherent : Coherent document m) (hm : Agrees env document m) : Agrees env document m' := by
  induction h with
  | refl => exact hm
  | tail before step ih =>
    exact step_agrees step pure wellFormed (execution_coherent before coherent) ih

/-! ## Formulas without an answer -/

/-- A formula is known at a level only if another one is known below it. -/
def Requires (env : Environment) (document : Value) (path other : DocPath) : Prop :=
  ∀ level result, answerWithin env document (level + 1) path = some result →
    ∃ result', answerWithin env document level other = some result'

theorem Agrees.requires {m : Machine} (hm : Agrees env document m) {frame : Frame}
    (mem : frame ∈ m.stack) {path other : DocPath} (owner : frame.owner = some path)
    (asked : frame.plan.asked? = some other) : Requires env document path other := by
  intro level result here
  have rest := (hm.residual frame mem path owner (Plan.not_sinks_of_asked asked)).forth level _ here
  rw [Plan.answer_of_asked asked, Answer.ofFormula] at rest
  rcases known : answerWithin env document level other with _ | result'
  · rw [known] at rest
    cases rest
  · exact ⟨result', rfl⟩

theorem execution_requires {m m' : Machine} (h : Execution env document m m')
    (pure : ∀ f ∈ env.registry, f.Pure) (wellFormed : document.WellFormed)
    (coherent : Coherent document m) (agrees : Agrees env document m)
    (hm : Trapped (Requires env document) m) : Trapped (Requires env document) m' := by
  induction h with
  | refl => exact hm
  | tail before step ih =>
    have known := execution_agrees before pure wellFormed coherent agrees
    exact step_trapped step (execution_coherent before coherent) (fun _ _ => id)
      (fun _ mem _ _ => known.requires mem) ih

/-! ## Complete passes -/

/-- In the end a formula has failed as cyclic and has no answer, or it has come to its answer. -/
theorem Complete.state?_cases {pass : Pass} (h : Complete env document pass)
    (pure : ∀ f ∈ env.registry, f.Pure) (wellFormed : document.WellFormed) {path : DocPath}
    {state : CellState} (here : pass.state? path = some state) :
    (state = .failed .cyclicReference ∧ ∀ result, ¬ EndsWith env document path result) ∨
      ∃ result, state = .ofResult result ∧ EndsWith env document path result := by
  have coherent := start_coherent document
  have agrees := execution_agrees h.reached pure wellFormed coherent (start_agrees env document)
  have trapped := execution_requires h.reached pure wellFormed coherent
    (start_agrees env document) (start_trapped _ document)
  have unknown : ∀ level path, pass.state? path = some (.failed .cyclicReference) →
      answerWithin env document level path = none := by
    intro level
    induction level with
    | zero => exact fun _ _ => rfl
    | succ level ih =>
      intro path failed
      obtain ⟨other, requires, next | ⟨mem, _⟩⟩ := trapped path (.inl failed)
      · rcases known : answerWithin env document (level + 1) path with _ | result
        · rfl
        · obtain ⟨result', below⟩ := requires level result known
          rw [ih other next] at below
          cases below
      · cases mem
  have ended : ∀ result, state = .ofResult result → (state = .failed .cyclicReference ∧
      ∀ result, ¬ EndsWith env document path result) ∨
      ∃ result, state = .ofResult result ∧ EndsWith env document path result := by
    rintro result rfl
    by_cases cyclic : result = .error .cyclicReference
    · subst cyclic
      refine .inl ⟨rfl, ?_⟩
      rintro other ⟨level, known⟩
      rw [unknown level path here] at known
      cases known
    · exact .inr ⟨result, rfl, agrees.known path result here cyclic⟩
  have settled := h.settled path state here
  cases state with
  | unresolved => exact settled.elim
  | inProgress => exact settled.elim
  | resolved value => exact ended (.ok value) rfl
  | failed kind => exact ended (.error kind) rfl

end Machine

end FormulaDoc
