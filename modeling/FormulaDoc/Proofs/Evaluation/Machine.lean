import Mathlib.Data.List.Chain
import Mathlib.Data.List.Nodup
import Mathlib.Logic.Relation
import FormulaDoc.Proofs.Evaluation.Fitting

/-!
# Evaluation in single steps

The evaluations under way form a stack: the innermost one runs, and each of the others waits for the
formula of the one above it. A machine in this form shows what holds at any moment of an evaluation,
between the beginning and the end of a resolution as well. Formulas may be begun in any order.
-/
namespace FormulaDoc

namespace Pass

def state? (pass : Pass) (path : DocPath) : Option CellState :=
  (pass.tree.cell? path).map (·.state)

@[simp] theorem state?_note (pass : Pass) (asker : Option DocPath) (path other : DocPath) :
    (pass.note asker path).state? other = pass.state? other := rfl

@[simp] theorem state?_record (pass : Pass) (path other : DocPath) (e : EvalError) :
    (pass.record path e).state? other = pass.state? other := rfl

theorem state?_setState (pass : Pass) (path other : DocPath) (state : CellState) :
    (pass.setState path state).state? other =
      if path = other then (pass.state? other).map fun _ => state else pass.state? other := by
  simp only [state?, setState, Tree.cell?_setState]
  split <;> cases pass.tree.cell? other <;> rfl

/-- The states are in the tree. -/
theorem state?_of_tree {pass pass' : Pass} (same : pass'.tree = pass.tree) (path : DocPath) :
    pass'.state? path = pass.state? path := by rw [state?, same, state?]

@[simp] theorem state?_call (env : Environment) (name : String) (args : List Value) (pass : Pass)
    (path : DocPath) : (Interpreter.call env name args pass).2.state? path = pass.state? path :=
  state?_of_tree (Interpreter.tree_call env name args pass) path

theorem state?_of_cell? {pass : Pass} {path : DocPath} {cell : Cell}
    (h : pass.tree.cell? path = some cell) : pass.state? path = some cell.state := by
  rw [state?, h, Option.map_some]

end Pass

def CellState.ofOutcome : Except EvalError Value → CellState
  | .ok value => .resolved value
  | .error e => .failed e.kind

/-- Whether a formula has come to an end, one way or the other. -/
def CellState.IsSettled : CellState → Prop
  | resolved _ | failed _ => True
  | unresolved | inProgress => False

theorem CellState.isSettled_ofOutcome (outcome : Except EvalError Value) :
    (ofOutcome outcome).IsSettled := by cases outcome <;> trivial

/-- What asking for a formula gives at once, unless it has to be evaluated first. -/
def Pass.reply? (pass : Pass) (path : DocPath) : Option (Except EvalError Value) :=
  match pass.state? path with
  | none => some (.error (.noProperty "formula" path))
  | some (.resolved value) => some (.ok value)
  | some .inProgress => some (.error (.cyclicReference path))
  | some (.failed kind) => some (.error (.dependencyFailed path kind))
  | some .unresolved => none

/-- What the end of an evaluation gives to whoever asked for it. -/
def Resolution.verdict (path : DocPath) : Except EvalError Value → Except EvalError Value
  | .ok value => .ok value
  | .error e => .error (.dependencyFailed path e.kind)

def Pass.conclude (pass : Pass) (path : DocPath) : Except EvalError Value → Pass
  | .ok value => pass.setState path (.resolved value)
  | .error e => (pass.setState path (.failed e.kind)).record path e

theorem Resolution.conclude_eq (path : DocPath) (outcome : Except EvalError Value) (pass : Pass) :
    conclude path outcome pass = (verdict path outcome, pass.conclude path outcome) := by
  cases outcome <;> rfl

namespace Pass

theorem state?_conclude (pass : Pass) (path other : DocPath) (outcome : Except EvalError Value) :
    (pass.conclude path outcome).state? other =
      if path = other then (pass.state? other).map fun _ => .ofOutcome outcome
      else pass.state? other := by
  cases outcome <;> simp only [conclude, state?_record, state?_setState, CellState.ofOutcome]

@[simp] theorem blank_conclude (pass : Pass) (path : DocPath) (outcome : Except EvalError Value) :
    (pass.conclude path outcome).tree.blank = pass.tree.blank := by
  cases outcome <;> exact Tree.blank_setState _ _ _

@[simp] theorem needs_conclude (pass : Pass) (path : DocPath) (outcome : Except EvalError Value) :
    (pass.conclude path outcome).needs = pass.needs := by cases outcome <;> rfl

end Pass

namespace Plan

variable {α : Type}

def asked? : Plan α → Option DocPath
  | ask path _ | await _ (path :: _) _ => some path
  | _ => none

/-- Goes on with what asking for a formula gave. -/
def deliver (outcome : Except EvalError Value) : Plan α → Plan α
  | ask _ next =>
    match outcome with
    | .ok value => next value
    | .error e => fail e
  | await path (_ :: waiting) next =>
    match outcome with
    | .ok _ => await path waiting next
    | .error e => fail e
  | plan => plan

theorem ne_done_of_asked {plan : Plan α} {path : DocPath} (asked : plan.asked? = some path)
    (outcome : Except EvalError α) : plan ≠ .done outcome := by
  rintro rfl
  cases asked

theorem deliver_error {plan : Plan α} {path : DocPath} (h : plan.asked? = some path)
    (e : EvalError) : plan.deliver (.error e) = fail e := by
  cases plan with
  | ask _ _ => rfl
  | await _ waiting _ =>
    cases waiting with
    | nil => cases h
    | cons _ _ => rfl
  | _ => cases h

/-- A plan that fits a document or is in the middle of loading a part of it. -/
def Proceeds (document : Value) : Plan α → Prop
  | await path _ next => (∃ part, document.get? path = some part) ∧
    ∀ value, (next value).Fits document
  | plan => plan.Fits document

theorem Fits.proceeds {document : Value} {plan : Plan α} (fits : plan.Fits document) :
    plan.Proceeds document := by
  cases plan with
  | await _ _ _ => exact fits.elim
  | _ => exact fits

theorem Proceeds.deliver {document : Value} {plan : Plan α} (proceeds : plan.Proceeds document)
    (value : Value) : (plan.deliver (.ok value)).Proceeds document := by
  cases plan with
  | ask _ next => exact (proceeds.2 value).proceeds
  | await _ waiting _ =>
    cases waiting with
    | nil => exact proceeds
    | cons _ _ => exact proceeds
  | _ => exact proceeds

end Plan

/-- An evaluation under way: the formula it belongs to, unless it is an expression that is not part
of the document, and what is still to be done. -/
structure Frame where
  owner : Option DocPath
  plan : Plan Value

/-- One moment: the evaluations under way, the innermost first, and the pass. -/
structure Machine where
  stack : List Frame
  pass : Pass

namespace Machine

def owners (stack : List Frame) : List DocPath := stack.filterMap Frame.owner

/-- Gives an outcome to the evaluation that waits for it, if there is one. -/
def deliver (outcome : Except EvalError Value) : List Frame → List Frame
  | [] => []
  | frame :: rest => { frame with plan := frame.plan.deliver outcome } :: rest

@[simp] theorem owners_deliver (outcome : Except EvalError Value) (stack : List Frame) :
    owners (deliver outcome stack) = owners stack := by
  cases stack <;> rfl

def frameOf (document : Value) (path : DocPath) (source : String) : Frame :=
  ⟨some path, Plan.ofText document (Scope.ofFormula path) source⟩

/-- One step of an evaluation. -/
inductive Step (env : Environment) (document : Value) : Machine → Machine → Prop where
  /-- A formula is begun while nothing else is under way. -/
  | begin {pass path source} : pass.tree.cell? path = some ⟨source, .unresolved⟩ →
      Step env document ⟨[], pass⟩
        ⟨[frameOf document path source], pass.setState path .inProgress⟩
  /-- An expression that is not part of the document is begun. -/
  | express {pass plan} : plan.Fits document → Step env document ⟨[], pass⟩ ⟨[⟨none, plan⟩], pass⟩
  /-- A formula is begun because another evaluation needs it. -/
  | enter {owner plan rest pass path source} : plan.asked? = some path →
      pass.tree.cell? path = some ⟨source, .unresolved⟩ →
      Step env document ⟨⟨owner, plan⟩ :: rest, pass⟩
        ⟨frameOf document path source :: ⟨owner, plan⟩ :: rest,
          (pass.note owner path).setState path .inProgress⟩
  /-- A formula that is needed needs no evaluation. -/
  | reply {owner plan rest pass path outcome} : plan.asked? = some path →
      pass.reply? path = some outcome →
      Step env document ⟨⟨owner, plan⟩ :: rest, pass⟩
        ⟨⟨owner, plan.deliver outcome⟩ :: rest, pass.note owner path⟩
  /-- The evaluation of a formula ends. -/
  | leave {path outcome rest pass} : Step env document ⟨⟨some path, .done outcome⟩ :: rest, pass⟩
        ⟨deliver (Resolution.verdict path outcome) rest, pass.conclude path outcome⟩
  | finish {outcome pass} : Step env document ⟨[⟨none, .done outcome⟩], pass⟩ ⟨[], pass⟩
  | gather {owner path next rest pass} :
      Step env document ⟨⟨owner, .gather path next⟩ :: rest, pass⟩
        ⟨⟨owner, .await path (Plan.pendingAt pass.tree path) next⟩ :: rest, pass⟩
  | collect {owner path next rest pass} :
      Step env document ⟨⟨owner, .await path [] next⟩ :: rest, pass⟩
        ⟨⟨owner, .done (Plan.collected pass.tree path) >>= next⟩ :: rest, pass⟩
  | call {owner name args next rest pass} :
      Step env document ⟨⟨owner, .call name args next⟩ :: rest, pass⟩
        ⟨⟨owner, .done (Interpreter.call env name args pass).1 >>= next⟩ :: rest,
          (Interpreter.call env name args pass).2⟩

abbrev Execution (env : Environment) (document : Value) : Machine → Machine → Prop :=
  Relation.ReflTransGen (Step env document)

/-- A step inside of an evaluation: something is under way before it and after it. -/
def Inner (env : Environment) (document : Value) (m m' : Machine) : Prop :=
  Step env document m m' ∧ m.stack ≠ [] ∧ m'.stack ≠ []

/-- An execution that nothing from outside is begun in. -/
abbrev Run (env : Environment) (document : Value) : Machine → Machine → Prop :=
  Relation.ReflTransGen (Inner env document)

/-- Each evaluation but the innermost waits for the formula of the one above it. -/
def Waits (above below : Frame) : Prop :=
  ∃ path, above.owner = some path ∧ below.plan.asked? = some path

/-- What holds at every moment: the tree keeps the document's shape, the formulas in progress are
those under evaluation, each once, and every plan fits the document until something it needs fails. -/
structure Coherent (document : Value) (m : Machine) : Prop where
  shape : m.pass.tree.blank = Tree.ofValue document
  active : ∀ path, m.pass.state? path = some .inProgress ↔ path ∈ owners m.stack
  nodup : (owners m.stack).Nodup
  linked : m.stack.IsChain Waits
  fits : ∀ frame ∈ m.stack, frame.plan.Proceeds document ∨ ∃ e, frame.plan = .fail e

variable {env : Environment} {document : Value}

theorem Step.inner {frame frame' : Frame} {rest rest' : List Frame} {pass pass' : Pass}
    (h : Step env document ⟨frame :: rest, pass⟩ ⟨frame' :: rest', pass'⟩) :
    Inner env document ⟨frame :: rest, pass⟩ ⟨frame' :: rest', pass'⟩ :=
  ⟨h, List.cons_ne_nil _ _, List.cons_ne_nil _ _⟩

theorem Run.execution {m m' : Machine} (h : Run env document m m') :
    Execution env document m m' := by
  induction h with
  | refl => exact .refl
  | tail _ inner ih => exact ih.tail inner.1

theorem isChain_replace {frame other : Frame} {rest : List Frame}
    (h : (frame :: rest).IsChain Waits) (same : other.owner = frame.owner) :
    (other :: rest).IsChain Waits := by
  cases rest with
  | nil => exact .singleton _
  | cons below rest =>
    rw [List.isChain_cons_cons] at h ⊢
    obtain ⟨⟨path, owner, asked⟩, h⟩ := h
    exact ⟨⟨path, same.trans owner, asked⟩, h⟩

theorem isChain_deliver {frame : Frame} {rest : List Frame} (h : (frame :: rest).IsChain Waits)
    (outcome : Except EvalError Value) : (deliver outcome rest).IsChain Waits := by
  cases rest with
  | nil => exact .nil
  | cons below rest => exact isChain_replace (List.isChain_cons_cons.mp h).2 rfl

/-- Whoever an ending evaluation gives its outcome to has asked for it. -/
theorem Coherent.asked {frame below : Frame} {rest : List Frame} {pass : Pass} {path : DocPath}
    (h : Coherent document ⟨frame :: below :: rest, pass⟩) (owner : frame.owner = some path) :
    below.plan.asked? = some path := by
  obtain ⟨other, same, asked⟩ := (List.isChain_cons_cons.mp h.linked).1
  rw [owner] at same
  cases same
  exact asked

theorem proceeds_of_ne_done {plan : Plan Value}
    (fits : plan.Proceeds document ∨ ∃ e, plan = .fail e)
    (going : ∀ outcome, plan ≠ .done outcome) : plan.Proceeds document := by
  rcases fits with fits | ⟨e, same⟩
  · exact fits
  · exact absurd same (going _)

theorem proceeds_of_asked {plan : Plan Value} {path : DocPath}
    (fits : plan.Proceeds document ∨ ∃ e, plan = .fail e) (asked : plan.asked? = some path) :
    plan.Proceeds document := by
  rcases fits with fits | ⟨e, rfl⟩
  · exact fits
  · cases asked

theorem proceeds_deliver {plan : Plan Value} {path : DocPath}
    (fits : plan.Proceeds document ∨ ∃ e, plan = .fail e) (asked : plan.asked? = some path)
    (outcome : Except EvalError Value) :
    (plan.deliver outcome).Proceeds document ∨ ∃ e, plan.deliver outcome = .fail e := by
  cases outcome with
  | error e => exact .inr ⟨e, Plan.deliver_error asked e⟩
  | ok value => exact .inl ((proceeds_of_asked fits asked).deliver value)

theorem fits_collected_bind {next : Value → Plan Value}
    (fits : ∀ value, (next value).Fits document) (tree : Tree) (path : DocPath) :
    (.done (Plan.collected tree path) >>= next).Fits document := by
  refine (Plan.fits_done fun e failed => ?_).bind fits
  rw [Plan.collected] at failed
  split at failed <;> cases failed
  trivial

theorem fits_call_bind {next : Value → Plan Value} (fits : ∀ value, (next value).Fits document)
    (env : Environment) (name : String) (args : List Value) (pass : Pass) :
    (.done (Interpreter.call env name args pass).1 >>= next).Fits document :=
  (Plan.fits_done fun _ failed => (EvalError.native_of_call failed).own).bind fits

/-- The formulas of the document are those that have a state. -/
theorem Coherent.exists_state?_iff {stack : List Frame} {pass : Pass}
    (h : Coherent document ⟨stack, pass⟩) {path : DocPath} :
    (∃ state, pass.state? path = some state) ↔
      ∃ source, document.get? path = some (.formula source) := by
  constructor
  · rintro ⟨state, here⟩
    obtain ⟨cell, found, _⟩ := Option.map_eq_some_iff.mp here
    exact ⟨cell.source, Tree.source_of_shape h.shape found⟩
  · rintro ⟨source, here⟩
    obtain ⟨state, found⟩ := Tree.cell?_of_shape h.shape here
    exact ⟨state, Pass.state?_of_cell? found⟩

theorem state?_unresolved {pass : Pass} {path : DocPath} {source : String}
    (h : pass.tree.cell? path = some ⟨source, .unresolved⟩) :
    pass.state? path = some .unresolved := Pass.state?_of_cell? h

theorem Coherent.not_mem_owners {stack : List Frame} {pass : Pass} {path : DocPath}
    {source : String} (h : Coherent document ⟨stack, pass⟩)
    (cell : pass.tree.cell? path = some ⟨source, .unresolved⟩) : path ∉ owners stack := by
  intro mem
  have busy := (h.active path).mpr mem
  rw [state?_unresolved cell] at busy
  cases busy

theorem active_setState {pass : Pass} {path : DocPath} {stack : List Frame} {source : String}
    (active : ∀ other, pass.state? other = some .inProgress ↔ other ∈ owners stack)
    (cell : pass.tree.cell? path = some ⟨source, .unresolved⟩) (other : DocPath) :
    (pass.setState path .inProgress).state? other = some .inProgress ↔
      other ∈ path :: owners stack := by
  rw [Pass.state?_setState, List.mem_cons]
  by_cases same : path = other
  · subst same
    simp [state?_unresolved cell]
  · simp [same, Ne.symm same, active other]

/-! ## What a step does -/

/-- Where an evaluation that is under way after a step comes from. -/
inductive Origin (env : Environment) (document : Value) (m m' : Machine) : Frame → Prop where
  | kept {frame} : frame ∈ m.stack → Origin env document m m' frame
  | formula {path source} : m.pass.tree.cell? path = some ⟨source, .unresolved⟩ →
      Origin env document m m' (frameOf document path source)
  | expression {plan} : plan.Fits document → Origin env document m m' ⟨none, plan⟩
  | reply {owner plan path outcome} : ⟨owner, plan⟩ ∈ m.stack → plan.asked? = some path →
      m.pass.reply? path = some outcome → Origin env document m m' ⟨owner, plan.deliver outcome⟩
  /-- The formula that it waited for has come to its end. -/
  | verdict {owner plan path outcome} : ⟨owner, plan⟩ ∈ m.stack → plan.asked? = some path →
      m'.pass.state? path = some (.ofOutcome outcome) →
      Origin env document m m' ⟨owner, plan.deliver (Resolution.verdict path outcome)⟩
  | gather {owner path next} : ⟨owner, .gather path next⟩ ∈ m.stack →
      Origin env document m m' ⟨owner, .await path (Plan.pendingAt m.pass.tree path) next⟩
  | collect {owner path next} : ⟨owner, .await path [] next⟩ ∈ m.stack →
      Origin env document m m' ⟨owner, .done (Plan.collected m.pass.tree path) >>= next⟩
  | call {owner name args next} : ⟨owner, .call name args next⟩ ∈ m.stack →
      Origin env document m m'
        ⟨owner, .done (Interpreter.call env name args m.pass).1 >>= next⟩

theorem step_origin {m m' : Machine} (h : Step env document m m') (hm : Coherent document m)
    {frame : Frame} (mem : frame ∈ m'.stack) : Origin env document m m' frame := by
  cases h with
  | begin cell =>
    rw [List.mem_singleton.mp mem]
    exact .formula cell
  | express plan =>
    rw [List.mem_singleton.mp mem]
    exact .expression plan
  | enter asked cell =>
    rcases List.mem_cons.mp mem with rfl | older
    · exact .formula cell
    · exact .kept older
  | reply asked reply =>
    rcases List.mem_cons.mp mem with rfl | later
    · exact .reply List.mem_cons_self asked reply
    · exact .kept (List.mem_cons_of_mem _ later)
  | @leave path outcome rest pass =>
    cases rest with
    | nil => exact (List.not_mem_nil mem).elim
    | cons below rest =>
      rcases List.mem_cons.mp mem with rfl | later
      · refine .verdict (by simp) (hm.asked rfl) ?_
        rw [Pass.state?_conclude, if_pos rfl, (hm.active path).mpr List.mem_cons_self]
        rfl
      · exact .kept (by simp [later])
  | finish => exact (List.not_mem_nil mem).elim
  | gather =>
    rcases List.mem_cons.mp mem with rfl | later
    · exact .gather List.mem_cons_self
    · exact .kept (List.mem_cons_of_mem _ later)
  | collect =>
    rcases List.mem_cons.mp mem with rfl | later
    · exact .collect List.mem_cons_self
    · exact .kept (List.mem_cons_of_mem _ later)
  | call =>
    rcases List.mem_cons.mp mem with rfl | later
    · exact .call List.mem_cons_self
    · exact .kept (List.mem_cons_of_mem _ later)

theorem Origin.proceeds {m m' : Machine} {frame : Frame} (h : Origin env document m m' frame)
    (hm : Coherent document m) : frame.plan.Proceeds document ∨ ∃ e, frame.plan = .fail e := by
  cases h with
  | kept mem => exact hm.fits frame mem
  | formula _ => exact .inl (Plan.fits_ofText _ _).proceeds
  | expression fits => exact .inl fits.proceeds
  | reply mem asked _ => exact proceeds_deliver (hm.fits _ mem) asked _
  | verdict mem asked _ => exact proceeds_deliver (hm.fits _ mem) asked _
  | gather mem =>
    have before := proceeds_of_ne_done (hm.fits _ mem) (by simp)
    exact .inl before
  | collect mem =>
    have before := proceeds_of_ne_done (hm.fits _ mem) (by simp)
    exact .inl (fits_collected_bind before.2 _ _).proceeds
  | call mem =>
    have before := proceeds_of_ne_done (hm.fits _ mem) (by simp)
    exact .inl (fits_call_bind before _ _ _ _).proceeds

theorem step_coherent {m m' : Machine} (h : Step env document m m')
    (hm : Coherent document m) : Coherent document m' := by
  have fits : ∀ frame ∈ m'.stack, frame.plan.Proceeds document ∨ ∃ e, frame.plan = .fail e :=
    fun frame mem => (step_origin h hm mem).proceeds hm
  have ⟨shape, active, nodup, linked, _⟩ := hm
  cases h with
  | begin cell =>
    refine ⟨?_, active_setState active cell, List.nodup_singleton _, .singleton _, fits⟩
    exact (Tree.blank_setState _ _ _).trans shape
  | express _ => exact ⟨shape, active, nodup, .singleton _, fits⟩
  | enter asked cell =>
    refine ⟨?_, active_setState active cell, ?_, ?_, fits⟩
    · exact (Tree.blank_setState _ _ _).trans shape
    · exact List.nodup_cons.mpr ⟨hm.not_mem_owners cell, nodup⟩
    · exact List.isChain_cons_cons.mpr ⟨⟨_, rfl, asked⟩, linked⟩
  | @leave path outcome rest pass =>
    have here := (active path).mpr List.mem_cons_self
    obtain ⟨apart, nodup⟩ := List.nodup_cons.mp nodup
    refine ⟨(Pass.blank_conclude _ _ _).trans shape, ?_, ?_, isChain_deliver linked _, fits⟩
    · intro other
      rw [Pass.state?_conclude, owners_deliver]
      by_cases same : path = other
      · subst same
        simp only [↓reduceIte, here, Option.map_some, Option.some.injEq]
        constructor
        · intro settled
          cases outcome <;> cases settled
        · intro mem
          exact absurd mem apart
      · rw [if_neg same, active other]
        show other ∈ path :: owners rest ↔ _
        simp [Ne.symm same]
    · rw [owners_deliver]
      exact nodup
  | finish => exact ⟨shape, active, nodup, .nil, fits⟩
  | @call owner name args next rest pass =>
    refine ⟨?_, ?_, nodup, isChain_replace linked rfl, fits⟩
    · rw [Interpreter.tree_call]
      exact shape
    · intro other
      rw [Pass.state?_call]
      exact active other
  | _ => exact ⟨shape, active, nodup, isChain_replace linked rfl, fits⟩

theorem execution_coherent {m m' : Machine} (h : Execution env document m m')
    (hm : Coherent document m) : Coherent document m' := by
  induction h with
  | refl => exact hm
  | tail _ step ih => exact step_coherent step ih

theorem cellState_ofValue (document : Value) (path : DocPath) {cell : Cell}
    (h : (Tree.ofValue document).cell? path = some cell) : cell.state = .unresolved := by
  rw [← Tree.blank_ofValue, Tree.cell?_blank] at h
  obtain ⟨_, _, rfl⟩ := Option.map_eq_some_iff.mp h
  rfl

theorem state?_start {document : Value} {path : DocPath} {state : CellState}
    (h : (Pass.start document).state? path = some state) : state = .unresolved := by
  obtain ⟨cell, here, rfl⟩ := Option.map_eq_some_iff.mp h
  exact cellState_ofValue document path here

theorem start_coherent (document : Value) : Coherent document ⟨[], Pass.start document⟩ := by
  refine ⟨Tree.blank_ofValue document, ?_, List.nodup_nil, .nil, ?_⟩
  · intro path
    constructor
    · intro busy
      cases state?_start busy
    · intro mem
      cases mem
  · intro frame mem
    cases mem

theorem state?_begun {pass : Pass} {begun : DocPath} {source : String}
    (cell : pass.tree.cell? begun = some ⟨source, .unresolved⟩) (path : DocPath) :
    (pass.setState begun .inProgress).state? path = pass.state? path ∨
      (pass.state? path = some .unresolved ∧
        (pass.setState begun .inProgress).state? path = some .inProgress) := by
  rw [Pass.state?_setState]
  by_cases same : begun = path
  · subst same
    right
    rw [if_pos rfl, state?_unresolved cell]
    exact ⟨rfl, rfl⟩
  · left
    rw [if_neg same]

/-- What a step does to the state of a formula: nothing, unless it begins or ends the formula. -/
theorem step_state? {m m' : Machine} (h : Step env document m m') (path : DocPath) :
    m'.pass.state? path = m.pass.state? path ∨
    (m.pass.state? path = some .unresolved ∧ m'.pass.state? path = some .inProgress) ∨
    ∃ outcome rest, m.stack = ⟨some path, .done outcome⟩ :: rest ∧
      m' = ⟨deliver (Resolution.verdict path outcome) rest, m.pass.conclude path outcome⟩ := by
  cases h with
  | begin cell => exact (state?_begun cell path).imp_right .inl
  | @enter owner _ _ pass needed _ _ cell =>
    have begun : (pass.note owner needed).tree.cell? needed = _ := cell
    exact (state?_begun begun path).imp_right .inl
  | @leave ended outcome rest pass =>
    by_cases same : ended = path
    · subst same
      exact .inr (.inr ⟨outcome, rest, rfl, rfl⟩)
    · left
      rw [Pass.state?_conclude, if_neg same]
  | call => exact .inl (Pass.state?_call _ _ _ _ path)
  | _ => exact .inl rfl

/-- A formula that has come to an end stays as it is. -/
theorem step_keeps_settled {m m' : Machine} (h : Step env document m m')
    (hm : Coherent document m) {path : DocPath} {state : CellState}
    (here : m.pass.state? path = some state) (settled : state.IsSettled) :
    m'.pass.state? path = some state := by
  rcases step_state? h path with same | ⟨fresh, _⟩ | ⟨outcome, rest, stack, _⟩
  · exact same.trans here
  · rw [here] at fresh
    cases fresh
    exact settled.elim
  · have busy := (hm.active path).mpr (by simp [owners, stack])
    rw [here] at busy
    cases busy
    exact settled.elim

/-- A formula comes to an end only where its own evaluation does. -/
theorem step_settles {m m' : Machine} (h : Step env document m m') {path : DocPath}
    {state : CellState} (here : m'.pass.state? path = some state) (settled : state.IsSettled) :
    m.pass.state? path = some state ∨ ∃ outcome rest,
      m.stack = ⟨some path, .done outcome⟩ :: rest ∧ state = .ofOutcome outcome ∧
      m' = ⟨deliver (Resolution.verdict path outcome) rest, m.pass.conclude path outcome⟩ := by
  rcases step_state? h path with same | ⟨_, begun⟩ | ⟨outcome, rest, stack, rfl⟩
  · exact .inl (same.symm.trans here)
  · rw [here] at begun
    cases begun
    exact settled.elim
  · rw [Pass.state?_conclude, if_pos rfl] at here
    obtain ⟨_, _, rfl⟩ := Option.map_eq_some_iff.mp here
    exact .inr ⟨outcome, rest, stack, rfl, rfl⟩

/-- A formula that has been begun is never unresolved again. -/
theorem step_unresolved {m m' : Machine} (h : Step env document m m') {path : DocPath}
    (fresh : m'.pass.state? path = some .unresolved) :
    m.pass.state? path = some .unresolved := by
  rcases step_state? h path with same | ⟨before, _⟩ | ⟨outcome, rest, _, rfl⟩
  · exact same.symm.trans fresh
  · exact before
  · rw [Pass.state?_conclude, if_pos rfl] at fresh
    obtain ⟨_, _, ended⟩ := Option.map_eq_some_iff.mp fresh
    cases outcome <;> cases ended

theorem execution_keeps_settled {m m' : Machine} (h : Execution env document m m')
    (hm : Coherent document m) {path : DocPath} {state : CellState}
    (here : m.pass.state? path = some state) (settled : state.IsSettled) :
    m'.pass.state? path = some state := by
  induction h with
  | refl => exact here
  | tail before step ih => exact step_keeps_settled step (execution_coherent before hm) ih settled

end Machine

end FormulaDoc
