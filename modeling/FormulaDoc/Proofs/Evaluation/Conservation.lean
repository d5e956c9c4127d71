import FormulaDoc.Proofs.Evaluation.Agreement
import FormulaDoc.Proofs.Formula.Literals

/-!
# What values are made of

Values come into an evaluation as literals, as results of operators and functions and as parts of the
document with the values of formulas put in; and pieces are cut out of them. A class of values that is
closed under all of this has the value of every formula in it, whatever the order of evaluation. What
is put in the place of a formula may be restricted to what the formula comes to in the end.
-/
namespace FormulaDoc

theorem UnaryOp.isScalar_of_apply {op : UnaryOp} {operand value : Value}
    (h : op.apply operand = .ok value) : value.isScalar := by
  simp only [UnaryOp.apply] at h
  split at h <;> cases h <;> rfl

namespace BinaryOp

theorem isScalar_of_combine {op : BinaryOp} {left right value : Value}
    (h : op.combine left right = .ok value) : value.isScalar := by
  simp only [combine] at h
  split at h <;> (try split at h) <;> cases h <;> rfl

theorem isScalar_of_compareValues {op : BinaryOp} {left right value : Value}
    (h : op.compareValues left right = .ok value) : value.isScalar := by
  rw [compareValues] at h
  split at h <;> cases h
  rfl

theorem isScalar_of_decideBools {op : BinaryOp} {left right value : Value}
    (h : op.decideBools left right = .ok value) : value.isScalar := by
  rw [decideBools] at h
  rcases first : op.requireBool left with _ | a <;> rw [first] at h
  · cases h
  · rcases second : op.requireBool right with _ | b <;> rw [second] at h <;> cases h
    rfl

theorem isScalar_of_join {op : BinaryOp} {left right value : Value}
    (h : op.join left right = .ok value) : value.isScalar := by
  rw [join] at h
  split at h <;> cases h
  rfl

theorem isScalar_of_apply {op : BinaryOp} {left right value : Value}
    (h : op.apply left right = .ok value) : value.isScalar := by
  cases op with
  | eq | ne =>
    cases h
    rfl
  | concat => exact isScalar_of_join h
  | and => exact @isScalar_of_decideBools .and _ _ _ h
  | or => exact @isScalar_of_decideBools .or _ _ _ h
  | lt => exact @isScalar_of_compareValues .lt _ _ _ h
  | le => exact @isScalar_of_compareValues .le _ _ _ h
  | gt => exact @isScalar_of_compareValues .gt _ _ _ h
  | ge => exact @isScalar_of_compareValues .ge _ _ _ h
  | add => exact @isScalar_of_combine .add _ _ _ h
  | sub => exact @isScalar_of_combine .sub _ _ _ h
  | mul => exact @isScalar_of_combine .mul _ _ _ h
  | div => exact @isScalar_of_combine .div _ _ _ h
  | rem => exact @isScalar_of_combine .rem _ _ _ h

end BinaryOp

/-- A class of values that evaluating the formulas of a document does not lead out of, as long as each
formula comes to a value that is allowed in its place. -/
structure Hereditary (env : Environment) (document : Value) (allowed : DocPath → Value → Prop)
    (good : Value → Prop) : Prop where
  scalar : ∀ {value : Value}, value.isScalar → good value
  field : ∀ {value member : Value} {key : String}, good value → value.field key = .ok member →
    good member
  element : ∀ {value item : Value} {index : Int}, good value → value.element index = .ok item →
    good item
  call : ∀ {name : String} {args : List Value} {pass : Pass} {value : Value},
    (∀ arg ∈ args, good arg) → (Interpreter.call env name args pass).1 = .ok value → good value
  /-- A formula without a value counts as null. -/
  blank : ∀ path, allowed path .null
  part : ∀ {path : DocPath} {part : Value} {values : DocPath → Value},
    document.get? path = some part → (∀ found, good (values found)) →
      (∀ found, allowed found (values found)) → good (part.replaceFormulas values path)

def Place.Holds (good : Value → Prop) : Place → Prop
  | node _ => True
  | computed value => good value

namespace Plan

variable {α β : Type} {allowed : DocPath → Value → Prop} {good : Value → Prop}

/-- With answers from a class of values only, a plan calls functions on values of the class only and
its result has a property. -/
def Yields (good : Value → Prop) (property : α → Prop) : Plan α → Prop
  | done (.ok a) => property a
  | done (.error _) => True
  | ask _ next | gather _ next | await _ _ next =>
    ∀ value, good value → (next value).Yields good property
  | call _ args next =>
    (∀ arg ∈ args, good arg) ∧ ∀ value, good value → (next value).Yields good property

variable {property : α → Prop}

theorem yields_done {outcome : Except EvalError α} (h : ∀ a, outcome = .ok a → property a) :
    (done outcome).Yields good property := by
  cases outcome with
  | ok a => exact h a rfl
  | error _ => trivial

theorem yields_any (outcome : Except EvalError α) :
    (done outcome).Yields good fun _ => True := yields_done fun _ _ => trivial

theorem Yields.bind {plan : Plan α} {f : α → Plan β} {property' : β → Prop}
    (first : plan.Yields good property) (rest : ∀ a, property a → (f a).Yields good property') :
    (plan >>= f).Yields good property' := by
  induction plan with
  | done outcome =>
    cases outcome with
    | ok a => exact rest a first
    | error _ => trivial
  | ask _ next ih | gather _ next ih | await _ _ next ih =>
    exact fun value held => ih value (first value held)
  | call _ args next ih => exact ⟨first.1, fun value held => ih value (first.2 value held)⟩

theorem yields_map {outcome : Except EvalError Value}
    (h : ∀ value, outcome = .ok value → good value) :
    (done (outcome.map Place.computed)).Yields good (Place.Holds good) := by
  cases outcome with
  | ok value => exact h value rfl
  | error _ => trivial

section Expressions

variable {env : Environment} {document : Value} (closed : Hereditary env document allowed good)

include closed

theorem yields_field (key : String) {place : Place} (held : place.Holds good) :
    (field document key place).Yields good (Place.Holds good) := by
  cases place with
  | computed value => exact yields_map fun _ => closed.field held
  | node path =>
    simp only [field]
    split
    · trivial
    · split <;> trivial
    · exact fun value held => yields_map fun _ => closed.field held
    · trivial

theorem yields_element (index : Int) {place : Place} (held : place.Holds good) :
    (element document index place).Yields good (Place.Holds good) := by
  cases place with
  | computed value => exact yields_map fun _ => closed.element held
  | node path =>
    simp only [element]
    split
    · trivial
    · split <;> trivial
    · exact fun value held => yields_map fun _ => closed.element held
    · trivial

theorem yields_select (key : Value) {place : Place} (held : place.Holds good) :
    (select document key place).Yields good (Place.Holds good) := by
  simp only [select]
  split
  · exact yields_element closed _ held
  · exact yields_field closed _ held
  · trivial
  · trivial

omit closed in
theorem yields_load {place : Place} (held : place.Holds good) :
    (load document place).Yields good good := by
  cases place with
  | computed value => exact held
  | node path =>
    simp only [load]
    split
    · trivial
    · exact fun value held => held

theorem yields_namedPlace (scope : Scope) (name : String) :
    (namedPlace document scope name).Yields good (Place.Holds good) := by
  rw [namedPlace]
  split
  · rename_i container _
    exact yields_field closed name (show (Place.node container).Holds good from trivial)
  · trivial

theorem yields_binary (op : BinaryOp) {left right : Plan Value} (first : left.Yields good good)
    (second : right.Yields good good) : (binary op left right).Yields good good := by
  rw [binary]
  split
  · refine first.bind fun lhs _ =>
      (yields_any _).bind fun decided _ => ?_
    split
    · exact closed.scalar rfl
    · exact second.bind fun rhs _ =>
        (yields_any _).bind fun _ _ => closed.scalar rfl
  · exact first.bind fun lhs _ => second.bind fun rhs _ =>
      yields_done fun _ result => closed.scalar (BinaryOp.isScalar_of_apply result)

variable {μ : Type}

omit closed

mutual

theorem yields_place (closed : Hereditary env document allowed good) (scope : Scope) (e : Expr μ)
    (literals : e.ScalarLiterals) :
    (place document scope e).Yields good (Place.Holds good) := by
  match e with
  | .literal _ value => exact closed.scalar literals
  | .root _ => trivial
  | .ident _ name => exact yields_namedPlace closed scope name
  | .scope _ depth => exact (yields_any _).bind fun _ _ => trivial
  | .field _ receiver name =>
    exact (yields_place closed scope receiver literals).bind fun _ => yields_field closed name
  | .index _ receiver position =>
    exact (yields_place closed scope receiver literals.1).bind fun base held =>
      ((yields_place closed scope position literals.2).bind fun _ => yields_load).bind fun key _ =>
        yields_select closed key held
  | .unary _ op operand =>
    refine ((yields_place closed scope operand literals).bind fun _ => yields_load).bind fun _ _ =>
      (yields_done fun _ => UnaryOp.isScalar_of_apply).bind fun _ scalar => ?_
    exact closed.scalar scalar
  | .binary _ op left right =>
    exact (yields_binary closed op
      ((yields_place closed scope left literals.1).bind fun _ => yields_load)
      ((yields_place closed scope right literals.2).bind fun _ => yields_load)).bind fun _ held => held
  | .call _ name args =>
    exact (yields_values closed scope args literals).bind fun _ held => ⟨held, fun _ held => held⟩

theorem yields_values (closed : Hereditary env document allowed good) (scope : Scope)
    (es : List (Expr μ)) (literals : Expr.AllScalarLiterals es) :
    (values document scope es).Yields good fun values => ∀ value ∈ values, good value := by
  match es with
  | [] => exact fun _ mem => (List.not_mem_nil mem).elim
  | e :: es =>
    exact ((yields_place closed scope e literals.1).bind fun _ => yields_load).bind fun first held =>
      (yields_values closed scope es literals.2).bind fun rest others =>
        List.forall_mem_cons.mpr ⟨held, others⟩

end

theorem yields_ofText (closed : Hereditary env document allowed good) (scope : Scope)
    (source : String) : (ofText document scope source).Yields good good := by
  rw [ofText]
  split
  · trivial
  · rename_i e read
    exact (yields_place closed scope e (scalarLiterals_of_parse read)).bind fun _ => yields_load

end Expressions

end Plan

namespace Machine

variable {env : Environment} {document : Value} {allowed : DocPath → Value → Prop}
  {good : Value → Prop}

/-- All formulas inside a node whose value has been taken had a value. -/
theorem resolved_of_collected {pass : Pass} (shape : pass.tree.blank = Tree.ofValue document)
    (wellFormed : document.WellFormed) {path : DocPath} {value : Value}
    (h : Plan.collected pass.tree path = .ok value) :
    ∀ found ∈ document.formulasWithin path, ∃ value, pass.state? found = some (.resolved value) := by
  intro found mem
  obtain ⟨⟨rest, rfl⟩, source, formula⟩ := (Value.mem_formulasWithin_iff wellFormed).mp mem
  obtain ⟨state, cell⟩ := Tree.cell?_of_shape shape formula
  rw [Plan.collected] at h
  split at h
  · rename_i whole taken
    obtain ⟨node, here, known⟩ := Option.bind_eq_some_iff.mp taken
    have inside : node.get? rest = some (.formula ⟨source, state⟩) := by
      rw [Tree.cell?_append here] at cell
      exact Tree.cell?_eq_some_iff.mp cell
    obtain ⟨held, resolved⟩ := Tree.exists_toValue?_of_get? known inside
    rw [Pass.state?_of_cell? cell]
    cases state with
    | resolved value => exact ⟨value, rfl⟩
    | _ => cases resolved
  · cases h

/-- The values that formulas have come to and those that evaluations under way work with are in a
class. -/
structure Conserves (good : Value → Prop) (m : Machine) : Prop where
  resolved : ∀ path value, m.pass.state? path = some (.resolved value) → good value
  yields : ∀ frame ∈ m.stack, ∀ path, frame.owner = some path → frame.plan.Yields good good

theorem start_conserves (good : Value → Prop) (document : Value) :
    Conserves good ⟨[], Pass.start document⟩ := by
  refine ⟨fun path value here => ?_, fun _ mem => (List.not_mem_nil mem).elim⟩
  cases state?_start here

theorem Conserves.valueAt (closed : Hereditary env document allowed good) {m : Machine}
    (hm : Conserves good m) (path : DocPath) : good (m.pass.valueAt path) := by
  rw [Pass.valueAt]
  split
  · rename_i value here
    exact hm.resolved path value here
  · exact closed.scalar rfl

theorem yields_deliver {plan : Plan Value} {outcome : Except EvalError Value}
    (yields : plan.Yields good good) (held : ∀ value, outcome = .ok value → good value) :
    (plan.deliver outcome).Yields good good := by
  cases plan with
  | ask _ next =>
    cases outcome with
    | ok value => exact yields value (held value rfl)
    | error _ => trivial
  | await _ waiting next =>
    cases waiting with
    | nil => exact yields
    | cons _ _ =>
      cases outcome with
      | ok _ => exact yields
      | error _ => trivial
  | _ => exact yields

/-- All formulas that have come to a value have one that is allowed in their place. -/
def Allows (allowed : DocPath → Value → Prop) (pass : Pass) : Prop :=
  ∀ path, allowed path (pass.valueAt path)

/-- What is allowed in the end has been allowed all the time. -/
theorem Allows.earlier (closed : Hereditary env document allowed good) {m m' : Machine}
    (later : Execution env document m m') (coherent : Coherent document m)
    (ends : Allows allowed m'.pass) : Allows allowed m.pass := by
  intro path
  rw [Pass.valueAt]
  split
  · rename_i value here
    have kept := execution_keeps_settled later coherent here trivial
    rw [← Pass.valueAt_eq kept]
    exact ends path
  · exact closed.blank path

theorem good_of_collected (closed : Hereditary env document allowed good)
    (wellFormed : document.WellFormed) {m : Machine} (coherent : Coherent document m)
    (hm : Conserves good m) (allows : Allows allowed m.pass) {path : DocPath} {part value : Value}
    (here : document.get? path = some part)
    (taken : Plan.collected m.pass.tree path = .ok value) : good value := by
  have whole := collected_eq coherent.shape wellFormed here
    (resolved_of_collected coherent.shape wellFormed taken)
  rw [taken] at whole
  cases whole
  exact closed.part here (hm.valueAt closed) allows

theorem Origin.yields (closed : Hereditary env document allowed good)
    (wellFormed : document.WellFormed) {m m' : Machine} {frame : Frame}
    (h : Origin env document m m' frame) (coherent : Coherent document m) (hm : Conserves good m)
    (allows : Allows allowed m.pass)
    (resolved : ∀ path value, m'.pass.state? path = some (.resolved value) → good value)
    {path : DocPath} (owner : frame.owner = some path) : frame.plan.Yields good good := by
  cases h with
  | kept mem => exact hm.yields frame mem path owner
  | formula _ => exact Plan.yields_ofText closed _ _
  | expression _ => cases owner
  | reply mem asked reply =>
    refine yields_deliver (hm.yields _ mem path owner) fun value same => ?_
    subst same
    exact hm.resolved _ value (resolved_of_reply reply)
  | @verdict _ plan needed outcome mem asked state =>
    refine yields_deliver (hm.yields _ mem path owner) fun value same => ?_
    cases outcome with
    | error e => cases same
    | ok found =>
      cases same
      exact resolved _ value state
  | gather mem =>
    have before := hm.yields _ mem path owner
    exact before
  | collect mem =>
    have before := proceeds_of_ne_done (coherent.fits _ mem) (by simp)
    obtain ⟨part, here⟩ := before.1
    exact (Plan.yields_done fun value =>
      good_of_collected closed wellFormed coherent hm allows here).bind (hm.yields _ mem path owner)
  | call mem =>
    obtain ⟨args, next⟩ := hm.yields _ mem path owner
    exact (Plan.yields_done fun value => closed.call args).bind next

theorem step_conserves (closed : Hereditary env document allowed good)
    (wellFormed : document.WellFormed) {m m' : Machine} (h : Step env document m m')
    (coherent : Coherent document m) (hm : Conserves good m) (allows : Allows allowed m.pass) :
    Conserves good m' := by
  have resolved : ∀ path value, m'.pass.state? path = some (.resolved value) → good value := by
    intro path value here
    rcases step_settles h here trivial with old | ⟨outcome, rest, stack, same, _⟩
    · exact hm.resolved path value old
    · have yields := hm.yields _ (stack ▸ List.mem_cons_self) path rfl
      cases outcome with
      | error e => cases same
      | ok found =>
        cases same
        exact yields
  exact ⟨resolved, fun frame mem path owner =>
    (step_origin h coherent mem).yields closed wellFormed coherent hm allows resolved owner⟩

theorem execution_conserves (closed : Hereditary env document allowed good)
    (wellFormed : document.WellFormed) {m m' : Machine} (h : Execution env document m m')
    (coherent : Coherent document m) (hm : Conserves good m) (ends : Allows allowed m'.pass) :
    Conserves good m' := by
  induction h with
  | refl => exact hm
  | tail before step ih =>
    -- The induction is on the run, but what is allowed is known at its end: it goes back step by step.
    have between := execution_coherent before coherent
    have allows := ends.earlier closed (.tail .refl step) between
    exact step_conserves closed wellFormed step between (ih allows) allows

/-- In the end the values of all formulas are in the class. -/
theorem Complete.good_valueAt (closed : Hereditary env document allowed good)
    (wellFormed : document.WellFormed) {pass : Pass} (h : Complete env document pass)
    (allows : Allows allowed pass) (path : DocPath) : good (pass.valueAt path) :=
  (execution_conserves closed wellFormed h.reached (start_coherent document)
    (start_conserves good document) allows).valueAt closed path

end Machine

end FormulaDoc
