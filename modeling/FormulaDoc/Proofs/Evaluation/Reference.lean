import FormulaDoc.Proofs.Evaluation.Accounting
import FormulaDoc.Proofs.Evaluation.Agreement

/-!
# Reference values

The value of a formula by plain recursion over its expression, with no state of any kind. Wherever an
expression needs the value of another formula, that formula's reference value is computed afresh. A
formula has none if something fails on the way or if there is no end to it. The evaluation of a
document succeeds exactly if all its formulas have reference values, and puts them in their places.
-/
namespace FormulaDoc

namespace Reference

section Expressions

variable (env : Environment) (document : Value) (known : DocPath → Option Value)

def field? (key : String) : Place → Option Place
  | .computed value => (value.field key).toOption.map .computed
  | .node path =>
    match document.get? path with
    | some (.object members) => (members.lookup key).map fun _ => .node (path.key key)
    | some (.formula _) => (known path).bind fun value => (value.field key).toOption.map .computed
    | _ => none

def element? (index : Int) : Place → Option Place
  | .computed value => (value.element index).toOption.map .computed
  | .node path =>
    match document.get? path with
    | some (.array items) =>
      (position? index items.length).map fun position => .node (path.index position)
    | some (.formula _) =>
      (known path).bind fun value => (value.element index).toOption.map .computed
    | _ => none

def select? (key : Value) (place : Place) : Option Place :=
  match key.integer?, key with
  | some index, _ => element? document known index place
  | none, .string key => field? document known key place
  | none, _ => none

/-- The value at a place: formulas inside a node are replaced by their values. -/
def load? : Place → Option Value
  | .computed value => some value
  | .node path => (document.get? path).bind fun part => part.fill? known path

def binary? (op : BinaryOp) (left right : Option Value) : Option Value :=
  if op.isShortCircuit then do
    let lhs ← left
    let decided ← (op.requireBool lhs).toOption
    if decided == (op == .or) then some (.bool decided)
    else
      let rhs ← right
      let result ← (op.requireBool rhs).toOption
      some (.bool result)
  else do
    let lhs ← left
    let rhs ← right
    (op.apply lhs rhs).toOption

/-- The result of a function, which must not hold a formula. -/
def call? (name : String) (args : List Value) : Option Value := do
  let f ← env.registry.lookup? name
  let value ← (f.call args ⟨env.now, env.draws 0⟩).toOption
  if value.containsFormula then none else some value

variable {μ : Type}

mutual

def place? (scope : Scope) : Expr μ → Option Place
  | .literal _ value => some (.computed value)
  | .ident _ name => do
    let container ← scope.containerPath?
    field? document known name (.node container)
  | .scope _ depth => do
    let found ← scope.ancestor? depth
    some (.node found.path)
  | .root _ => some (.node DocPath.root)
  | .field _ receiver name => do
    let base ← place? scope receiver
    field? document known name base
  | .index _ receiver position => do
    let base ← place? scope receiver
    let key ← place? scope position >>= load? document known
    select? document known key base
  | .unary _ op operand => do
    let value ← place? scope operand >>= load? document known
    let result ← (op.apply value).toOption
    some (.computed result)
  | .binary _ op left right => do
    let result ← binary? op (place? scope left >>= load? document known)
      (place? scope right >>= load? document known)
    some (.computed result)
  | .call _ name args => do
    let values ← values? scope args
    let result ← call? env name values
    some (.computed result)

def values? (scope : Scope) : List (Expr μ) → Option (List Value)
  | [] => some []
  | e :: es => do
    let value ← place? scope e >>= load? document known
    let rest ← values? scope es
    some (value :: rest)

end

def ofText? (scope : Scope) (source : String) : Option Value := do
  let e ← (parse source).toOption
  place? env document known scope e >>= load? document known

end Expressions

variable (env : Environment) (document : Value)

/-- The value of the formula at a path, if at most so many formulas need one another in a row. -/
def formula? : Nat → DocPath → Option Value
  | 0, _ => none
  | depth + 1, path =>
    match document.get? path with
    | some (.formula source) => ofText? env document (formula? depth) (Scope.ofFormula path) source
    | _ => none

def HasValue (path : DocPath) (value : Value) : Prop := ∃ depth, formula? env document depth path = some value

end Reference

/-! ## Reference values are the values among the answers -/

namespace Plan

variable {α β : Type} {env : Environment} {document : Value} {known : DocPath → Answer Value}

/-- The value that a plan comes to, if it comes to one, is that of a computation. -/
def Means (env : Environment) (document : Value) (known : DocPath → Answer Value) (plan : Plan α)
    (x : Option α) : Prop := (plan.answer env document known).value? = x

theorem Means.bind {plan : Plan α} {x : Option α} {f : α → Plan β} {g : α → Option β}
    (first : Means env document known plan x) (rest : ∀ a, Means env document known (f a) (g a)) :
    Means env document known (plan >>= f) (x >>= g) := by
  simp only [Means] at first rest ⊢
  rw [answer_bind, Answer.value?_bind, first]
  simp only [rest]
  rfl

theorem means_done (outcome : Except EvalError α) :
    Means env document known (done outcome) outcome.toOption := by
  cases outcome <;> rfl

theorem means_pure (a : α) : Means env document known (done (.ok a)) (some a) := rfl

theorem value?_ofFormula (path : DocPath) :
    (Answer.ofFormula known path).value? = (known path).value? := by
  rw [Answer.ofFormula]
  rcases known path with _ | _ | _ <;> rfl

theorem means_ask (path : DocPath) {next : Value → Plan α} {g : Value → Option α}
    (rest : ∀ value, Means env document known (next value) (g value)) :
    Means env document known (ask path next) ((known path).value?.bind g) := by
  simp only [Means] at rest ⊢
  rw [answer_ask, Answer.value?_bind, value?_ofFormula]
  simp only [rest]

theorem means_map (outcome : Except EvalError α) (f : α → β) :
    Means env document known (done (outcome.map f)) (outcome.toOption.map f) := by
  cases outcome <;> rfl

/-- A node has a value if all the formulas inside have one. -/
theorem value?_ofNode {path : DocPath} {waiting : List DocPath}
    (inside : ∀ found ∈ waiting, found ∈ document.formulasWithin path) :
    (Answer.ofNode document known path waiting).value? =
      (document.get? path).bind fun part => part.fill? (fun found => (known found).value?) path := by
  induction waiting with
  | nil =>
    rw [Answer.ofNode_nil]
    cases (document.get? path).bind _ <;> rfl
  | cons first rest ih =>
    rw [Answer.ofNode_cons, Answer.value?_bind, value?_ofFormula,
      ih fun found mem => inside found (List.mem_cons_of_mem _ mem)]
    rcases unknown : (known first).value? with _ | value
    · symm
      refine Option.eq_none_iff_forall_not_mem.mpr fun filled full => ?_
      obtain ⟨part, here, full⟩ := Option.bind_eq_some_iff.mp full
      obtain ⟨value, found⟩ :=
        Value.known_of_fill? here full first (inside first List.mem_cons_self)
      rw [unknown] at found
      cases found
    · rfl

theorem means_field (key : String) (place : Place) :
    Means env document known (field document key place)
      (Reference.field? document (fun found => (known found).value?) key place) := by
  cases place with
  | computed value => exact means_map _ _
  | node path =>
    simp only [field, Reference.field?]
    rcases document.get? path with _ | value
    · rfl
    · cases value with
      | object members =>
        simp only
        cases members.lookup key <;> rfl
      | formula _ => exact means_ask path fun _ => means_map _ _
      | _ => rfl

theorem means_element (index : Int) (place : Place) :
    Means env document known (element document index place)
      (Reference.element? document (fun found => (known found).value?) index place) := by
  cases place with
  | computed value => exact means_map _ _
  | node path =>
    simp only [element, Reference.element?]
    rcases document.get? path with _ | value
    · rfl
    · cases value with
      | array items =>
        simp only
        cases position? index items.length <;> rfl
      | formula _ => exact means_ask path fun _ => means_map _ _
      | _ => rfl

theorem means_select (key : Value) (place : Place) :
    Means env document known (select document key place)
      (Reference.select? document (fun found => (known found).value?) key place) := by
  simp only [select, Reference.select?]
  cases key.integer? with
  | some index => exact means_element index place
  | none =>
    cases key with
    | string name => exact means_field name place
    | _ => rfl

theorem means_load (place : Place) :
    Means env document known (load document place)
      (Reference.load? document (fun found => (known found).value?) place) := by
  cases place with
  | computed value => rfl
  | node path =>
    have node : (Answer.ofNode document known path (document.formulasWithin path)).value? = _ :=
      value?_ofNode fun _ => id
    rw [load, Reference.load?]
    rcases here : document.get? path with _ | part
    · rfl
    · rw [here, Option.bind_some] at node
      show Answer.value? (Answer.bind _ _) = part.fill? _ path
      rw [Answer.value?_bind, node]
      cases part.fill? _ path <;> rfl

theorem means_call (name : String) (args : List Value) :
    Means env document known (call name args pure) (Reference.call? env name args) := by
  have called : (Interpreter.firstCall env name args).toOption = Reference.call? env name args := by
    rw [Interpreter.firstCall, Interpreter.call, Reference.call?]
    rcases env.registry.lookup? name with _ | f
    · rfl
    · rw [show (Pass.start .null).calls = 0 from rfl]
      simp only [Option.bind_eq_bind, Option.bind_some]
      rcases f.call args ⟨env.now, env.draws 0⟩ with e | value
      · rfl
      · simp only [Except.toOption, Option.bind_some]
        cases value.containsFormula <;> rfl
  rw [← called]
  show Answer.value? (Answer.bind _ _) = _
  cases Interpreter.firstCall env name args <;> rfl

theorem means_binary (op : BinaryOp) {left right : Plan Value} {x y : Option Value}
    (first : Means env document known left x) (second : Means env document known right y) :
    Means env document known (binary op left right) (Reference.binary? op x y) := by
  rw [binary, Reference.binary?]
  split
  · refine first.bind fun lhs => (means_done _).bind fun decided => ?_
    split
    · exact means_pure _
    · exact second.bind fun rhs => (means_done _).bind fun _ => means_pure _
  · exact first.bind fun lhs => second.bind fun rhs => means_done _

variable {μ : Type}

mutual

theorem means_place (scope : Scope) (e : Expr μ) :
    Means env document known (place document scope e)
      (Reference.place? env document (fun found => (known found).value?) scope e) := by
  match e with
  | .literal _ _ | .root _ => exact means_pure _
  | .ident _ name =>
    simp only [place, Reference.place?, namedPlace]
    rcases scope.containerPath? with _ | container
    · rfl
    · exact means_field name _
  | .scope _ depth =>
    have found : (scope.ancestor depth).toOption = scope.ancestor? depth := by
      rw [Scope.ancestor]
      cases scope.ancestor? depth <;> rfl
    rw [place, Reference.place?, ← found]
    exact (means_done _).bind fun _ => means_pure _
  | .field _ receiver name => exact (means_place scope receiver).bind fun base => means_field name base
  | .index _ receiver position =>
    exact (means_place scope receiver).bind fun base =>
      ((means_place scope position).bind means_load).bind fun key => means_select key base
  | .unary _ op operand =>
    exact ((means_place scope operand).bind means_load).bind fun _ =>
      (means_done _).bind fun _ => means_pure _
  | .binary _ op left right =>
    exact (means_binary op ((means_place scope left).bind means_load)
      ((means_place scope right).bind means_load)).bind fun _ => means_pure _
  | .call _ name args =>
    exact (means_values scope args).bind fun values => (means_call name values).bind fun _ =>
      means_pure _

theorem means_values (scope : Scope) (es : List (Expr μ)) :
    Means env document known (values document scope es)
      (Reference.values? env document (fun found => (known found).value?) scope es) := by
  match es with
  | [] => exact means_pure _
  | e :: es =>
    exact ((means_place scope e).bind means_load).bind fun _ =>
      (means_values scope es).bind fun _ => means_pure _

end

theorem means_ofText (scope : Scope) (source : String) :
    Means env document known (ofText document scope source)
      (Reference.ofText? env document (fun found => (known found).value?) scope source) := by
  rw [ofText, Reference.ofText?]
  rcases parse source with _ | e
  · rfl
  · exact (means_place scope e).bind means_load

end Plan

namespace Reference

variable {env : Environment} {document : Value}

/-- Reference values are found at the level that answers are found at. -/
theorem formula?_eq (depth : Nat) (path : DocPath) :
    formula? env document depth path = (answerWithin env document depth path).value? := by
  induction depth generalizing path with
  | zero => rfl
  | succ depth ih =>
    rw [answerWithin, formula?, Plan.ofFormula, funext ih]
    rcases document.get? path with _ | value
    · rfl
    · cases value with
      | formula source => exact (Plan.means_ofText _ _).symm
      | _ => rfl

theorem hasValue_iff {path : DocPath} {value : Value} :
    HasValue env document path value ↔ EndsWith env document path (.ok value) := by
  simp only [HasValue, EndsWith, formula?_eq, Answer.value?_eq_some_iff]

theorem HasValue.unique {path : DocPath} {value value' : Value}
    (h : HasValue env document path value) (h' : HasValue env document path value') :
    value = value' := by
  rw [hasValue_iff] at h h'
  exact Except.ok.inj (h.unique h')

end Reference

namespace Machine

variable {env : Environment} {document : Value} {pass : Pass}

/-- In the end a formula holds a value exactly if that is its reference value. -/
theorem Complete.resolved_iff (h : Complete env document pass)
    (pure : ∀ f ∈ env.registry, f.Pure) (wellFormed : document.WellFormed) {path : DocPath}
    {source : String} (formula : document.get? path = some (.formula source)) {value : Value} :
    pass.state? path = some (.resolved value) ↔ Reference.HasValue env document path value := by
  rw [Reference.hasValue_iff]
  obtain ⟨state, here⟩ := h.coherent.exists_state?_iff.mpr ⟨source, formula⟩
  rw [here, Option.some.injEq]
  rcases h.state?_cases pure wellFormed here with ⟨rfl, never⟩ | ⟨result, rfl, ends⟩
  · constructor
    · intro same
      cases same
    · intro other
      exact absurd other (never _)
  · constructor
    · intro same
      cases CellState.ofResult_injective (show _ = CellState.ofResult (.ok value) from same)
      exact ends
    · intro other
      cases ends.unique other
      rfl

/-- There are no errors exactly if every formula has its value. -/
theorem Complete.errors_eq_nil_iff (h : Complete env document pass) :
    pass.errors = [] ↔ ∀ path source, document.get? path = some (.formula source) →
      ∃ value, pass.state? path = some (.resolved value) := by
  constructor
  · intro none path source formula
    obtain ⟨state, here⟩ := h.coherent.exists_state?_iff.mpr ⟨source, formula⟩
    have settled := h.settled path state here
    cases state with
    | unresolved => exact settled.elim
    | inProgress => exact settled.elim
    | resolved value => exact ⟨value, here⟩
    | failed kind =>
      obtain ⟨e, mem, _⟩ := (h.accounted.recorded path kind).mp here
      rw [none] at mem
      cases mem
  · intro all
    refine List.eq_nil_iff_forall_not_mem.mpr ?_
    rintro ⟨path, e⟩ mem
    have failed := (h.accounted.recorded path e.kind).mpr ⟨e, mem, rfl⟩
    obtain ⟨source, formula⟩ := h.coherent.exists_state?_iff.mp ⟨_, failed⟩
    obtain ⟨value, here⟩ := all path source formula
    rw [failed] at here
    cases here

/-- The value of the tree is the document with the values of its formulas in their places. -/
theorem Complete.toValue_eq (h : Complete env document pass) (wellFormed : document.WellFormed)
    (all : ∀ path source, document.get? path = some (.formula source) →
      ∃ value, pass.state? path = some (.resolved value)) :
    pass.tree.toValue = document.replaceFormulas pass.valueAt DocPath.root := by
  have whole : Plan.collected pass.tree DocPath.root = _ :=
    collected_eq h.coherent.shape wellFormed rfl fun found mem => by
      obtain ⟨_, source, formula⟩ := (Value.mem_formulasWithin_iff wellFormed).mp mem
      exact all found source formula
  rw [Plan.collected] at whole
  split at whole
  · next value taken =>
    rw [← Except.ok.inj whole]
    exact Tree.toValue_of_toValue? taken
  · cases whole

end Machine

/-- The evaluation of a document succeeds exactly if every formula has a reference value, and gives
the document with every formula replaced by its reference value. -/
theorem Engine.evaluate_iff_reference (engine : Engine) (around : Surroundings) (document : Value)
    (pure : ∀ f ∈ engine.registry, f.Pure) (wellFormed : document.WellFormed) :
    ((∃ value, engine.evaluate around document = .ok value) ↔
      ∀ path source, document.get? path = some (.formula source) →
        ∃ value, Reference.HasValue (engine.environment around) document path value) ∧
    ∀ value, engine.evaluate around document = .ok value →
      ∃ values : DocPath → Value,
        (∀ path source, document.get? path = some (.formula source) →
          Reference.HasValue (engine.environment around) document path (values path)) ∧
        value = document.replaceFormulas values DocPath.root := by
  have complete := engine.complete_finalPass around document
  have holds : ∀ path source, document.get? path = some (.formula source) → ∀ value,
      (engine.finalPass around document).state? path = some (.resolved value) ↔
        Reference.HasValue (engine.environment around) document path value :=
    fun path source formula value => complete.resolved_iff pure wellFormed formula
  constructor
  · constructor
    · rintro ⟨value, succeeds⟩ path source formula
      have all := complete.errors_eq_nil_iff.mp (evaluate_eq_ok_iff.mp succeeds).1
      obtain ⟨found, here⟩ := all path source formula
      exact ⟨found, (holds path source formula found).mp here⟩
    · intro all
      have none := complete.errors_eq_nil_iff.mpr fun path source formula =>
        (all path source formula).imp fun found => (holds path source formula found).mpr
      exact ⟨_, evaluate_eq_ok_iff.mpr ⟨none, rfl⟩⟩
  · intro value succeeds
    obtain ⟨none, same⟩ := evaluate_eq_ok_iff.mp succeeds
    have all := complete.errors_eq_nil_iff.mp none
    refine ⟨(engine.finalPass around document).valueAt, fun path source formula => ?_, ?_⟩
    · obtain ⟨found, here⟩ := all path source formula
      rw [Pass.valueAt_eq here]
      exact (holds path source formula found).mp here
    · rw [← same, complete.toValue_eq wellFormed all]

/-- A formula that applies a function to another one's value, and one that puts both in an array. -/
theorem Engine.evaluate_iff_reference_upper :
    let engine : Engine := ⟨[Function.upper], FormulaKeys.default, some 0⟩
    let around : Surroundings := ⟨0, id⟩
    let document : Value := .object [("a", .formula "UPPER(b)"), ("b", .formula "c"),
      ("c", .string "text"), ("all", .array [.formula "super.super.a", .null])]
    (∀ f ∈ engine.registry, f.Pure) ∧ document.WellFormed ∧
    ((∃ value, engine.evaluate around document = .ok value) ↔
      ∀ path source, document.get? path = some (.formula source) →
        ∃ value, Reference.HasValue (engine.environment around) document path value) ∧
    ∀ value, engine.evaluate around document = .ok value →
      ∃ values : DocPath → Value,
        (∀ path source, document.get? path = some (.formula source) →
          Reference.HasValue (engine.environment around) document path (values path)) ∧
        value = document.replaceFormulas values DocPath.root := by
  intro engine around document
  have pure : ∀ f ∈ engine.registry, f.Pure := by
    intro f mem
    rw [List.mem_singleton.mp mem]
    exact fun _ _ _ _ => rfl
  have wellFormed : document.WellFormed := by
    simp [document, Value.WellFormed, Value.MembersWellFormed, Value.ItemsWellFormed]
  exact ⟨pure, wellFormed, evaluate_iff_reference engine around document pure wellFormed⟩

end FormulaDoc
