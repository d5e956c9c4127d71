import FormulaDoc.Proofs.Evaluation.Callees
import FormulaDoc.Proofs.Evaluation.Result
import FormulaDoc.Proofs.Function.MemberOrder
import FormulaDoc.Proofs.Function.Results

/-!
# The order of members makes no difference

An evaluation goes through the members of objects in their order, but what it comes to does not depend
on it. The reference value of a formula is made from pieces of the document and from values of other
formulas by operators and functions, and none of them can tell values apart that differ in the order of
members only.
-/
namespace FormulaDoc

/-! ## Operators -/

theorem UnaryOp.apply_of_reordered (op : UnaryOp) {value other : Value}
    (h : value.Reordered other) : op.apply value = op.apply other := by
  rcases h.shapes with rfl | ⟨_, _, rfl, rfl, _⟩ | ⟨_, _, _, rfl, rfl, _⟩ <;> cases op <;> rfl

namespace BinaryOp

variable {left left' right right' : Value}

theorem requireBool_of_reordered (op : BinaryOp) {value other : Value}
    (h : value.Reordered other) : op.requireBool value = op.requireBool other := by
  rw [requireBool, requireBool, h.bool?, h.typeName]

/-- Whether an operation refuses all operands but two scalars. -/
def OnScalars (op : BinaryOp) (f : Value → Value → Except EvalError Value) : Prop :=
  ∀ left right, ¬ (left.isScalar ∧ right.isScalar) → f left right = .error (op.mismatch left right)

theorem OnScalars.eq_of_reordered {op : BinaryOp} {f : Value → Value → Except EvalError Value}
    (h : op.OnScalars f) (first : left.Reordered left') (second : right.Reordered right') :
    f left right = f left' right' := by
  by_cases scalars : left.isScalar ∧ right.isScalar
  · rw [first.eq_of_isScalar scalars.1, second.eq_of_isScalar scalars.2]
  · rw [h left right scalars, h left' right' (first.isScalar ▸ second.isScalar ▸ scalars), mismatch,
      mismatch, first.typeName, second.typeName]

theorem onScalars_combine (op : BinaryOp) : op.OnScalars op.combine := by
  intro left right others
  rw [combine.eq_def]
  split
  · exact absurd ⟨rfl, rfl⟩ others
  · exact absurd ⟨rfl, rfl⟩ others
  · rfl

theorem onScalars_compareValues (op : BinaryOp) : op.OnScalars op.compareValues := by
  intro left right others
  have none : left.compare? right = none := by
    rw [Value.compare?.eq_def]
    split
    · exact absurd ⟨rfl, rfl⟩ others
    · exact absurd ⟨rfl, rfl⟩ others
    · rfl
  rw [compareValues, none]

theorem onScalars_join (op : BinaryOp) : op.OnScalars op.join := by
  intro left right others
  rw [join, if_neg]
  simpa using others

/-- An operator does the same with operands that are the same up to the order of members. -/
theorem apply_of_matches (op : BinaryOp) (first : left.Matches left')
    (second : right.Matches right') :
    op.apply left right = op.apply left' right' := by
  have equal : (left == right) = (left' == right') := Value.equals_of_matches first second
  have bools : op.decideBools left right = op.decideBools left' right' := by
    rw [decideBools, decideBools, op.requireBool_of_reordered first.reordered,
      op.requireBool_of_reordered second.reordered]
  have joined := op.onScalars_join.eq_of_reordered first.reordered second.reordered
  have compared := op.onScalars_compareValues.eq_of_reordered first.reordered second.reordered
  have combined := op.onScalars_combine.eq_of_reordered first.reordered second.reordered
  cases op with
  | eq => rw [apply, apply, equal]
  | ne => rw [apply, apply, bne, bne, equal]
  | concat => exact joined
  | and | or => exact bools
  | lt | le | gt | ge => exact compared
  | add | sub | mul | div | rem => exact combined

end BinaryOp

/-! ## Reference values -/

/-- A place is another one up to the order of members. -/
inductive Place.Matches : Place → Place → Prop
  | node (path : DocPath) : Matches (.node path) (.node path)
  | computed {value other : Value} : value.Matches other → Matches (.computed value) (.computed other)

/-- Two environments with one time and the same functions, none of which tells orders of members apart
or returns a container. -/
structure Environment.Orderless (env env' : Environment) : Prop where
  registry : env'.registry = env.registry
  now : env'.now = env.now
  ignores : ∀ f ∈ env.registry, f.IgnoresOrder
  scalars : ∀ f ∈ env.registry, f.ReturnsScalars

namespace Reference

open Value (ItemsReordered matches_of_isScalar)

section Expressions

variable {env env' : Environment} {document document' : Value} {known known' : DocPath → Option Value}
  (documents : document.Matches document')
  (values : ∀ path, Option.Rel Value.Matches (known path) (known' path))

theorem rel_scalars {ε : Type} {outcome : Except ε Value}
    (scalar : ∀ value, outcome = .ok value → value.isScalar) :
    Option.Rel Value.Matches outcome.toOption outcome.toOption := by
  cases outcome with
  | error e => exact .none
  | ok value => exact .some (matches_of_isScalar (scalar value rfl))

section Places

variable {place place' : Place}

include documents values

theorem field?_matches (key : String) (h : place.Matches place') :
    Option.Rel Place.Matches (field? document known key place)
      (field? document' known' key place') := by
  cases h with
  | computed related => exact rel_map (related.field key) .computed
  | node path =>
    have here := documents.get? path
    simp only [field?]
    generalize document.get? path = found, document'.get? path = found' at here
    cases here with
    | none => exact .none
    | @some value _ related =>
      obtain ⟨wellFormed, reordered⟩ := related
      cases value with
      | object members =>
        obtain ⟨between, others, rfl, inside, order⟩ := reordered
        exact rel_map (Value.Matches.lookup wellFormed inside order key) fun _ => .node _
      | formula source =>
        obtain rfl := reordered
        exact rel_bind (values path) fun related => rel_map (related.field key) .computed
      | array items =>
        obtain ⟨others, rfl, _⟩ := reordered
        exact .none
      | _ =>
        obtain rfl := reordered
        exact .none

theorem element?_matches (index : Int) (h : place.Matches place') :
    Option.Rel Place.Matches (element? document known index place)
      (element? document' known' index place') := by
  cases h with
  | computed related => exact rel_map (related.element index) .computed
  | node path =>
    have here := documents.get? path
    simp only [element?]
    generalize document.get? path = found, document'.get? path = found' at here
    cases here with
    | none => exact .none
    | @some value _ related =>
      obtain ⟨wellFormed, reordered⟩ := related
      cases value with
      | array items =>
        obtain ⟨others, rfl, inside⟩ := reordered
        simp only [inside.length_eq]
        cases position? index others.length with
        | none => exact .none
        | some position => exact .some (.node _)
      | formula source =>
        obtain rfl := reordered
        exact rel_bind (values path) fun related => rel_map (related.element index) .computed
      | object members =>
        obtain ⟨between, others, rfl, _⟩ := reordered
        exact .none
      | _ =>
        obtain rfl := reordered
        exact .none

theorem select?_matches {key key' : Value} (keys : key.Matches key') (h : place.Matches place') :
    Option.Rel Place.Matches (select? document known key place)
      (select? document' known' key' place') := by
  have same := keys.reordered.integer?
  simp only [select?]
  generalize key.integer? = exact, key'.integer? = exact' at same
  subst same
  cases exact with
  | some index => exact element?_matches documents values index h
  | none =>
    rcases keys.reordered.shapes with rfl | ⟨_, _, rfl, rfl, _⟩ | ⟨_, _, _, rfl, rfl, _⟩
    · cases key with
      | string name => exact field?_matches documents values name h
      | _ => exact .none
    · exact .none
    · exact .none

theorem load?_matches (h : place.Matches place') :
    Option.Rel Value.Matches (load? document known place) (load? document' known' place') := by
  cases h with
  | computed related => exact .some related
  | node path => exact rel_bind (documents.get? path) fun related => related.fill? values path

theorem loaded_matches {x y : Option Place} (h : Option.Rel Place.Matches x y) :
    Option.Rel Value.Matches (x >>= load? document known) (y >>= load? document' known') :=
  rel_bind h fun found => load?_matches documents values found

end Places

theorem binary?_matches (op : BinaryOp) {left left' right right' : Option Value}
    (first : Option.Rel Value.Matches left left') (second : Option.Rel Value.Matches right right') :
    Option.Rel Value.Matches (binary? op left right) (binary? op left' right') := by
  rw [binary?, binary?]
  split
  · refine rel_bind first fun lhs => ?_
    rw [op.requireBool_of_reordered lhs.reordered]
    cases op.requireBool _ with
    | error e => exact .none
    | ok decided =>
      simp only [Except.toOption, Option.bind_eq_bind, Option.bind_some]
      split
      · exact .some (matches_of_isScalar rfl)
      · refine rel_bind second fun rhs => ?_
        rw [op.requireBool_of_reordered rhs.reordered]
        cases op.requireBool _ with
        | error e => exact .none
        | ok decided => exact .some (matches_of_isScalar rfl)
  · refine rel_bind first fun lhs => rel_bind second fun rhs => ?_
    rw [op.apply_of_matches lhs rhs]
    exact rel_scalars fun _ => BinaryOp.isScalar_of_apply

theorem call?_matches (orderless : Environment.Orderless env env') (name : String)
    {args args' : List Value} (inside : ItemsReordered args args') :
    Option.Rel Value.Matches (call? env name args) (call? env' name args') := by
  rw [call?, call?, orderless.registry, orderless.now]
  cases found : env.registry.lookup? name with
  | none => exact .none
  | some f =>
    have mem := Registry.mem_of_lookup? found
    simp only [Option.bind_eq_bind, Option.bind_some]
    rw [(orderless.ignores f mem).call_eq inside env.now (env.draws 0) (env'.draws 0)]
    cases called : f.call args' ⟨env.now, env'.draws 0⟩ with
    | error e => exact .none
    | ok value =>
      have scalar : value.isScalar := by
        rw [Function.call] at called
        split at called
        · exact orderless.scalars f mem _ _ value called
        · cases called
      simp only [Except.toOption, Option.bind_some]
      split
      · exact .none
      · exact .some (matches_of_isScalar scalar)

variable {μ : Type}

include documents values

mutual

/-- An expression leads to the same place up to the order of members. -/
theorem place?_matches (orderless : Environment.Orderless env env') (scope : Scope) {e : Expr μ}
    (literals : e.ScalarLiterals) :
    Option.Rel Place.Matches (place? env document known scope e)
      (place? env' document' known' scope e) := by
  match e with
  | .literal _ _ => exact .some (.computed (matches_of_isScalar literals))
  | .root _ => exact .some (.node _)
  | .ident _ name =>
    simp only [place?]
    cases scope.containerPath? with
    | none => exact .none
    | some container => exact field?_matches documents values name (.node container)
  | .scope _ depth =>
    simp only [place?]
    cases scope.ancestor? depth with
    | none => exact .none
    | some found => exact .some (.node _)
  | .field _ receiver name =>
    have base := place?_matches orderless scope (show receiver.ScalarLiterals from literals)
    exact rel_bind base fun base => field?_matches documents values name base
  | .index _ receiver position =>
    refine rel_bind (place?_matches orderless scope literals.1) fun base => ?_
    have index := loaded_matches documents values (place?_matches orderless scope literals.2)
    exact rel_bind index fun key => select?_matches documents values key base
  | .unary _ op operand =>
    have loaded := loaded_matches documents values
      (place?_matches orderless scope (show operand.ScalarLiterals from literals))
    refine rel_bind loaded fun value => ?_
    rw [op.apply_of_reordered value.reordered]
    exact rel_bind (rel_scalars fun _ => UnaryOp.isScalar_of_apply) fun result =>
      .some (.computed result)
  | .binary _ op left right =>
    have first := loaded_matches documents values (place?_matches orderless scope literals.1)
    have second := loaded_matches documents values (place?_matches orderless scope literals.2)
    exact rel_bind (binary?_matches op first second) fun result => .some (.computed result)
  | .call _ name args =>
    have inside := values?_reordered orderless scope (show Expr.AllScalarLiterals args from literals)
    exact rel_bind inside fun inside =>
      rel_bind (call?_matches orderless name inside) fun result => .some (.computed result)

theorem values?_reordered (orderless : Environment.Orderless env env') (scope : Scope)
    {es : List (Expr μ)} (literals : Expr.AllScalarLiterals es) :
    Option.Rel ItemsReordered (values? env document known scope es)
      (values? env' document' known' scope es) := by
  match es with
  | [] => exact .some rfl
  | e :: es =>
    have first := loaded_matches documents values (place?_matches orderless scope literals.1)
    have others := values?_reordered orderless scope literals.2
    exact rel_bind first fun value => rel_bind others fun rest =>
      .some ⟨_, _, rfl, value.reordered, rest⟩

end

theorem ofText?_matches (orderless : Environment.Orderless env env') (scope : Scope)
    (source : String) :
    Option.Rel Value.Matches (ofText? env document known scope source)
      (ofText? env' document' known' scope source) := by
  simp only [ofText?]
  cases parsed : parse source with
  | error e => exact .none
  | ok e =>
    exact loaded_matches documents values
      (place?_matches documents values orderless scope (scalarLiterals_of_parse parsed))

end Expressions

variable {env env' : Environment} {document document' : Value}

/-- The reference value of a formula is the same up to the order of members, at every depth. -/
theorem formula?_matches (orderless : Environment.Orderless env env')
    (documents : document.Matches document') (depth : Nat) (path : DocPath) :
    Option.Rel Value.Matches (formula? env document depth path)
      (formula? env' document' depth path) := by
  induction depth generalizing path with
  | zero => exact .none
  | succ depth ih =>
    have here := documents.get? path
    simp only [formula?]
    generalize document.get? path = found, document'.get? path = found' at here
    cases here with
    | none => exact .none
    | @some value _ related =>
      rcases related.reordered.shapes with rfl | ⟨_, _, rfl, rfl, _⟩ | ⟨_, _, _, rfl, rfl, _⟩
      · cases value with
        | formula source => exact ofText?_matches documents ih orderless _ source
        | _ => exact .none
      · exact .none
      · exact .none

theorem exists_hasValue_iff (orderless : Environment.Orderless env env')
    (documents : document.Matches document') (path : DocPath) :
    (∃ value, HasValue env document path value) ↔ ∃ value, HasValue env' document' path value := by
  constructor
  · rintro ⟨value, depth, here⟩
    obtain ⟨other, there, _⟩ :=
      exists_right_of_rel (formula?_matches orderless documents depth path) here
    exact ⟨other, depth, there⟩
  · rintro ⟨value, depth, here⟩
    obtain ⟨other, there, _⟩ :=
      exists_left_of_rel (formula?_matches orderless documents depth path) here
    exact ⟨other, depth, there⟩

theorem HasValue.matches (orderless : Environment.Orderless env env')
    (documents : document.Matches document') {path : DocPath} {value other : Value}
    (h : HasValue env document path value) (h' : HasValue env' document' path other) :
    value.Matches other := by
  obtain ⟨depth, here⟩ := h
  obtain ⟨found, there, related⟩ :=
    exists_right_of_rel (formula?_matches orderless documents depth path) here
  rwa [h'.unique ⟨depth, there⟩]

end Reference

/-! ## Evaluations -/

theorem Machine.Complete.valueAt_eq_null {env : Environment} {document : Value} {pass : Pass}
    (h : Complete env document pass) {path : DocPath}
    (none : ∀ source, document.get? path ≠ some (.formula source)) : pass.valueAt path = .null := by
  rw [Pass.valueAt]
  split
  · next value here =>
    obtain ⟨source, formula⟩ := h.coherent.exists_state?_iff.mp ⟨_, here⟩
    exact absurd formula (none source)
  · rfl

theorem Value.Matches.calls_iff {document document' : Value} (h : document.Matches document')
    {name : String} : document.Calls name ↔ document'.Calls name := by
  simp only [Value.Calls, h.get?_formula_iff]

theorem Registry.lookup?_filter {registry : Registry} {keep : String → Bool} {name : String}
    (kept : keep name) :
    Registry.lookup? (registry.filter fun f => keep f.name) name = registry.lookup? name := by
  rw [lookup?, lookup?, List.find?_filter]
  congr 1
  funext f
  by_cases same : f.name = name <;> simp [same, kept]

namespace Engine

open Machine

variable {engine : Engine} {around around' : Surroundings} {document document' : Value}

/-- An evaluation succeeds exactly if every formula has a reference value. -/
theorem succeeds_iff_hasValue (pure : ∀ f ∈ engine.registry, f.Pure)
    (wellFormed : document.WellFormed) :
    (∃ value, engine.evaluate around document = .ok value) ↔
      ∀ path source, document.get? path = some (.formula source) →
        ∃ value, Reference.HasValue (engine.environment around) document path value := by
  have complete := engine.complete_finalPass around document
  have none_iff : (engine.finalPass around document).errors = [] ↔ _ := complete.errors_eq_nil_iff
  have succeeds_iff : (∃ value, engine.evaluate around document = .ok value) ↔
      (engine.finalPass around document).errors = [] := by
    simp only [evaluate_eq_ok_iff, exists_and_left, exists_eq', and_true]
  rw [succeeds_iff, none_iff]
  refine forall_congr' fun path => forall_congr' fun source => forall_congr' fun formula => ?_
  exact exists_congr fun value => complete.resolved_iff pure wellFormed formula

theorem evaluate_matches
    (orderless : Environment.Orderless (engine.environment around) (engine.environment around'))
    (documents : document.Matches document') :
    ((∃ value, engine.evaluate around document = .ok value) ↔
      ∃ value, engine.evaluate around' document' = .ok value) ∧
    ∀ value other, engine.evaluate around document = .ok value →
      engine.evaluate around' document' = .ok other → value.Reordered other := by
  have pure : ∀ f ∈ engine.registry, f.Pure := fun f mem => (orderless.ignores f mem).pure
  have wellFormed' : document'.WellFormed := documents.reordered.wellFormed documents.wellFormed
  constructor
  · rw [succeeds_iff_hasValue pure documents.wellFormed, succeeds_iff_hasValue pure wellFormed']
    simp only [documents.get?_formula_iff, Reference.exists_hasValue_iff orderless documents]
  · intro value other succeeds succeeds'
    have complete := engine.complete_finalPass around document
    have complete' := engine.complete_finalPass around' document'
    obtain ⟨all, rfl⟩ := engine.evaluate_eq_replaceFormulas around documents.wellFormed succeeds
    obtain ⟨all', rfl⟩ := engine.evaluate_eq_replaceFormulas around' wellFormed' succeeds'
    refine (documents.replaceFormulas fun path => ?_).reordered
    by_cases formula : ∃ source, document.get? path = some (.formula source)
    · obtain ⟨source, formula⟩ := formula
      have formula' := documents.get?_formula_iff.mp formula
      obtain ⟨value, here⟩ := all path source formula
      obtain ⟨other, there⟩ := all' path source formula'
      rw [Pass.valueAt_eq here, Pass.valueAt_eq there]
      exact ((complete.resolved_iff pure documents.wellFormed formula).mp here).matches orderless
        documents ((complete'.resolved_iff pure wellFormed' formula').mp there)
    · rw [complete.valueAt_eq_null fun source here => formula ⟨source, here⟩,
        complete'.valueAt_eq_null fun source there =>
          formula ⟨source, documents.get?_formula_iff.mpr there⟩]
      exact Value.matches_of_isScalar rfl

/-- The order of members makes no difference. Where the formulas of a document call built-in functions
only, those of random identifiers apart, and the time is the same, a document and one that it is up to
the order of members at any depth are evaluated successfully or not together, and their results are
the same up to the order of members. -/
theorem evaluate_reordered (engine : Engine) (around around' : Surroundings)
    (document document' : Value)
    (functions : ∀ f ∈ engine.registry, document.Calls f.name →
      f ∈ Registry.builtins ∧ f ≠ Function.uuidV4 ∧ f ≠ Function.uniqueId)
    (pinned : (engine.environment around).now = (engine.environment around').now)
    (wellFormed : document.WellFormed) (reordered : document.Reordered document') :
    ((∃ value, engine.evaluate around document = .ok value) ↔
      ∃ value, engine.evaluate around' document' = .ok value) ∧
    ∀ value other, engine.evaluate around document = .ok value →
      engine.evaluate around' document' = .ok other → value.Reordered other := by
  classical
  have documents : document.Matches document' := ⟨wellFormed, reordered⟩
  -- functions that no formula calls are left out, and all that remain are blind to order
  let called (name : String) : Bool := decide (document.Calls name)
  let fewer : Engine := { engine with registry := engine.registry.filter fun f => called f.name }
  have kept : ∀ name, document.Calls name →
      engine.registry.lookup? name = fewer.registry.lookup? name :=
    fun name calls => (Registry.lookup?_filter (show called name from decide_eq_true calls)).symm
  have orderless : Environment.Orderless (fewer.environment around) (fewer.environment around') := by
    refine ⟨rfl, pinned.symm, fun f mem => ?_, fun f mem => ?_⟩
    all_goals
      obtain ⟨mem, calls⟩ := List.mem_filter.mp mem
      obtain ⟨builtin, hyphenated, plain⟩ := functions f mem (of_decide_eq_true calls)
    · exact Function.ignoresOrder_of_mem_builtins builtin hyphenated plain
    · exact Function.returnsScalars_of_mem_builtins builtin
  rw [engine.evaluate_congr around document kept rfl,
    engine.evaluate_congr around' document' (fun name calls =>
      kept name (documents.calls_iff.mpr calls)) rfl]
  exact evaluate_matches orderless documents

/-- A formula that loads an object with another one inside comes first in one document, and last in
the other, whose inner object is turned around as well. -/
theorem evaluate_reordered_length :
    let engine : Engine := ⟨Registry.builtins, FormulaKeys.default, some 0⟩
    let around : Surroundings := ⟨0, id⟩
    let around' : Surroundings := ⟨1, fun calls => calls + 7⟩
    let document : Value := .object [("size", .formula "LEN(data)"),
      ("data", .object [("x", .string "a"), ("y", .formula "UPPER(x)")])]
    let document' : Value := .object [
      ("data", .object [("y", .formula "UPPER(x)"), ("x", .string "a")]),
      ("size", .formula "LEN(data)")]
    (∀ f ∈ engine.registry, document.Calls f.name →
      f ∈ Registry.builtins ∧ f ≠ Function.uuidV4 ∧ f ≠ Function.uniqueId) ∧
    (engine.environment around).now = (engine.environment around').now ∧
    document.WellFormed ∧ document.Reordered document' ∧
    ((∃ value, engine.evaluate around document = .ok value) ↔
      ∃ value, engine.evaluate around' document' = .ok value) ∧
    ∀ value other, engine.evaluate around document = .ok value →
      engine.evaluate around' document' = .ok other → value.Reordered other := by
  intro engine around around' document document'
  have size : parse "LEN(data)" = .ok (.call ⟨0, 9⟩ "LEN" [.ident ⟨4, 8⟩ "data"]) := by cbv
  have inner : parse "UPPER(x)" = .ok (.call ⟨0, 8⟩ "UPPER" [.ident ⟨6, 7⟩ "x"]) := by cbv
  have formulas : (Tree.ofValue document).formulas = [[.key "size"], [.key "data", .key "y"]] := rfl
  have names : ∀ name, document.Calls name → name = "LEN" ∨ name = "UPPER" := by
    rintro name ⟨path, source, e, formula, parsed, calls⟩
    have mem := mem_formulas_of_get? formula
    rw [formulas, List.mem_cons, List.mem_singleton] at mem
    rcases mem with rfl | rfl
    · cases formula
      rw [size] at parsed
      cases parsed
      left
      simpa [Expr.Calls, Expr.SomeCalls, eq_comm] using calls
    · cases formula
      rw [inner] at parsed
      cases parsed
      right
      simpa [Expr.Calls, Expr.SomeCalls, eq_comm] using calls
  have functions : ∀ f ∈ engine.registry, document.Calls f.name →
      f ∈ Registry.builtins ∧ f ≠ Function.uuidV4 ∧ f ≠ Function.uniqueId := by
    intro f mem calls
    refine ⟨mem, ?_, ?_⟩
    all_goals
      rintro rfl
      exact absurd (names _ calls) (by decide)
  have wellFormed : document.WellFormed := by
    simp [document, Value.WellFormed, Value.MembersWellFormed]
  have reordered : document.Reordered document' := by
    refine ⟨[("size", .formula "LEN(data)"),
      ("data", .object [("y", .formula "UPPER(x)"), ("x", .string "a")])], _, rfl, ?_, .swap ..⟩
    refine ⟨_, _, rfl, rfl, _, _, rfl, ?_, rfl⟩
    exact ⟨_, _, rfl, ⟨_, _, rfl, rfl, _, _, rfl, rfl, rfl⟩, .swap ..⟩
  exact ⟨functions, rfl, wellFormed, reordered,
    evaluate_reordered engine around around' document document' functions rfl wellFormed reordered⟩

end Engine

end FormulaDoc
