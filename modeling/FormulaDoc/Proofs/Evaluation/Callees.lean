import FormulaDoc.Proofs.Evaluation.Execution

/-!
# What an evaluation knows of its registry

An evaluation depends on the registry only through the functions that formulas call. With other
functions, or without them, it takes the same course.
-/
namespace FormulaDoc

namespace Expr

variable {α : Type}

mutual

/-- Whether an expression calls a function of a name somewhere. -/
def Calls (name : String) : Expr α → Prop
  | literal _ _ | ident _ _ | scope _ _ | root _ => False
  | field _ receiver _ => receiver.Calls name
  | index _ receiver position => receiver.Calls name ∨ position.Calls name
  | unary _ _ operand => operand.Calls name
  | binary _ _ left right => left.Calls name ∨ right.Calls name
  | call _ callee args => callee = name ∨ SomeCalls name args

def SomeCalls (name : String) : List (Expr α) → Prop
  | [] => False
  | e :: es => e.Calls name ∨ SomeCalls name es

end

end Expr

/-- Whether a formula of a document calls a function of a name. -/
def Value.Calls (document : Value) (name : String) : Prop :=
  ∃ path source e, document.get? path = some (.formula source) ∧ parse source = .ok e ∧ e.Calls name

/-- Two environments that differ in functions of other names only. -/
structure Environment.Agree (called : String → Prop) (env env' : Environment) : Prop where
  lookup? : ∀ name, called name → env.registry.lookup? name = env'.registry.lookup? name
  now : env.now = env'.now
  draws : env.draws = env'.draws

variable {called : String → Prop} {env env' : Environment}

namespace Interpreter

variable {α : Type} (ask : DocPath → Eval Value) (scope : Scope)

theorem call_congr (agree : Environment.Agree called env env') {name : String} (calls : called name)
    (args : List Value) : call env name args = call env' name args := by
  funext pass
  simp only [call, agree.lookup? name calls, agree.now, agree.draws]

mutual

/-- An expression leads to the same place if the functions that it calls are the same. -/
theorem place_congr (agree : Environment.Agree called env env') {e : Expr α}
    (within : ∀ name, e.Calls name → called name) :
    place env ask scope e = place env' ask scope e := by
  match e with
  | .literal _ _ | .ident _ _ | .scope _ _ | .root _ => rfl
  | .field _ receiver _ =>
    simp only [place, place_congr agree (show ∀ name, receiver.Calls name → _ from within)]
  | .index _ receiver position =>
    simp only [place, place_congr agree fun name calls => within name (.inl calls),
      place_congr agree fun name calls => within name (.inr calls)]
  | .unary _ _ operand =>
    simp only [place, place_congr agree (show ∀ name, operand.Calls name → _ from within)]
  | .binary _ _ left right =>
    simp only [place, place_congr agree fun name calls => within name (.inl calls),
      place_congr agree fun name calls => within name (.inr calls)]
  | .call _ callee args =>
    simp only [place, values_congr agree fun name calls => within name (.inr calls),
      call_congr agree (within callee (.inl rfl))]

theorem values_congr (agree : Environment.Agree called env env') {es : List (Expr α)}
    (within : ∀ name, Expr.SomeCalls name es → called name) :
    values env ask scope es = values env' ask scope es := by
  match es with
  | [] => rfl
  | e :: es =>
    simp only [values, place_congr agree fun name calls => within name (.inl calls),
      values_congr agree fun name calls => within name (.inr calls)]

end

theorem value_congr (agree : Environment.Agree called env env') {e : Expr α}
    (within : ∀ name, e.Calls name → called name) :
    value env ask scope e = value env' ask scope e := by
  rw [value, value, place_congr ask scope agree within]

end Interpreter

/-! ## Evaluations with the same answers -/

variable {document : Value} {ask ask' : DocPath → Eval Value}

/-- Two functions give the same values of formulas, on trees of a document's shape. -/
def SameAnswers (document : Value) (ask ask' : DocPath → Eval Value) : Prop :=
  ∀ path pass, pass.tree.blank = Tree.ofValue document → ask path pass = ask' path pass

namespace Plan

theorem bind_congr {α β : Type} {x x' : Eval α} {f f' : α → Eval β} {pass : Pass}
    (first : x pass = x' pass) (shape : (x' pass).2.tree.blank = Tree.ofValue document)
    (rest : ∀ a pass', pass'.tree.blank = Tree.ofValue document → f a pass' = f' a pass') :
    (x >>= f) pass = (x' >>= f') pass := by
  rw [Eval.bind_apply, Eval.bind_apply, first]
  rcases result : x' pass with ⟨_ | a, pass'⟩
  · rfl
  · rw [result] at shape
    exact rest a pass' shape

theorem askAll_congr (same : SameAnswers document ask ask') (steady : Steady document ask')
    (paths : List DocPath) {pass : Pass} (shape : pass.tree.blank = Tree.ofValue document) :
    Place.askAll ask paths pass = Place.askAll ask' paths pass := by
  induction paths generalizing pass with
  | nil => rfl
  | cons path rest ih =>
    exact bind_congr (same path pass shape) (steady path pass shape) fun _ _ kept => ih kept

theorem settleNode_congr (same : SameAnswers document ask ask') (steady : Steady document ask')
    (path : DocPath) (waiting : List DocPath) {pass : Pass}
    (shape : pass.tree.blank = Tree.ofValue document) :
    settleNode ask path waiting pass = settleNode ask' path waiting pass :=
  bind_congr (askAll_congr same steady waiting shape) (steady_askAll steady waiting shape)
    fun _ _ _ => rfl

/-- A plan runs in the same way if it gets the same answers. -/
theorem run_congr {α : Type} (same : SameAnswers document ask ask') (steady : Steady document ask')
    (plan : Plan α) {pass : Pass} (shape : pass.tree.blank = Tree.ofValue document) :
    plan.run env ask pass = plan.run env ask' pass := by
  induction plan generalizing pass with
  | done outcome => rfl
  | ask path next ih =>
    exact bind_congr (same path pass shape) (steady path pass shape) fun value _ kept => ih value kept
  | gather path next ih =>
    exact bind_congr (settleNode_congr same steady path _ shape)
      (steady_settleNode steady path _ shape) fun value _ kept => ih value kept
  | await path waiting next ih =>
    exact bind_congr (settleNode_congr same steady path waiting shape)
      (steady_settleNode steady path waiting shape) fun value _ kept => ih value kept
  | call name args next ih =>
    refine bind_congr rfl ?_ fun value _ kept => ih value kept
    rw [Interpreter.tree_call]
    exact shape

end Plan

namespace Resolution

variable (agree : Environment.Agree document.Calls env env')

include agree

theorem evaluate_congr (same : SameAnswers document ask ask') (steady : Steady document ask)
    (steady' : Steady document ask') (scope : Scope) {path : DocPath} {source : String}
    (formula : document.get? path = some (.formula source)) {pass : Pass}
    (shape : pass.tree.blank = Tree.ofValue document) :
    evaluate env ask scope source pass = evaluate env' ask' scope source pass := by
  have callees : evaluate env ask scope source = evaluate env' ask scope source := by
    rw [evaluate, evaluate]
    cases parsed : parse source with
    | error e => rfl
    | ok e =>
      exact Interpreter.value_congr ask scope agree fun name calls =>
        ⟨path, source, e, formula, parsed, calls⟩
  rw [callees, Plan.describes_ofText steady scope source pass shape,
    Plan.describes_ofText steady' scope source pass shape, Plan.run_congr same steady' _ shape]

/-- A formula of a document comes to the same whatever other functions there are. -/
theorem resolveWithin_congr (depth : Nat) :
    SameAnswers document (resolveWithin env depth) (resolveWithin env' depth) := by
  induction depth with
  | zero => exact fun _ _ _ => rfl
  | succ depth ih =>
    intro path pass shape
    rw [resolveWithin, resolveWithin]
    cases reply : pass.reply? path with
    | some outcome => rw [settle_of_reply reply, settle_of_reply reply]
    | none =>
      obtain ⟨source, cell⟩ := Pass.reply?_eq_none_iff.mp reply
      have begun : (pass.setState path .inProgress).tree.blank = Tree.ofValue document :=
        (Tree.blank_setState _ _ _).trans shape
      have asked : SameAnswers document (askFor (some path) (resolveWithin env depth))
          (askFor (some path) (resolveWithin env' depth)) :=
        fun other pass shape => ih other (pass.note (some path) other) shape
      rw [settle_of_unresolved cell, settle_of_unresolved cell, start, start,
        evaluate_congr agree asked (steady_askFor (steady_resolveWithin env depth) _)
          (steady_askFor (steady_resolveWithin env' depth) _) _
          (Tree.source_of_shape shape cell) begun]

end Resolution

namespace Traversal

theorem resolveEach_cons (depth : Nat) (path : DocPath) (rest : List DocPath) (pass : Pass) :
    resolveEach env depth (path :: rest) pass =
      resolveEach env depth rest (Resolution.resolveWithin env (depth + 1) path pass).2 := by
  rw [resolveEach, resolveEach, List.foldl_cons]

theorem resolveEach_congr (agree : Environment.Agree document.Calls env env') (depth : Nat)
    (paths : List DocPath) {pass : Pass} (shape : pass.tree.blank = Tree.ofValue document) :
    resolveEach env depth paths pass = resolveEach env' depth paths pass := by
  induction paths generalizing pass with
  -- `rfl` would compare the two interpreters before it looks at the empty list
  | nil => rw [resolveEach, resolveEach, List.foldl_nil, List.foldl_nil]
  | cons path rest ih =>
    have first := Resolution.resolveWithin_congr agree (depth + 1) path pass shape
    have kept := Resolution.steady_resolveWithin env' (depth + 1) path pass shape
    rw [resolveEach_cons, resolveEach_cons, first]
    exact ih kept

end Traversal

/-- An evaluation depends on the registry only through the functions that formulas call. -/
theorem Engine.evaluate_congr {engine engine' : Engine} (around : Surroundings) (document : Value)
    (same : ∀ name, document.Calls name →
      engine.registry.lookup? name = engine'.registry.lookup? name)
    (now : engine.fixedNow = engine'.fixedNow) :
    engine.evaluate around document = engine'.evaluate around document := by
  have agree : Environment.Agree document.Calls (engine.environment around)
      (engine'.environment around) := ⟨same, by rw [environment, environment, now], rfl⟩
  rw [evaluate, evaluate, Traversal.visitDocument_eq, Traversal.visitDocument_eq,
    Traversal.resolveEach_congr agree _ _ (Tree.blank_ofValue document)]

end FormulaDoc
