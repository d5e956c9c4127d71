import FormulaDoc.Proofs.Evaluation.Plan

/-!
# Interpreting is running a plan

On a working tree of a document's shape, the interpreter does exactly what the plan of the expression
in the document says. A fixed path that is followed directly gives what evaluating it step by step
and loading the end gives, so plans need no rule of their own for it.
-/
namespace FormulaDoc

namespace Eval

instance : LawfulMonad Eval := LawfulMonad.mk' Eval
  (fun x => by
    funext pass
    show (match x pass with
      | (.ok a, pass') => (.ok a, pass')
      | (.error e, pass') => (.error e, pass')) = x pass
    rcases x pass with ⟨_ | _, _⟩ <;> rfl)
  (fun _ _ => rfl)
  (fun x f g => by
    funext pass
    simp only [bind_apply]
    rcases x pass with ⟨_ | _, _⟩ <;> rfl)

end Eval

/-! ## Fixed paths -/

namespace Place

variable (ask : DocPath → Eval Value)

theorem follow_append (path rest : DocPath) (place : Place) :
    follow ask (path ++ rest) place = follow ask path place >>= follow ask rest := by
  induction path generalizing place with
  | nil => exact (pure_bind place (follow ask rest)).symm
  | cons step path ih =>
    cases step with
    | key name =>
      change place.field ask name >>= follow ask (path ++ rest) =
        (place.field ask name >>= follow ask path) >>= follow ask rest
      rw [bind_assoc, funext ih]
    | index position =>
      change place.element ask position >>= follow ask (path ++ rest) =
        (place.element ask position >>= follow ask path) >>= follow ask rest
      rw [bind_assoc, funext ih]

theorem follow_key (name : String) :
    follow ask [.key name] = fun place => place.field ask name :=
  funext fun place => bind_pure (place.field ask name)

theorem follow_index (position : Nat) :
    follow ask [.index position] = fun place => place.element ask (Int.ofNat position) :=
  funext fun place => bind_pure (place.element ask (Int.ofNat position))

end Place

namespace Interpreter

variable {α : Type} (env : Environment) (ask : DocPath → Eval Value) (scope : Scope)

/-- A literal index selects what its step leads to. -/
theorem select_of_literalStep? {position : Expr α} {step : Step}
    (h : position.literalStep? = some step) (base : Place) :
    (do let key ← valueOf ask scope position (place env ask scope position)
        base.select ask key) = base.follow ask [step] := by
  cases position with
  | literal mark value =>
    have evaluated : valueOf ask scope (.literal mark value)
        (place env ask scope (.literal mark value)) = pure value := rfl
    rw [evaluated, pure_bind]
    cases value with
    | string key =>
      cases h
      rw [Place.follow_key]
      rfl
    | number n =>
      simp only [Expr.literalStep?] at h
      split at h
      · next i exact =>
        cases h
        simp [Place.select, exact, Place.follow_index]
      · cases h
    | _ => simp [Expr.literalStep?] at h
  | _ => simp [Expr.literalStep?] at h

/-- Where a fixed path leads, taken step by step. -/
theorem place_of_staticPath? {e : Expr α} {depth : Nat} {path : DocPath}
    (h : e.staticPath? = some (depth, path)) :
    place env ask scope e = (do
      let start ← Eval.ofExcept (scope.ancestor depth)
      Place.follow ask path (.node start.path)) := by
  match e with
  | .scope _ _ =>
    cases h
    rfl
  | .field _ receiver name =>
    obtain ⟨⟨levels, before⟩, found, same⟩ := Option.map_eq_some_iff.mp h
    cases same
    change (place env ask scope receiver >>= fun base => base.field ask name) = _
    simp only [place_of_staticPath? found, bind_assoc, DocPath.key, DocPath.child,
      Place.follow_append, Place.follow_key]
  | .index _ receiver position =>
    obtain ⟨step, literal, rest⟩ := Option.bind_eq_some_iff.mp h
    obtain ⟨⟨levels, before⟩, found, same⟩ := Option.map_eq_some_iff.mp rest
    cases same
    change (place env ask scope receiver >>= fun base =>
      valueOf ask scope position (place env ask scope position) >>= base.select ask) = _
    simp only [place_of_staticPath? found, bind_assoc, DocPath.child, Place.follow_append,
      select_of_literalStep? env ask scope literal]

/-- The value of an expression is what its place loads, also where a fixed path is followed
directly. -/
theorem valueOf_place (e : Expr α) :
    valueOf ask scope e (place env ask scope e) = place env ask scope e >>= Place.load ask := by
  rw [valueOf]
  split
  · next depth path found =>
    rw [place_of_staticPath? env ask scope found, Scope.loadStatic, bind_assoc]
  · rfl

theorem place_unary (mark : α) (op : UnaryOp) (operand : Expr α) :
    place env ask scope (.unary mark op operand) = (do
      let value ← place env ask scope operand >>= Place.load ask
      let result ← Eval.ofExcept (op.apply value)
      pure (.computed result)) := by
  rw [← valueOf_place]
  rfl

theorem place_binary (mark : α) (op : BinaryOp) (left right : Expr α) :
    place env ask scope (.binary mark op left right) = (do
      let result ← binary op (place env ask scope left >>= Place.load ask)
        (place env ask scope right >>= Place.load ask)
      pure (.computed result)) := by
  rw [← valueOf_place, ← valueOf_place]
  rfl

/-- A call changes nothing but the number of calls. -/
theorem call_keeps (name : String) (args : List Value) (pass : Pass) :
    ∃ calls, (call env name args pass).2 = { pass with calls := calls } := by
  rw [call]
  split
  · exact ⟨pass.calls, rfl⟩
  · split
    · exact ⟨_, rfl⟩
    · split <;> exact ⟨_, rfl⟩

@[simp] theorem tree_call (name : String) (args : List Value) (pass : Pass) :
    (call env name args pass).2.tree = pass.tree := by
  obtain ⟨calls, same⟩ := call_keeps env name args pass
  rw [same]

@[simp] theorem errors_call (name : String) (args : List Value) (pass : Pass) :
    (call env name args pass).2.errors = pass.errors := by
  obtain ⟨calls, same⟩ := call_keeps env name args pass
  rw [same]

@[simp] theorem needs_call (name : String) (args : List Value) (pass : Pass) :
    (call env name args pass).2.needs = pass.needs := by
  obtain ⟨calls, same⟩ := call_keeps env name args pass
  rw [same]

end Interpreter

/-! ## Plans describe computations -/

/-- The function that gives the values of formulas keeps the shape of a document's trees. -/
def Steady (document : Value) (ask : DocPath → Eval Value) : Prop :=
  ∀ path pass, pass.tree.blank = Tree.ofValue document →
    (ask path pass).2.tree.blank = Tree.ofValue document

namespace Plan

variable {α β : Type} {env : Environment} {ask : DocPath → Eval Value} {document : Value}

theorem steady_askAll (steady : Steady document ask) (paths : List DocPath) {pass : Pass}
    (shape : pass.tree.blank = Tree.ofValue document) :
    (Place.askAll ask paths pass).2.tree.blank = Tree.ofValue document := by
  induction paths generalizing pass with
  | nil => exact shape
  | cons path rest ih =>
    have kept := steady path pass shape
    simp only [Place.askAll, Eval.bind_apply]
    rcases result : ask path pass with ⟨_ | _, pass'⟩ <;> rw [result] at kept
    · exact kept
    · exact ih kept

theorem steady_bind {x : Eval α} {f : α → Eval β} {pass : Pass}
    (first : (x pass).2.tree.blank = Tree.ofValue document)
    (rest : ∀ a pass', pass'.tree.blank = Tree.ofValue document →
      (f a pass').2.tree.blank = Tree.ofValue document) :
    ((x >>= f) pass).2.tree.blank = Tree.ofValue document := by
  rw [Eval.bind_apply]
  rcases result : x pass with ⟨_ | a, pass'⟩ <;> rw [result] at first
  · exact first
  · exact rest a pass' first

theorem steady_settleNode (steady : Steady document ask) (path : DocPath) (waiting : List DocPath)
    {pass : Pass} (shape : pass.tree.blank = Tree.ofValue document) :
    (settleNode ask path waiting pass).2.tree.blank = Tree.ofValue document :=
  steady_bind (steady_askAll steady waiting shape) fun _ _ kept => kept

theorem steady_run (steady : Steady document ask) (plan : Plan α) {pass : Pass}
    (shape : pass.tree.blank = Tree.ofValue document) :
    (plan.run env ask pass).2.tree.blank = Tree.ofValue document := by
  induction plan generalizing pass with
  | done outcome => exact shape
  | ask path next ih => exact steady_bind (steady path pass shape) fun value _ kept => ih value kept
  | gather path next ih =>
    exact steady_bind (steady_settleNode steady path _ shape) fun value _ kept => ih value kept
  | await path waiting next ih =>
    exact steady_bind (steady_settleNode steady path waiting shape)
      fun value _ kept => ih value kept
  | call name args next ih =>
    refine steady_bind ?_ fun value _ kept => ih value kept
    rw [Interpreter.tree_call]
    exact shape

theorem run_bind (plan : Plan α) (f : α → Plan β) :
    (plan >>= f).run env ask = plan.run env ask >>= fun a => (f a).run env ask := by
  induction plan with
  | done outcome => cases outcome <;> rfl
  | ask path next ih => simp only [ask_bind, run_ask, bind_assoc, ih]
  | gather path next ih =>
    funext pass
    simp only [gather_bind, run_gather, ih, ← bind_assoc]
    rfl
  | await path waiting next ih => simp only [await_bind, run_await, bind_assoc, ih]
  | call name args next ih => simp only [call_bind, run_call, bind_assoc, ih]

/-- On every tree of the document's shape, running the plan is the computation. -/
def Describes (env : Environment) (ask : DocPath → Eval Value) (document : Value) (plan : Plan α)
    (x : Eval α) : Prop :=
  ∀ pass, pass.tree.blank = Tree.ofValue document → x pass = plan.run env ask pass

theorem describes_done (outcome : Except EvalError α) :
    Describes env ask document (done outcome) (Eval.ofExcept outcome) := fun _ _ => rfl

theorem Describes.bind {plan : Plan α} {x : Eval α} {f : α → Plan β} {g : α → Eval β}
    (steady : Steady document ask) (first : Describes env ask document plan x)
    (rest : ∀ a, Describes env ask document (f a) (g a)) :
    Describes env ask document (plan >>= f) (x >>= g) := by
  intro pass shape
  have kept : (plan.run env ask pass).2.tree.blank = _ := steady_run steady plan shape
  rw [run_bind, Eval.bind_apply, Eval.bind_apply, first pass shape]
  rcases result : plan.run env ask pass with ⟨_ | a, pass'⟩
  · rfl
  · rw [result] at kept
    exact rest a pass' kept

/-- What a tree of the document's shape has at a path. -/
theorem node_of_shape {pass : Pass} (shape : pass.tree.blank = Tree.ofValue document)
    (path : DocPath) :
    (pass.tree.get? path = none ∧ document.get? path = none) ∨
      ∃ tree value, pass.tree.get? path = some tree ∧ document.get? path = some value ∧
        tree.blank = Tree.ofValue value := by
  have node := Tree.get?_of_shape shape path
  cases found : pass.tree.get? path with
  | none =>
    rw [found] at node
    exact .inl ⟨rfl, Option.map_eq_none_iff.mp node.symm⟩
  | some tree =>
    rw [found] at node
    obtain ⟨value, here, same⟩ := Option.map_eq_some_iff.mp node.symm
    exact .inr ⟨tree, value, rfl, here, same.symm⟩

theorem lookup_of_blank {trees : List (String × Tree)} {members : List (String × Value)}
    (same : Tree.blankMembers trees = Tree.ofMembers members) (key : String) :
    (trees.lookup key).isSome = (members.lookup key).isSome := by
  rw [Tree.blankMembers_eq_map, Tree.ofMembers_eq_map] at same
  have found := congrArg (List.lookup key) same
  rw [lookup_map_values, lookup_map_values] at found
  simpa using congrArg Option.isSome found

theorem length_of_blank {trees : List Tree} {items : List Value}
    (same : Tree.blankItems trees = Tree.ofItems items) : trees.length = items.length := by
  rw [Tree.blankItems_eq_map, Tree.ofItems_eq_map] at same
  simpa using congrArg List.length same

theorem describes_field (key : String) (place : Place) :
    Describes env ask document (field document key place) (place.field ask key) := by
  intro pass shape
  cases place with
  | computed value => rfl
  | node path =>
    rcases node_of_shape shape path with ⟨here, there⟩ | ⟨tree, value, here, there, same⟩
    · simp [Place.field, field, Eval.bind_apply, Eval.read, here, there, run_done, fail, Eval.fail,
        Eval.ofExcept]
    · simp only [Place.field, field, Eval.bind_apply, Eval.read, here, there]
      cases tree with
      | scalar v =>
        cases value <;> simp only [Tree.blank, Tree.ofValue, reduceCtorEq, Tree.scalar.injEq] at same
        all_goals subst same; rfl
      | array trees =>
        cases value <;> simp only [Tree.blank, Tree.ofValue, reduceCtorEq] at same
        rfl
      | object trees =>
        cases value <;> simp only [Tree.blank, Tree.ofValue, reduceCtorEq, Tree.object.injEq] at same
        next members =>
        have known := lookup_of_blank same key
        simp only
        cases h : trees.lookup key <;> cases h' : members.lookup key <;> rw [h, h'] at known
        · rfl
        · cases known
        · cases known
        · rfl
      | formula cell =>
        cases value <;> simp only [Tree.blank, Tree.ofValue, reduceCtorEq] at same
        rfl

theorem describes_element (index : Int) (place : Place) :
    Describes env ask document (element document index place) (place.element ask index) := by
  intro pass shape
  cases place with
  | computed value => rfl
  | node path =>
    rcases node_of_shape shape path with ⟨here, there⟩ | ⟨tree, value, here, there, same⟩
    · simp [Place.element, element, Eval.bind_apply, Eval.read, here, there, run_done, fail, Eval.fail,
        Eval.ofExcept]
    · simp only [Place.element, element, Eval.bind_apply, Eval.read, here, there]
      cases tree with
      | scalar v =>
        cases value <;> simp only [Tree.blank, Tree.ofValue, reduceCtorEq, Tree.scalar.injEq] at same
        all_goals subst same; rfl
      | object trees =>
        cases value <;> simp only [Tree.blank, Tree.ofValue, reduceCtorEq] at same
        rfl
      | array trees =>
        cases value <;> simp only [Tree.blank, Tree.ofValue, reduceCtorEq, Tree.array.injEq] at same
        next items =>
        simp only [length_of_blank same]
        cases position? index items.length <;> rfl
      | formula cell =>
        cases value <;> simp only [Tree.blank, Tree.ofValue, reduceCtorEq] at same
        rfl

theorem describes_load (place : Place) :
    Describes env ask document (load document place) (place.load ask) := by
  intro pass shape
  cases place with
  | computed value => rfl
  | node path =>
    rcases node_of_shape shape path with ⟨here, there⟩ | ⟨tree, value, here, there, same⟩
    · simp [Place.load, load, Eval.bind_apply, Eval.read, here, there, run_done, fail, Eval.fail,
        Eval.ofExcept]
    · have gathered : (gather path pure : Plan Value).run env ask pass =
          settleNode ask path (pendingAt pass.tree path) pass := by
        show (settleNode ask path (pendingAt pass.tree path) >>= pure) pass = _
        rw [bind_pure]
      rw [load, there, gathered, Place.load, Eval.bind_apply, Eval.read, here]
      simp only [settleNode, pendingAt, Tree.cellsWithin, Tree.pending, here]
      rw [Eval.bind_apply, Eval.bind_apply]
      rcases Place.askAll ask _ pass with ⟨_ | _, pass'⟩
      · rfl
      · simp only [Eval.bind_apply, Eval.read, collect, collected]
        cases (pass'.tree.get? path).bind Tree.toValue? <;> rfl

theorem describes_select (key : Value) (place : Place) :
    Describes env ask document (select document key place) (place.select ask key) := by
  simp only [select, Place.select]
  cases key.integer? with
  | some index => exact describes_element index place
  | none =>
    cases key with
    | string name => exact describes_field name place
    | _ => exact fun _ _ => rfl

theorem describes_namedPlace (scope : Scope) (name : String) :
    Describes env ask document (namedPlace document scope name) (scope.namedPlace ask name) := by
  rw [namedPlace, Scope.namedPlace]
  cases scope.containerPath? with
  | some container => exact describes_field name (.node container)
  | none => exact fun _ _ => rfl

theorem describes_call (name : String) (args : List Value) :
    Describes env ask document (call name args pure) (Interpreter.call env name args) := by
  intro pass _
  rw [run_call, Eval.bind_apply]
  rcases Interpreter.call env name args pass with ⟨_ | _, _⟩ <;> rfl

theorem describes_binary (steady : Steady document ask) (op : BinaryOp) {left right : Plan Value}
    {x y : Eval Value} (first : Describes env ask document left x)
    (second : Describes env ask document right y) :
    Describes env ask document (binary op left right) (Interpreter.binary op x y) := by
  rw [binary, Interpreter.binary, Interpreter.shortCircuit]
  split
  · refine first.bind steady fun lhs => (describes_done _).bind steady fun decided => ?_
    split
    · exact describes_done _
    · exact second.bind steady fun rhs => (describes_done _).bind steady fun _ => describes_done _
  · exact first.bind steady fun lhs => second.bind steady fun rhs => describes_done _

variable {μ : Type}

mutual

/-- Finding the place of an expression is running its plan. -/
theorem describes_place (steady : Steady document ask) (scope : Scope) (e : Expr μ) :
    Describes env ask document (place document scope e) (Interpreter.place env ask scope e) := by
  match e with
  | .literal _ _ | .root _ => exact describes_done _
  | .ident _ name => exact describes_namedPlace scope name
  | .scope _ depth => exact (describes_done _).bind steady fun _ => describes_done _
  | .field _ receiver name =>
    exact (describes_place steady scope receiver).bind steady fun base => describes_field name base
  | .index _ receiver position =>
    refine (describes_place steady scope receiver).bind steady fun base => ?_
    rw [Interpreter.valueOf_place]
    exact ((describes_place steady scope position).bind steady describes_load).bind steady
      fun key => describes_select key base
  | .unary _ op operand =>
    rw [Interpreter.place_unary]
    exact ((describes_place steady scope operand).bind steady describes_load).bind steady
      fun _ => (describes_done _).bind steady fun _ => describes_done _
  | .binary _ op left right =>
    rw [Interpreter.place_binary]
    exact (describes_binary steady op
      ((describes_place steady scope left).bind steady describes_load)
      ((describes_place steady scope right).bind steady describes_load)).bind steady
      fun _ => describes_done _
  | .call _ name args =>
    exact (describes_values steady scope args).bind steady fun values =>
      (describes_call name values).bind steady fun _ => describes_done _

theorem describes_values (steady : Steady document ask) (scope : Scope) (es : List (Expr μ)) :
    Describes env ask document (values document scope es)
      (Interpreter.values env ask scope es) := by
  match es with
  | [] => exact describes_done _
  | e :: es =>
    rw [values, Interpreter.values, Interpreter.valueOf_place]
    exact ((describes_place steady scope e).bind steady describes_load).bind steady fun _ =>
      (describes_values steady scope es).bind steady fun _ => describes_done _

end

theorem describes_value (steady : Steady document ask) (scope : Scope) (e : Expr μ) :
    Describes env ask document (value document scope e) (Interpreter.value env ask scope e) := by
  rw [Interpreter.value, Interpreter.valueOf_place]
  exact (describes_place steady scope e).bind steady describes_load

/-- Evaluating the text of a formula is running its plan. -/
theorem describes_ofText (steady : Steady document ask) (scope : Scope) (source : String) :
    Describes env ask document (ofText document scope source)
      (Resolution.evaluate env ask scope source) := by
  rw [ofText, Resolution.evaluate]
  cases parse source with
  | error e => exact describes_done _
  | ok e => exact describes_value steady scope e

end Plan

end FormulaDoc
