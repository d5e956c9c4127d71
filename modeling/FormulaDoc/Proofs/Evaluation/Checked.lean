import FormulaDoc.Engine

/-!
# Checked evaluation

Evaluation without its fallbacks. A path that leads to no node of the working tree, a formula that is
none, or a node that has no value after its formulas got theirs: here all this leaves an evaluation
stuck, with neither an outcome nor a pass. Each node that an expression leads to is looked up in the
working tree at once, and so are all levels of a scope before a formula is evaluated in it.
-/
namespace FormulaDoc

/-- A step of an evaluation that may get stuck. -/
def Checked (α : Type) : Type := Pass → Option (Except EvalError α × Pass)

namespace Checked

variable {α β : Type}

/-- Goes on from what an evaluation has come to. -/
def next (f : α → Checked β) : Except EvalError α × Pass → Option (Except EvalError β × Pass)
  | (.ok a, pass) => f a pass
  | (.error e, pass) => some (.error e, pass)

instance : Monad Checked where
  pure a := fun pass => some (.ok a, pass)
  bind x f := fun pass => (x pass).bind (next f)

/-- An evaluation that has no fallback. -/
def lift (x : Eval α) : Checked α := fun pass => some (x pass)

def stuck : Checked α := fun _ => none

def check (test : Pass → Bool) : Checked Unit := fun pass =>
  if test pass then some (.ok (), pass) else none

/-- Goes on whatever comes of an evaluation. -/
def regardless (x : Checked α) : Checked Unit := fun pass =>
  (x pass).map fun reached => (.ok (), reached.2)

/-- The place of a node that is there. -/
def node (path : DocPath) : Checked Place := do
  check fun pass => (pass.tree.get? path).isSome
  pure (.node path)

/-- Checks that all levels of a scope are there. -/
def within (scope : Scope) : Checked Unit :=
  check fun pass => (scope.path :: scope.enclosing).all fun path => (pass.tree.get? path).isSome

/-! ## Navigation -/

section Navigation

variable (ask : DocPath → Checked Value)

def askAll : List DocPath → Checked Unit
  | [] => pure ()
  | path :: rest => do
    let _ ← ask path
    askAll rest

def load : Place → Checked Value
  | .computed value => pure value
  | .node path => do
    match ← lift (Eval.read (·.tree.get? path)) with
    | none => stuck
    | some tree =>
      askAll ask (tree.pending path)
      match ← lift (Eval.read fun pass => (pass.tree.get? path).bind Tree.toValue?) with
      | some value => pure value
      | none => stuck

def field (key : String) : Place → Checked Place
  | .computed value => lift (Eval.ofExcept ((value.field key).map .computed))
  | .node path => do
    match ← lift (Eval.read (·.tree.get? path)) with
    | none => stuck
    | some (.object members) =>
      match members.lookup key with
      | some _ => node (path.key key)
      | none => lift (Eval.fail (.noProperty key path))
    | some (.formula _) =>
      let value ← ask path
      lift (Eval.ofExcept ((value.field key).map .computed))
    | some tree =>
      lift (Eval.fail (.cannotAccess (EvalError.propertyAccess key) tree.typeName (some path)))

def element (index : Int) : Place → Checked Place
  | .computed value => lift (Eval.ofExcept ((value.element index).map .computed))
  | .node path => do
    match ← lift (Eval.read (·.tree.get? path)) with
    | none => stuck
    | some (.array items) =>
      match position? index items.length with
      | some position => node (path.index position)
      | none => lift (Eval.fail (.indexOutside index items.length path))
    | some (.formula _) =>
      let value ← ask path
      lift (Eval.ofExcept ((value.element index).map .computed))
    | some tree =>
      lift (Eval.fail (.cannotAccess (EvalError.indexAccess index) tree.typeName (some path)))

def select (key : Value) (place : Place) : Checked Place :=
  match key.integer?, key with
  | some index, _ => element ask index place
  | none, .string key => field ask key place
  | none, .number _ => lift (Eval.fail (.indexType "non-integral number"))
  | none, other => lift (Eval.fail (.indexType other.typeName))

def follow : DocPath → Place → Checked Place
  | [], place => pure place
  | .key name :: rest, place => do
    let next ← field ask name place
    follow rest next
  | .index position :: rest, place => do
    let next ← element ask (Int.ofNat position) place
    follow rest next

/-- A bare name is looked up in a container that is there. -/
def namedPlace (scope : Scope) (name : String) : Checked Place :=
  match scope.containerPath? with
  | some container => do
    let start ← node container
    field ask name start
  | none => lift (Eval.fail (.noEnclosingObject name))

def loadStatic (scope : Scope) (depth : Nat) (path : DocPath) : Checked Value := do
  let found ← lift (Eval.ofExcept (scope.ancestor depth))
  let start ← node found.path
  let place ← follow ask path start
  load ask place

end Navigation

/-! ## Expressions -/

section Expressions

variable (env : Environment) (ask : DocPath → Checked Value) (scope : Scope) {μ : Type}

def valueOf (e : Expr μ) (place : Checked Place) : Checked Value :=
  match e.staticPath? with
  | some (depth, path) => loadStatic ask scope depth path
  | none => do
    let found ← place
    load ask found

def shortCircuit (op : BinaryOp) (left right : Checked Value) : Checked Value := do
  let lhs ← left
  let decided ← lift (Eval.ofExcept (op.requireBool lhs))
  if decided == (op == .or) then pure (.bool decided)
  else
    let rhs ← right
    let result ← lift (Eval.ofExcept (op.requireBool rhs))
    pure (.bool result)

def binary (op : BinaryOp) (left right : Checked Value) : Checked Value :=
  if op.isShortCircuit then shortCircuit op left right
  else do
    let lhs ← left
    let rhs ← right
    lift (Eval.ofExcept (op.apply lhs rhs))

mutual

def place : Expr μ → Checked Place
  | .literal _ value => pure (.computed value)
  | .ident _ name => namedPlace ask scope name
  | .scope _ depth => do
    let found ← lift (Eval.ofExcept (scope.ancestor depth))
    node found.path
  | .root _ => node DocPath.root
  | .field _ receiver name => do
    let base ← place receiver
    field ask name base
  | .index _ receiver position => do
    let base ← place receiver
    let key ← valueOf ask scope position (place position)
    select ask key base
  | .unary _ op operand => do
    let value ← valueOf ask scope operand (place operand)
    let result ← lift (Eval.ofExcept (op.apply value))
    pure (.computed result)
  | .binary _ op left right => do
    let result ← binary op (valueOf ask scope left (place left))
      (valueOf ask scope right (place right))
    pure (.computed result)
  | .call _ name args => do
    let values ← values args
    let result ← lift (Interpreter.call env name values)
    pure (.computed result)

def values : List (Expr μ) → Checked (List Value)
  | [] => pure []
  | e :: es => do
    let value ← valueOf ask scope e (place e)
    let rest ← values es
    pure (value :: rest)

end

end Expressions

/-! ## Formulas -/

section Formulas

variable (env : Environment) (ask : DocPath → Checked Value) (scope : Scope)

def evaluate (source : String) : Checked Value := do
  within scope
  match parse source with
  | .error e => lift (Eval.fail (.syntaxError e))
  | .ok e => valueOf ask scope e (place env ask scope e)

/-- Asks for what is a formula. -/
def askFor (asker : Option DocPath) (path : DocPath) : Checked Value := do
  check fun pass => (pass.tree.cell? path).isSome
  lift (Eval.change (·.note asker path))
  ask path

def start (path : DocPath) (source : String) : Checked Value := fun pass =>
  (evaluate env (askFor ask (some path)) scope source (pass.setState path .inProgress)).map
    fun reached => Resolution.conclude path reached.1 reached.2

def settle (path : DocPath) : Checked Value := do
  match ← lift (Eval.read (·.tree.cell? path)) with
  | none => stuck
  | some ⟨_, .resolved value⟩ => pure value
  | some ⟨_, .inProgress⟩ => lift (Eval.fail (.cyclicReference path))
  | some ⟨_, .failed kind⟩ => lift (Eval.fail (.dependencyFailed path kind))
  | some ⟨source, .unresolved⟩ => start env ask scope path source

def resolveWithin : Nat → DocPath → Checked Value
  | 0, path => lift (Eval.fail (.cyclicReference path))
  | depth + 1, path => settle env (resolveWithin depth) (Scope.ofFormula path) path

end Formulas

/-! ## Documents -/

section Documents

variable (env : Environment) (ask : DocPath → Checked Value)

mutual

/-- Visits a child of a container. Where the child is a container itself, its scope is checked. -/
def visit (container : Scope) (path : DocPath) : Tree → Checked Unit
  | .scalar _ => pure ()
  | .formula _ => regardless (settle env ask (container.inside .formula path) path)
  | .array items => do
    within (container.inside .container path)
    visitItems (container.inside .container path) 0 items
  | .object members => do
    within (container.inside .container path)
    visitMembers (container.inside .container path) members

def visitItems (container : Scope) (position : Nat) : List Tree → Checked Unit
  | [] => pure ()
  | item :: rest => do
    visit container (container.path.index position) item
    visitItems container (position + 1) rest

def visitMembers (container : Scope) : List (String × Tree) → Checked Unit
  | [] => pure ()
  | (key, tree) :: rest => do
    visit container (container.path.key key) tree
    visitMembers container rest

end

def visitDocument : Checked Unit := fun pass =>
  let ask := resolveWithin env (Resolution.depthOf pass.tree)
  match pass.tree with
  | .scalar _ => some (.ok (), pass)
  | .formula _ => regardless (settle env ask Scope.detached DocPath.root) pass
  | .array items => visitItems env ask Scope.root 0 items pass
  | .object members => visitMembers env ask Scope.root members pass

end Documents

end Checked

namespace Engine

def checkedEvaluate (engine : Engine) (around : Surroundings) (document : Value) :
    Option (Except Failure Value) :=
  (Checked.visitDocument (engine.environment around) (Pass.start document)).map
    fun reached => reached.2.report.conclude reached.2.tree

def checkedExpression (engine : Engine) (around : Surroundings) (text : String) (data : Value) :
    Option (Except EvalError Value × Pass) :=
  let pass := Pass.start data
  let env := engine.environment around
  let ask := Checked.resolveWithin env (Resolution.depthOf pass.tree)
  Checked.evaluate env (Checked.askFor ask none) Scope.root text pass

end Engine

end FormulaDoc
