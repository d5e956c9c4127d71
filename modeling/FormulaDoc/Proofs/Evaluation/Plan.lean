import FormulaDoc.Evaluation.Resolution
import FormulaDoc.Proofs.Document.Filling

/-!
# Plans

What an expression does in a document, as data: the formulas it asks for, the nodes it loads, the
functions it calls, and what it goes on with after each answer. The shape of a document is fixed, so
everything else about an expression is decided by its document before anything runs.
-/
namespace FormulaDoc

/-- A computation that ends with an outcome or needs something first. -/
inductive Plan (α : Type) where
  | done (outcome : Except EvalError α)
  | ask (path : DocPath) (next : Value → Plan α)
  /-- Needs the value of a node with whatever formulas are inside. -/
  | gather (path : DocPath) (next : Value → Plan α)
  /-- Needs the value of a node and has some formulas inside still to ask for. -/
  | await (path : DocPath) (waiting : List DocPath) (next : Value → Plan α)
  | call (name : String) (args : List Value) (next : Value → Plan α)

namespace Plan

variable {α β : Type}

def fail (e : EvalError) : Plan α := done (.error e)

def bind : Plan α → (α → Plan β) → Plan β
  | done (.ok a), f => f a
  | done (.error e), _ => fail e
  | ask path next, f => ask path fun value => (next value).bind f
  | gather path next, f => gather path fun value => (next value).bind f
  | await path waiting next, f => await path waiting fun value => (next value).bind f
  | call name args next, f => call name args fun value => (next value).bind f

instance : Monad Plan where
  pure a := done (.ok a)
  bind := bind

@[simp] theorem pure_eq (a : α) : (pure a : Plan α) = done (.ok a) := rfl
@[simp] theorem ok_bind (a : α) (f : α → Plan β) : done (.ok a) >>= f = f a := rfl
@[simp] theorem error_bind (e : EvalError) (f : α → Plan β) :
    done (.error e) >>= f = done (.error e) := rfl
@[simp] theorem ask_bind (path : DocPath) (next : Value → Plan α) (f : α → Plan β) :
    ask path next >>= f = ask path fun value => next value >>= f := rfl
@[simp] theorem gather_bind (path : DocPath) (next : Value → Plan α) (f : α → Plan β) :
    gather path next >>= f = gather path fun value => next value >>= f := rfl
@[simp] theorem await_bind (path : DocPath) (waiting : List DocPath) (next : Value → Plan α)
    (f : α → Plan β) :
    await path waiting next >>= f = await path waiting fun value => next value >>= f := rfl
@[simp] theorem call_bind (name : String) (args : List Value) (next : Value → Plan α)
    (f : α → Plan β) : call name args next >>= f = call name args fun value => next value >>= f :=
  rfl

/-! ## Plans of expressions -/

section Expressions

variable (document : Value)

def field (key : String) : Place → Plan Place
  | .computed value => done ((value.field key).map .computed)
  | .node path =>
    match document.get? path with
    | none => fail (.noProperty key path)
    | some (.object members) =>
      match members.lookup key with
      | some _ => pure (.node (path.key key))
      | none => fail (.noProperty key path)
    | some (.formula _) => ask path fun value => done ((value.field key).map .computed)
    | some value =>
      fail (.cannotAccess (EvalError.propertyAccess key) value.typeName (some path))

def element (index : Int) : Place → Plan Place
  | .computed value => done ((value.element index).map .computed)
  | .node path =>
    match document.get? path with
    | none => fail (.noProperty (DocPath.text path) DocPath.root)
    | some (.array items) =>
      match position? index items.length with
      | some position => pure (.node (path.index position))
      | none => fail (.indexOutside index items.length path)
    | some (.formula _) => ask path fun value => done ((value.element index).map .computed)
    | some value =>
      fail (.cannotAccess (EvalError.indexAccess index) value.typeName (some path))

def select (key : Value) (place : Place) : Plan Place :=
  match key.integer?, key with
  | some index, _ => element document index place
  | none, .string key => field document key place
  | none, .number _ => fail (.indexType "non-integral number")
  | none, other => fail (.indexType other.typeName)

def load : Place → Plan Value
  | .computed value => pure value
  | .node path =>
    match document.get? path with
    | none => fail (.noProperty (DocPath.text path) DocPath.root)
    | some _ => gather path pure

def namedPlace (scope : Scope) (name : String) : Plan Place :=
  match scope.containerPath? with
  | some container => field document name (.node container)
  | none => fail (.noEnclosingObject name)

/-- The result of an operator on two operands; the right one may not be needed. -/
def binary (op : BinaryOp) (left right : Plan Value) : Plan Value :=
  if op.isShortCircuit then do
    let lhs ← left
    let decided ← done (op.requireBool lhs)
    if decided == (op == .or) then pure (.bool decided)
    else
      let rhs ← right
      let result ← done (op.requireBool rhs)
      pure (.bool result)
  else do
    let lhs ← left
    let rhs ← right
    done (op.apply lhs rhs)

variable {μ : Type}

mutual

/-- Where an expression leads. -/
def place (scope : Scope) : Expr μ → Plan Place
  | .literal _ value => pure (.computed value)
  | .ident _ name => namedPlace document scope name
  | .scope _ depth => do
    let found ← done (scope.ancestor depth)
    pure (.node found.path)
  | .root _ => pure (.node DocPath.root)
  | .field _ receiver name => do
    let base ← place scope receiver
    field document name base
  | .index _ receiver position => do
    let base ← place scope receiver
    let key ← place scope position >>= load document
    select document key base
  | .unary _ op operand => do
    let value ← place scope operand >>= load document
    let result ← done (op.apply value)
    pure (.computed result)
  | .binary _ op left right => do
    let result ← binary op (place scope left >>= load document) (place scope right >>= load document)
    pure (.computed result)
  | .call _ name args => do
    let values ← values scope args
    let result ← call name values pure
    pure (.computed result)

def values (scope : Scope) : List (Expr μ) → Plan (List Value)
  | [] => pure []
  | e :: es => do
    let value ← place scope e >>= load document
    let rest ← values scope es
    pure (value :: rest)

end

def value (scope : Scope) (e : Expr μ) : Plan Value := place document scope e >>= load document

def ofText (scope : Scope) (source : String) : Plan Value :=
  match parse source with
  | .error e => fail (.syntaxError e)
  | .ok e => value document scope e

end Expressions

/-! ## Running plans -/

section Running

variable (env : Environment) (ask : DocPath → Eval Value)

/-- The formulas inside a node that hold no value yet. -/
def pendingAt (tree : Tree) (path : DocPath) : List DocPath :=
  tree.cellsWithin (fun state => !state.isResolved) path

/-- The value of a node whose formulas have been asked for. -/
def collected (tree : Tree) (path : DocPath) : Except EvalError Value :=
  match (tree.get? path).bind Tree.toValue? with
  | some value => .ok value
  | none => .error (.unresolved path)

def collect (path : DocPath) : Eval Value := fun pass => (collected pass.tree path, pass)

/-- Asks for formulas inside a node and takes its value. -/
def settleNode (path : DocPath) (waiting : List DocPath) : Eval Value := do
  Place.askAll ask waiting
  collect path

def run : Plan α → Eval α
  | done outcome => Eval.ofExcept outcome
  | .ask path next => do
    let value ← ask path
    (next value).run
  | gather path next => fun pass =>
    (do let value ← settleNode ask path (pendingAt pass.tree path)
        (next value).run) pass
  | await path waiting next => do
    let value ← settleNode ask path waiting
    (next value).run
  | call name args next => do
    let value ← Interpreter.call env name args
    (next value).run

theorem run_done (outcome : Except EvalError α) :
    (done outcome).run env ask = Eval.ofExcept outcome := rfl

theorem run_ask (path : DocPath) (next : Value → Plan α) :
    (Plan.ask path next).run env ask = ask path >>= fun value => (next value).run env ask := rfl

theorem run_gather (path : DocPath) (next : Value → Plan α) :
    (gather path next).run env ask = fun pass =>
      (settleNode ask path (pendingAt pass.tree path) >>= fun value => (next value).run env ask)
        pass := rfl

theorem run_await (path : DocPath) (waiting : List DocPath) (next : Value → Plan α) :
    (await path waiting next).run env ask =
      settleNode ask path waiting >>= fun value => (next value).run env ask := rfl

theorem run_call (name : String) (args : List Value) (next : Value → Plan α) :
    (call name args next).run env ask =
      Interpreter.call env name args >>= fun value => (next value).run env ask := rfl

end Running

end Plan

end FormulaDoc
