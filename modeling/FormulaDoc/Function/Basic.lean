import FormulaDoc.Document.Value

/-!
# Functions

A function has a name, the counts of arguments that it takes, and a body that maps evaluated arguments
to a value or a reason why there is none. The count is checked before the body runs.
-/
namespace FormulaDoc

/-- The counts of arguments that a function takes; the bounds of a range are inside. -/
inductive Arity where
  | exact (count : Nat)
  | atLeast (count : Nat)
  | range (least most : Nat)
  deriving DecidableEq, Repr

namespace Arity

def accepts (count : Nat) : Arity → Bool
  | exact n => count == n
  | atLeast n => decide (n ≤ count)
  | range least most => decide (least ≤ count ∧ count ≤ most)

def text : Arity → String
  | exact n => toString n
  | atLeast n => "at least " ++ toString n
  | range least most => toString least ++ " to " ++ toString most

end Arity

inductive FunctionError where
  | arity (expected : Arity) (got : Nat)
  /-- An argument is of the wrong kind; positions count from one. -/
  | invalidArgument (position : Nat) (expected got : String)
  /-- The result would be infinite or no number. -/
  | nonFinite
  /-- The result holds a formula, which must not reach a document. -/
  | formulaInResult
  | failed (message : String)
  deriving DecidableEq, Repr

def FunctionError.message : FunctionError → String
  | arity expected got => "expected " ++ expected.text ++ " argument(s), got " ++ toString got
  | invalidArgument position expected got =>
    "argument " ++ toString position ++ " must be " ++ expected ++ ", got " ++ got
  | nonFinite => "result is not a finite number"
  | formulaInResult => "result contains a formula"
  | failed message => message

structure CallContext where
  /-- The time of the evaluation in seconds, the same for all its calls. -/
  now : Float
  /-- A number drawn anew for each call. -/
  draw : Nat

structure Function where
  name : String
  arity : Arity
  body : List Value → CallContext → Except FunctionError Value

namespace Function

def call (f : Function) (args : List Value) (context : CallContext) : Except FunctionError Value :=
  if f.arity.accepts args.length then f.body args context
  else .error (.arity f.arity args.length)

/-- Whether the result depends on the arguments and the time alone. -/
def Pure (f : Function) : Prop :=
  ∀ args now draw draw', f.body args ⟨now, draw⟩ = f.body args ⟨now, draw'⟩

theorem Pure.call_eq {f : Function} (h : f.Pure) (args : List Value) (now : Float)
    (draw draw' : Nat) : f.call args ⟨now, draw⟩ = f.call args ⟨now, draw'⟩ := by
  simp only [Function.call, h args now draw draw']

end Function

/-- Functions by name. No two of them have the same name. -/
abbrev Registry := List Function

namespace Registry

/-- Adds a function in place of any with its name. -/
def register (registry : Registry) (f : Function) : Registry :=
  f :: registry.filter (·.name != f.name)

def lookup? (registry : Registry) (name : String) : Option Function :=
  registry.find? (·.name == name)

def contains (registry : Registry) (name : String) : Bool := registry.any (·.name == name)

def names (registry : Registry) : List String :=
  (registry.map (·.name)).mergeSort fun a b => decide (a ≤ b)

theorem lookup?_name {registry : Registry} {name : String} {f : Function}
    (h : registry.lookup? name = some f) : f.name = name := by
  simpa using List.find?_some h

theorem lookup?_register (registry : Registry) (f : Function) (name : String) :
    (registry.register f).lookup? name = if f.name = name then some f else registry.lookup? name := by
  unfold lookup? register
  by_cases h : f.name = name
  · simp [h]
  · simp only [List.find?_cons, List.find?_filter, h, ↓reduceIte, beq_eq_false_iff_ne.mpr h]
    congr 1
    funext g
    by_cases hg : g.name = name <;> simp [hg, Ne.symm h]

end Registry

namespace Function

/-- The reason that an argument is of the wrong kind, when positions count from zero. -/
def wrongArgument (position : Nat) (expected : String) (got : Option Value) : FunctionError :=
  .invalidArgument (position + 1) expected (match got with
    | some value => value.typeName
    | none => "nothing")

def numberArgument (args : List Value) (position : Nat) : Except FunctionError Float :=
  match args[position]? with
  | some (.number n) => .ok n
  | got => .error (wrongArgument position "a number" got)

def stringArgument (args : List Value) (position : Nat) : Except FunctionError String :=
  match args[position]? with
  | some (.string s) => .ok s
  | got => .error (wrongArgument position "a string" got)

def finiteResult (n : Float) : Except FunctionError Value :=
  if Binary64.isFinite n then .ok (.number n) else .error .nonFinite

def ofNumber (name : String) (f : Float → Except FunctionError Value) : Function where
  name := name
  arity := .exact 1
  body args _ := numberArgument args 0 >>= f

def ofText (name : String) (f : List Char → List Char) : Function where
  name := name
  arity := .exact 1
  body args _ := (stringArgument args 0).map fun s => .string (String.ofList (f s.toList))

end Function

end FormulaDoc
