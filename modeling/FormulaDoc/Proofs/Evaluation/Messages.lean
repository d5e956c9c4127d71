import FormulaDoc.Evaluation.EvalError
import FormulaDoc.Proofs.Formula.Messages
import FormulaDoc.Proofs.Function.Messages

/-!
# What errors say

The message of an error is one line, but for a key or a date pattern that it quotes: those are quoted as
they are, with whatever newlines they have. The keys of a path, in contrast, are written with escapes.
-/
namespace FormulaDoc

open Text

/-! ## Paths -/

@[simp] theorem Step.newlines_text (first : Bool) (step : Step) : newlines (step.text first) = 0 := by
  have bracketed {text : String} (none : newlines text = 0) : newlines ("[" ++ text ++ "]") = 0 := by
    rw [newlines_append_of_right, newlines_append_of_right none] <;> exact newlines_ofList _
  cases step with
  | key name =>
    rw [text]
    split
    · rename_i isWord
      have plain := newlines_of_isWord isWord
      split
      · exact plain
      · rw [newlines_append_of_right plain]
        exact newlines_ofList _
    · exact bracketed (newlines_visibleQuoted name)
  | index position => exact bracketed (newlines_natural position)

@[simp] theorem DocPath.newlines_text (path : DocPath) : newlines path.text = 0 := by
  have tail (steps : List Step) : newlines (tailText steps) = 0 := by
    induction steps with
    | nil => exact newlines_ofList []
    | cons step rest ih => rw [tailText, newlines_append, step.newlines_text, ih]
  cases path with
  | nil => exact newlines_ofList _
  | cons step rest => rw [text, newlines_append, step.newlines_text, tail]

/-! ## Errors -/

theorem BinaryOp.newlines_symbol (op : BinaryOp) : newlines op.symbol = 0 := by
  cases op <;> exact newlines_ofList _

theorem UnaryOp.newlines_symbol (op : UnaryOp) : newlines op.symbol = 0 := by
  cases op <;> exact newlines_ofList _

theorem FaultKind.newlines_name (kind : FaultKind) : newlines kind.name = 0 := by
  cases kind <;> exact newlines_ofList _

namespace EvalError

/-- The key or the date pattern that an error quotes. -/
inductive Quotes : EvalError → String → Prop where
  | property (key : String) (container : DocPath) : Quotes (noProperty key container) key
  | computedProperty (key : String) : Quotes (noComputedProperty key) key
  | access (key type : String) (place : Option DocPath) :
      Quotes (cannotAccess (propertyAccess key) type place) key
  | function {e : FunctionError} {pattern : String} (name : String) (quotes : e.Quotes pattern) :
      Quotes (functionFailed name e) pattern

/-- An error that says in one line what it does not quote. -/
def Reportable : EvalError → Prop
  | syntaxError e => newlines e.text = 0
  | cannotAccess accessor type _ =>
    (newlines accessor = 0 ∨ ∃ key, accessor = propertyAccess key) ∧ newlines type = 0
  | noEnclosingObject name | unknownFunction name => newlines name = 0
  | operandTypes _ left right => newlines left = 0 ∧ newlines right = 0
  | logicalOperand _ got | unaryOperand _ got | indexType got => newlines got = 0
  | functionFailed name e => newlines name = 0 ∧ e.Reportable
  | other _ message => newlines message = 0
  | noProperty _ _ | indexOutside _ _ _ | noComputedProperty _ | computedIndexOutside _ _
  | aboveRoot _ | unresolved _ | cyclicReference _ | dependencyFailed _ _ => True

@[simp] theorem newlines_superChain (depth : Nat) : newlines (superChain depth) = 0 := by
  rw [superChain]
  induction depth with
  | zero => exact newlines_ofList []
  | succ depth ih =>
    cases depth with
    | zero => exact newlines_ofList _
    | succ depth =>
      rw [List.replicate_succ] at ih
      rw [List.replicate_succ, List.replicate_succ, String.intercalate_cons_cons,
        newlines_append_of_right ih, newlines_append_of_right] <;> exact newlines_ofList _

theorem newlines_propertyAccess (key : String) : newlines (propertyAccess key) = newlines key := by
  rw [propertyAccess, newlines_append_of_right, newlines_append_of_left] <;> exact newlines_ofList _

theorem newlines_indexAccess (index : Int) : newlines (indexAccess index) = 0 := by
  rw [indexAccess, newlines_append_of_right (newlines_integer index)]
  exact newlines_ofList _

theorem newlines_cannotAccess {type : String} (plain : newlines type = 0) (accessor : String)
    (place : Option DocPath) :
    newlines (cannotAccess accessor type place).message = newlines accessor := by
  cases place with
  | none =>
    dsimp only [message]
    rw [newlines_append_of_right plain, newlines_append_of_right, newlines_append_of_left] <;>
      exact newlines_ofList _
  | some place =>
    dsimp only [message]
    rw [newlines_append_of_right, newlines_append_of_right place.newlines_text, newlines_append_of_right,
      newlines_append_of_right plain, newlines_append_of_right, newlines_append_of_left] <;>
      exact newlines_ofList _

theorem newlines_functionFailed {name : String} (plain : newlines name = 0) (e : FunctionError) :
    newlines (functionFailed name e).message = newlines e.message := by
  dsimp only [message]
  rw [String.append_assoc, newlines_append_of_left plain, newlines_append_of_left]
  exact newlines_ofList _

variable {e : EvalError}

theorem Reportable.newlines_of_quotes (h : e.Reportable) {raw : String} (quotes : e.Quotes raw) :
    newlines e.message = newlines raw := by
  cases quotes with
  | property key container =>
    dsimp only [message]
    rw [newlines_append_of_right, newlines_append_of_right container.newlines_text, newlines_append_of_right,
      newlines_append_of_left] <;> exact newlines_ofList _
  | computedProperty key =>
    dsimp only [message]
    rw [newlines_append_of_right, newlines_append_of_left] <;> exact newlines_ofList _
  | access key type place => rw [newlines_cannotAccess h.2, newlines_propertyAccess]
  | function name quotes =>
    rw [newlines_functionFailed h.1, FunctionError.newlines_of_quotes quotes]

theorem Reportable.newlines_of_not_quotes (h : e.Reportable) (unquoted : ∀ raw, ¬ e.Quotes raw) :
    newlines e.message = 0 := by
  cases e with
  | syntaxError | other => exact h
  | noProperty key container => exact absurd (.property key container) (unquoted key)
  | noComputedProperty key => exact absurd (.computedProperty key) (unquoted key)
  | cannotAccess accessor type place =>
    rw [newlines_cannotAccess h.2]
    rcases h.1 with plain | ⟨key, rfl⟩
    · exact plain
    · exact absurd (.access key type place) (unquoted key)
  | functionFailed name inner =>
    rw [newlines_functionFailed h.1]
    exact h.2.tidy.unquoted fun pattern quotes => unquoted pattern (.function name quotes)
  | indexOutside index length container =>
    dsimp only [message]
    simp only [newlines_append_eq_zero, and_assoc]
    exact ⟨newlines_ofList _, newlines_integer _, newlines_ofList _, container.newlines_text,
      newlines_ofList _, newlines_natural _, newlines_ofList _⟩
  | computedIndexOutside index length =>
    dsimp only [message]
    simp only [newlines_append_eq_zero, and_assoc]
    exact ⟨newlines_ofList _, newlines_integer _, newlines_ofList _, newlines_natural _,
      newlines_ofList _⟩
  | aboveRoot depth =>
    dsimp only [message]
    simp only [newlines_append_eq_zero, and_assoc]
    exact ⟨newlines_ofList _, newlines_superChain _, newlines_ofList _⟩
  | noEnclosingObject name =>
    dsimp only [message]
    simp only [newlines_append_eq_zero, and_assoc]
    exact ⟨newlines_ofList _, h, newlines_ofList _⟩
  | unresolved path =>
    dsimp only [message]
    simp only [newlines_append_eq_zero, and_assoc]
    exact ⟨newlines_ofList _, path.newlines_text, newlines_ofList _⟩
  | operandTypes op left right =>
    dsimp only [message]
    simp only [newlines_append_eq_zero, and_assoc]
    exact ⟨newlines_ofList _, op.newlines_symbol, newlines_ofList _, h.1, newlines_ofList _, h.2⟩
  | logicalOperand op got =>
    dsimp only [message]
    simp only [newlines_append_eq_zero, and_assoc]
    exact ⟨newlines_ofList _, op.newlines_symbol, newlines_ofList _, h⟩
  | unaryOperand op got =>
    dsimp only [message]
    simp only [newlines_append_eq_zero, and_assoc]
    exact ⟨newlines_ofList _, op.newlines_symbol, newlines_ofList _, h⟩
  | indexType got =>
    dsimp only [message]
    rw [newlines_append_of_right h]
    exact newlines_ofList _
  | unknownFunction name =>
    dsimp only [message]
    simp only [newlines_append_eq_zero, and_assoc]
    exact ⟨newlines_ofList _, h, newlines_ofList _⟩
  | cyclicReference path =>
    dsimp only [message]
    simp only [newlines_append_eq_zero, and_assoc]
    exact ⟨newlines_ofList _, path.newlines_text, newlines_ofList _⟩
  | dependencyFailed path kind =>
    dsimp only [message]
    simp only [newlines_append_eq_zero, and_assoc]
    exact ⟨newlines_ofList _, path.newlines_text, newlines_ofList _, kind.newlines_name,
      newlines_ofList _⟩

theorem Reportable.tidy (h : e.Reportable) : Text.Tidy e.Quotes e.message :=
  ⟨fun _ => h.newlines_of_quotes, h.newlines_of_not_quotes⟩

end EvalError

end FormulaDoc
