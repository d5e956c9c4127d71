import FormulaDoc.Function.Builtin

/-!
# What built-in functions return

Every built-in function returns a number or a text, so that no container and no formula comes into an
evaluation through them.
-/
namespace FormulaDoc

theorem Registry.mem_of_lookup? {registry : Registry} {name : String} {f : Function}
    (h : registry.lookup? name = some f) : f ∈ registry := List.mem_of_find?_eq_some h

/-- An outcome that is a scalar if it is a value at all. -/
def ScalarOutcome (outcome : Except FunctionError Value) : Prop :=
  ∀ value, outcome = .ok value → value.isScalar

theorem scalarOutcome_error (e : FunctionError) : ScalarOutcome (.error e) := by
  intro value h
  cases h

theorem scalarOutcome_ok {value : Value} (scalar : value.isScalar) : ScalarOutcome (.ok value) := by
  intro value' h
  cases h
  exact scalar

theorem scalarOutcome_bind {α : Type} {first : Except FunctionError α}
    {next : α → Except FunctionError Value} (h : ∀ a, ScalarOutcome (next a)) :
    ScalarOutcome (first >>= next) := by
  cases first with
  | error e => exact scalarOutcome_error e
  | ok a => exact h a

namespace Function

theorem scalarOutcome_finiteResult (n : Float) : ScalarOutcome (finiteResult n) := by
  rw [finiteResult]
  split
  · exact scalarOutcome_ok rfl
  · exact scalarOutcome_error _

theorem scalarOutcome_formatTimestamp (timestamp : Float) (pattern : String) :
    ScalarOutcome (formatTimestamp timestamp pattern) := by
  rw [formatTimestamp]
  split
  · split
    · exact scalarOutcome_error _
    · split
      · exact scalarOutcome_error _
      · split
        · exact scalarOutcome_error _
        · exact scalarOutcome_ok rfl
  · exact scalarOutcome_error _

/-- Whether the values that a function returns are scalars. -/
def ReturnsScalars (f : Function) : Prop := ∀ args context, ScalarOutcome (f.body args context)

theorem returnsScalars_ofNumber {name : String} {f : Float → Except FunctionError Value}
    (h : ∀ n, ScalarOutcome (f n)) : (ofNumber name f).ReturnsScalars :=
  fun _ _ => scalarOutcome_bind h

theorem returnsScalars_ofText (name : String) (f : List Char → List Char) :
    (ofText name f).ReturnsScalars := by
  intro args context
  simp only [ofText]
  cases stringArgument args 0 with
  | error e => exact scalarOutcome_error e
  | ok s => exact scalarOutcome_ok rfl

theorem returnsScalars_whole (name : String) (f : Float → Float) :
    (ofNumber name fun n => .ok (.number (f n))).ReturnsScalars :=
  returnsScalars_ofNumber fun _ => scalarOutcome_ok rfl

theorem returnsScalars_pow : pow.ReturnsScalars :=
  fun _ _ => scalarOutcome_bind fun _ => scalarOutcome_bind fun _ => scalarOutcome_finiteResult _

theorem returnsScalars_log10 : log10.ReturnsScalars :=
  returnsScalars_ofNumber fun _ => scalarOutcome_finiteResult _

theorem returnsScalars_extremum (name : String) (pick : Float → Float → Float) :
    (extremum name pick).ReturnsScalars :=
  fun _ _ => scalarOutcome_bind fun _ => scalarOutcome_bind fun _ => scalarOutcome_finiteResult _

theorem returnsScalars_formatter (name pattern : String) :
    (formatter name pattern).ReturnsScalars := by
  intro args context
  refine scalarOutcome_bind fun timestamp => ?_
  split <;> exact scalarOutcome_bind fun _ => scalarOutcome_formatTimestamp _ _

theorem returnsScalars_len : len.ReturnsScalars := by
  intro args context
  simp only [len]
  split
  · exact scalarOutcome_ok rfl
  · exact scalarOutcome_error _

theorem returnsScalars_of_mem_builtins {f : Function} (mem : f ∈ Registry.builtins) :
    f.ReturnsScalars := by
  have text (s : String) : ScalarOutcome (.ok (.string s)) := scalarOutcome_ok rfl
  have number (n : Float) : ScalarOutcome (.ok (.number n)) := scalarOutcome_ok rfl
  have all : ∀ f ∈ Registry.builtins, f.ReturnsScalars := by
    simp only [Registry.builtins, List.forall_mem_cons, List.not_mem_nil, false_implies,
      implies_true, and_true]
    exact ⟨fun _ _ => text _, fun _ _ => text _, returnsScalars_pow, returnsScalars_log10,
      returnsScalars_extremum _ _, returnsScalars_extremum _ _, returnsScalars_whole _ _,
      returnsScalars_whole _ _, returnsScalars_whole _ _, returnsScalars_whole _ _,
      returnsScalars_ofText _ _, returnsScalars_ofText _ _, returnsScalars_ofText _ _,
      returnsScalars_ofText _ _, returnsScalars_len, fun _ _ => number _,
      returnsScalars_formatter _ _, returnsScalars_formatter _ _, returnsScalars_formatter _ _⟩
  exact all f mem

end Function

end FormulaDoc
