import FormulaDoc.Proofs.Function.Results
import FormulaDoc.Proofs.Text.Lines

/-!
# What functions say when they fail

A built-in function that fails says so in one line, but for a date pattern: that is quoted as it is, with
whatever newlines it has.
-/
namespace FormulaDoc

open Text

namespace FunctionError

/-- The date pattern that an error quotes. -/
inductive Quotes : FunctionError → String → Prop where
  | invalid (pattern : String) : Quotes (.failed ("invalid format string `" ++ pattern ++ "`")) pattern
  | unwritable (pattern : String) :
      Quotes (.failed ("cannot format timestamp with `" ++ pattern ++ "`")) pattern

/-- An error that names arguments in one line, and says more in one line or by quoting a date pattern. -/
def Reportable : FunctionError → Prop
  | invalidArgument _ expected got => newlines expected = 0 ∧ newlines got = 0
  | failed message => newlines message = 0 ∨ ∃ pattern, Quotes (failed message) pattern
  | arity _ _ | nonFinite | formulaInResult => True

theorem newlines_of_quotes {e : FunctionError} {pattern : String} (quotes : e.Quotes pattern) :
    newlines e.message = newlines pattern := by
  cases quotes <;> dsimp only [message] <;> rw [newlines_append_of_right, newlines_append_of_left] <;>
    exact newlines_ofList _

@[simp] theorem newlines_arity (arity : Arity) : newlines arity.text = 0 := by
  cases arity with
  | exact n => exact newlines_natural n
  | atLeast n =>
    rw [Arity.text, newlines_append_of_right (newlines_natural n)]
    exact newlines_ofList _
  | range least most =>
    rw [Arity.text, newlines_append_of_right (newlines_natural most),
      newlines_append_of_left (newlines_natural least)]
    exact newlines_ofList _

theorem Reportable.tidy {e : FunctionError} (h : e.Reportable) : Text.Tidy e.Quotes e.message := by
  refine ⟨fun _ => newlines_of_quotes, fun unquoted => ?_⟩
  cases e with
  | arity expected got =>
    dsimp only [message]
    simp only [newlines_append_eq_zero, and_assoc]
    exact ⟨newlines_ofList _, newlines_arity _, newlines_ofList _, newlines_natural _⟩
  | invalidArgument position expected got =>
    dsimp only [message]
    simp only [newlines_append_eq_zero, and_assoc]
    exact ⟨newlines_ofList _, newlines_natural _, newlines_ofList _, h.1, newlines_ofList _, h.2⟩
  | nonFinite | formulaInResult => exact newlines_ofList _
  | failed message =>
    rcases h with none | ⟨pattern, quotes⟩
    · exact none
    · exact absurd quotes (unquoted pattern)

end FunctionError

@[simp] theorem Value.newlines_typeName (value : Value) : newlines value.typeName = 0 := by
  cases value <;> exact newlines_ofList _

/-- An outcome that is reportable if it is an error. -/
def ReportableOutcome {α : Type} (outcome : Except FunctionError α) : Prop :=
  ∀ e, outcome = .error e → e.Reportable

section Outcomes

variable {α β : Type}

theorem reportableOutcome_ok (a : α) : ReportableOutcome (.ok a) := nofun

theorem reportableOutcome_error {e : FunctionError} (h : e.Reportable) :
    ReportableOutcome (.error e : Except FunctionError α) := by
  rintro _ ⟨⟩
  exact h

theorem reportableOutcome_bind {first : Except FunctionError α} {next : α → Except FunctionError β}
    (h : ReportableOutcome first) (rest : ∀ a, ReportableOutcome (next a)) :
    ReportableOutcome (first >>= next) := by
  cases first with
  | error e => exact reportableOutcome_error (h e rfl)
  | ok a => exact rest a

end Outcomes

namespace Function

theorem reportable_wrongArgument (position : Nat) {expected : String} (plain : newlines expected = 0)
    (got : Option Value) : (wrongArgument position expected got).Reportable := by
  refine ⟨plain, ?_⟩
  cases got with
  | none => exact newlines_ofList _
  | some value => exact value.newlines_typeName

theorem reportable_numberArgument (args : List Value) (position : Nat) :
    ReportableOutcome (numberArgument args position) := by
  rw [numberArgument]
  split
  · exact reportableOutcome_ok _
  · exact reportableOutcome_error (reportable_wrongArgument _ (newlines_ofList _) _)

theorem reportable_stringArgument (args : List Value) (position : Nat) :
    ReportableOutcome (stringArgument args position) := by
  rw [stringArgument]
  split
  · exact reportableOutcome_ok _
  · exact reportableOutcome_error (reportable_wrongArgument _ (newlines_ofList _) _)

theorem reportable_finiteResult (n : Float) : ReportableOutcome (finiteResult n) := by
  rw [finiteResult]
  split
  · exact reportableOutcome_ok _
  · exact reportableOutcome_error trivial

theorem reportable_combineFrom (pick : Float → Float → Float) (position : Nat) (found : Float)
    (args : List Value) : ReportableOutcome (combineFrom pick position found args) := by
  fun_induction combineFrom pick position found args with
  | case1 => exact reportableOutcome_ok _
  | case2 position found n rest ih => exact ih
  | case3 => exact reportableOutcome_error (reportable_wrongArgument _ (newlines_ofList _) _)

theorem reportable_formatTimestamp (timestamp : Float) (pattern : String) :
    ReportableOutcome (formatTimestamp timestamp pattern) := by
  rw [formatTimestamp]
  split
  · split
    · refine reportableOutcome_error (.inl ?_)
      simp only [newlines_append_eq_zero, and_assoc]
      exact ⟨newlines_ofList _, newlines_decimal _, newlines_ofList _⟩
    · split
      · exact reportableOutcome_error (.inr ⟨pattern, .invalid pattern⟩)
      · split
        · exact reportableOutcome_error (.inr ⟨pattern, .unwritable pattern⟩)
        · exact reportableOutcome_ok _
  · exact reportableOutcome_error trivial

/-- Whether a function fails with reportable errors only. -/
def Reports (f : Function) : Prop := ∀ args context, ReportableOutcome (f.body args context)

theorem reports_ofNumber {name : String} {f : Float → Except FunctionError Value}
    (h : ∀ n, ReportableOutcome (f n)) : (ofNumber name f).Reports :=
  fun args _ => reportableOutcome_bind (reportable_numberArgument args 0) h

theorem reports_whole (name : String) (f : Float → Float) :
    (ofNumber name fun n => .ok (.number (f n))).Reports :=
  reports_ofNumber fun _ => reportableOutcome_ok _

theorem reports_ofText (name : String) (f : List Char → List Char) : (ofText name f).Reports := by
  intro args context
  have first := reportable_stringArgument args 0
  simp only [ofText]
  cases found : stringArgument args 0 with
  | error e => exact reportableOutcome_error (first e found)
  | ok s => exact reportableOutcome_ok _

theorem reports_pow : pow.Reports :=
  fun args _ => reportableOutcome_bind (reportable_numberArgument args 0) fun _ =>
    reportableOutcome_bind (reportable_numberArgument args 1) fun _ => reportable_finiteResult _

theorem reports_log10 : log10.Reports := reports_ofNumber fun _ => reportable_finiteResult _

theorem reports_extremum (name : String) (pick : Float → Float → Float) :
    (extremum name pick).Reports :=
  fun args _ => reportableOutcome_bind (reportable_numberArgument args 0) fun first =>
    reportableOutcome_bind (reportable_combineFrom pick 1 first _) fun _ => reportable_finiteResult _

theorem reports_formatter (name pattern : String) : (formatter name pattern).Reports := by
  intro args context
  refine reportableOutcome_bind (reportable_numberArgument args 0) fun timestamp => ?_
  split
  · exact reportableOutcome_bind (reportable_stringArgument args 1) fun _ =>
      reportable_formatTimestamp _ _
  · exact reportableOutcome_bind (reportableOutcome_ok _) fun _ => reportable_formatTimestamp _ _

theorem reports_len : len.Reports := by
  intro args context
  simp only [len]
  split
  · exact reportableOutcome_ok _
  · exact reportableOutcome_error (reportable_wrongArgument _ (newlines_ofList _) _)

theorem reports_of_mem_builtins {f : Function} (mem : f ∈ Registry.builtins) : f.Reports := by
  have fine (value : Value) : ReportableOutcome (.ok value) := reportableOutcome_ok value
  have all : ∀ f ∈ Registry.builtins, f.Reports := by
    simp only [Registry.builtins, List.forall_mem_cons, List.not_mem_nil, false_implies,
      implies_true, and_true]
    exact ⟨fun _ _ => fine _, fun _ _ => fine _, reports_pow, reports_log10, reports_extremum _ _,
      reports_extremum _ _, reports_whole _ _, reports_whole _ _, reports_whole _ _, reports_whole _ _,
      reports_ofText _ _, reports_ofText _ _, reports_ofText _ _, reports_ofText _ _, reports_len,
      fun _ _ => fine _, reports_formatter _ _, reports_formatter _ _, reports_formatter _ _⟩
  exact all f mem

/-- A call may also fail for the number of its arguments. -/
theorem Reports.call {f : Function} (h : f.Reports) (args : List Value) (context : CallContext) :
    ReportableOutcome (f.call args context) := by
  rw [Function.call]
  split
  · exact h args context
  · exact reportableOutcome_error trivial

end Function

end FormulaDoc
