import FormulaDoc.Document.Path
import FormulaDoc.Fault.Kind

/-!
# Reports

A report lists the faults of one evaluation in the order of their discovery. A failure is a report
that is not empty; its text has one line for each fault.
-/
namespace FormulaDoc

structure Fault where
  path : DocPath
  kind : FaultKind
  code : FaultCode
  message : String
  deriving DecidableEq, Repr

def Fault.ofKind (path : DocPath) (kind : FaultKind) (message : String) : Fault :=
  ⟨path, kind, kind.code, message⟩

def Fault.text (fault : Fault) : String :=
  fault.path.text ++ ": [" ++ fault.code.text ++ "] " ++ fault.message

/-- Faults in the order of their discovery. -/
abbrev Report := List Fault

/-- The faults of a failed evaluation, at least one. -/
structure Failure where
  faults : List Fault
  faults_ne_nil : faults ≠ []
  deriving DecidableEq

namespace Report

def record (report : Report) (fault : Fault) : Report := report ++ [fault]

def hasKind (report : Report) (kind : FaultKind) : Bool := report.any (·.kind == kind)

def failure? (report : Report) : Option Failure :=
  match report with
  | [] => none
  | fault :: rest => some ⟨fault :: rest, List.cons_ne_nil _ _⟩

/-- The failure that ends with a fault, after everything already there. -/
def failWith (report : Report) (fault : Fault) : Failure :=
  ⟨report ++ [fault], by simp⟩

theorem failure?_eq_none_iff {report : Report} : report.failure? = none ↔ report = [] := by
  cases report <;> simp [failure?]

end Report

namespace Failure

def single (fault : Fault) : Failure := ⟨[fault], List.cons_ne_nil _ _⟩

def first (failure : Failure) : Fault := failure.faults.head failure.faults_ne_nil

def kinds (failure : Failure) : List FaultKind := failure.faults.map (·.kind)

def text (failure : Failure) : String :=
  String.intercalate "\n" (failure.faults.map Fault.text)

end Failure

end FormulaDoc
