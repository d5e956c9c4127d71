import FormulaDoc.Text.Quoted
import FormulaDoc.Text.Word

/-!
# Paths into documents

A path leads from the root of a document to one of its nodes, by object keys and array positions. Its
text is `$` for the root and otherwise reads like `a.b[2]["odd key"]`.
-/
namespace FormulaDoc

inductive Step where
  | key (name : String)
  | index (position : Nat)
  deriving DecidableEq, Repr, Inhabited

/-- The steps from the root to a node. The empty path is the root. -/
abbrev DocPath := List Step

/-- The text of a step: a word as it is, after a dot unless it comes first, and all else in brackets. -/
def Step.text (first : Bool) : Step → String
  | .key name =>
    if Text.isWord name.toList then (if first then name else "." ++ name)
    else "[" ++ Text.visibleQuoted name ++ "]"
  | .index position => "[" ++ toString position ++ "]"

namespace DocPath

def root : DocPath := []

def child (path : DocPath) (step : Step) : DocPath := path ++ [step]

def key (path : DocPath) (name : String) : DocPath := path.child (.key name)

def index (path : DocPath) (position : Nat) : DocPath := path.child (.index position)

def parent? : DocPath → Option DocPath
  | [] => none
  | path => some path.dropLast

def startsWith (path other : DocPath) : Bool := other.isPrefixOf path

def tailText : List Step → String
  | [] => ""
  | step :: rest => step.text false ++ tailText rest

def text : DocPath → String
  | [] => "$"
  | step :: rest => step.text true ++ tailText rest

@[simp] theorem parent?_child (path : DocPath) (step : Step) :
    (path.child step).parent? = some path := by
  cases path with
  | nil => rfl
  | cons first rest =>
    show some ((first :: rest) ++ [step]).dropLast = _
    rw [List.dropLast_concat]

@[simp] theorem text_root : root.text = "$" := rfl

end DocPath

end FormulaDoc
