/-!
# Kinds and codes of faults

A fault has a kind, and a code that is stable and may be more specific than the kind.
-/
namespace FormulaDoc

inductive FaultKind where
  /-- The text is no formula. -/
  | parse
  /-- A name or path leads nowhere. -/
  | reference
  /-- An operator got operands that it does not take. -/
  | type
  /-- A call to a name that no function has. -/
  | unknownFunction
  /-- A function refused its arguments or failed. -/
  | function
  /-- A formula needs its own value. -/
  | cyclicReference
  deriving DecidableEq, Repr

/-- The codes of faults: those that start with one belong to the text of a formula, those that start
with two to its evaluation. -/
inductive FaultCode where
  | E1001 | E1002 | E1003 | E1004 | E1005 | E1006
  | E2001 | E2002 | E2003 | E2004 | E2005
  deriving DecidableEq, Repr

namespace FaultCode

def all : List FaultCode :=
  [E1001, E1002, E1003, E1004, E1005, E1006, E2001, E2002, E2003, E2004, E2005]

def text : FaultCode → String
  | E1001 => "E1001"
  | E1002 => "E1002"
  | E1003 => "E1003"
  | E1004 => "E1004"
  | E1005 => "E1005"
  | E1006 => "E1006"
  | E2001 => "E2001"
  | E2002 => "E2002"
  | E2003 => "E2003"
  | E2004 => "E2004"
  | E2005 => "E2005"

def description : FaultCode → String
  | E1001 => "unexpected token"
  | E1002 => "expected expression"
  | E1003 => "unclosed delimiter"
  | E1004 => "malformed path"
  | E1005 => "invalid token"
  | E1006 => "unterminated string literal"
  | E2001 => "unresolvable reference"
  | E2002 => "type mismatch"
  | E2003 => "unknown function"
  | E2004 => "function error"
  | E2005 => "cyclic reference"

def isParseCode : FaultCode → Bool
  | E1001 | E1002 | E1003 | E1004 | E1005 | E1006 => true
  | _ => false

theorem mem_all (code : FaultCode) : code ∈ all := by cases code <;> decide

end FaultCode

namespace FaultKind

def all : List FaultKind := [parse, reference, type, unknownFunction, function, cyclicReference]

def name : FaultKind → String
  | parse => "ParseError"
  | reference => "ReferenceError"
  | type => "TypeError"
  | unknownFunction => "UnknownFunction"
  | function => "FunctionError"
  | cyclicReference => "CyclicReference"

/-- The code of a kind where none is more specific. -/
def code : FaultKind → FaultCode
  | parse => .E1001
  | reference => .E2001
  | type => .E2002
  | unknownFunction => .E2003
  | function => .E2004
  | cyclicReference => .E2005

theorem mem_all (kind : FaultKind) : kind ∈ all := by cases kind <;> decide

/-- The code of a kind belongs to the text of a formula exactly for the kind that does. -/
theorem isParseCode_code (kind : FaultKind) : kind.code.isParseCode = decide (kind = parse) := by
  cases kind <;> rfl

end FaultKind

end FormulaDoc
