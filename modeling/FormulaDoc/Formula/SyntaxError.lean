import FormulaDoc.Fault.Kind
import FormulaDoc.Formula.Lexer

/-!
# Syntax errors

Why a text is no formula, and where. The kinds group the causes; the messages tell them apart.
-/
namespace FormulaDoc

inductive SyntaxErrorKind where
  | unexpectedToken
  | expectedExpression
  | unmatchedDelimiter
  | malformedPath
  | invalidToken
  | unterminatedString
  | trailingInput
  deriving DecidableEq, Repr

def SyntaxErrorKind.code : SyntaxErrorKind → FaultCode
  | unexpectedToken | trailingInput => .E1001
  | expectedExpression => .E1002
  | unmatchedDelimiter => .E1003
  | malformedPath => .E1004
  | invalidToken => .E1005
  | unterminatedString => .E1006

theorem SyntaxErrorKind.isParseCode_code (kind : SyntaxErrorKind) : kind.code.isParseCode = true := by
  cases kind <;> rfl

inductive SyntaxCause where
  /-- A piece of the text is no token. -/
  | lexical (cause : LexCause)
  /-- The text holds no token at all. -/
  | emptyFormula
  /-- The text ends where an operand is due. -/
  | missingOperand
  | emptyIndex
  | strayCloser (closer : Sign)
  | unclosed (closer : Sign)
  /-- Something else stands where a closing sign is due. -/
  | wrongCloser (closer : Sign) (opener : Span) (found : TokenKind)
  /-- A token that starts no operand. -/
  | noOperand (found : TokenKind)
  | noFilterName (found : TokenKind)
  /-- An anchor of a path after a dot. -/
  | anchorAfterDot (found : TokenKind)
  | noPropertyName (found : TokenKind)
  | trailing (found : TokenKind)
  deriving DecidableEq

structure SyntaxError where
  cause : SyntaxCause
  span : Span
  deriving DecidableEq

namespace SyntaxCause

def kind : SyntaxCause → SyntaxErrorKind
  | lexical .unterminatedString => .unterminatedString
  | lexical _ => .invalidToken
  | emptyFormula | missingOperand | emptyIndex => .expectedExpression
  | strayCloser _ | unclosed _ | wrongCloser _ _ _ => .unmatchedDelimiter
  | noOperand _ | noFilterName _ => .unexpectedToken
  | anchorAfterDot _ | noPropertyName _ => .malformedPath
  | trailing _ => .trailingInput

def message : SyntaxCause → String
  | lexical cause => cause.message
  | emptyFormula => "empty expression"
  | missingOperand => "expected expression, found end of expression"
  | emptyIndex => "expected index expression inside `[]`"
  | strayCloser closer => "unmatched " ++ (TokenKind.sign closer).name
  | unclosed closer => "unclosed delimiter, expected " ++ (TokenKind.sign closer).name
  | wrongCloser closer opener found =>
    "expected " ++ (TokenKind.sign closer).name ++ " to close delimiter at " ++ opener.text ++
      ", found " ++ found.text
  | noOperand found => "expected expression, found " ++ found.text
  | noFilterName found => "expected filter name after `|`, found " ++ found.text
  | anchorAfterDot found => found.name ++ " can only appear at the start of a path"
  | noPropertyName found => "expected property name after `.`, found " ++ found.text
  | trailing found => "unexpected " ++ found.text ++ " after complete expression"

end SyntaxCause

namespace SyntaxError

def kind (e : SyntaxError) : SyntaxErrorKind := e.cause.kind

def code (e : SyntaxError) : FaultCode := e.kind.code

def message (e : SyntaxError) : String := e.cause.message

def text (e : SyntaxError) : String := e.message ++ " at " ++ e.span.text

def ofLexError (e : LexError) : SyntaxError := ⟨.lexical e.cause, e.span⟩

end SyntaxError

end FormulaDoc
