import FormulaDoc.Formula.Operator
import FormulaDoc.Formula.Span
import FormulaDoc.Number.Decimal
import FormulaDoc.Text.Quoted

/-!
# Tokens

The pieces that a formula's text falls into: literals, names, reserved words and signs.
-/
namespace FormulaDoc

inductive Keyword where
  | true | false | null
  | and | or | not
  | this | super
  deriving DecidableEq, Repr

inductive Sign where
  | dollar
  | plus | minus | star | slash | percent | tilde
  | equal | notEqual | less | lessEqual | greater | greaterEqual
  | both | either | bang
  | openParen | closeParen | openBracket | closeBracket
  | comma | dot | pipe
  deriving DecidableEq, Repr

/-- What a token is. The end of the text counts as a token of its own. -/
inductive TokenKind where
  | number (n : Float)
  | string (s : String)
  | ident (name : String)
  | word (w : Keyword)
  | sign (s : Sign)
  | endOfText
  deriving DecidableEq

structure Token where
  kind : TokenKind
  span : Span
  deriving DecidableEq

namespace Keyword

def all : List Keyword := [true, false, null, and, or, not, this, super]

def text : Keyword → String
  | true => "true"
  | false => "false"
  | null => "null"
  | and => "and"
  | or => "or"
  | not => "not"
  | this => "this"
  | super => "super"

def ofText? (text : String) : Option Keyword := all.find? (·.text == text)

/-- Whether a reserved word may name a property after a dot. Those that anchor a path may not. -/
def isPropertyName : Keyword → Bool
  | this | super => Bool.false
  | _ => Bool.true

end Keyword

namespace Sign

def text : Sign → String
  | dollar => "$"
  | plus => "+"
  | minus => "-"
  | star => "*"
  | slash => "/"
  | percent => "%"
  | tilde => "~"
  | equal => "=="
  | notEqual => "!="
  | less => "<"
  | lessEqual => "<="
  | greater => ">"
  | greaterEqual => ">="
  | both => "&&"
  | either => "||"
  | bang => "!"
  | openParen => "("
  | closeParen => ")"
  | openBracket => "["
  | closeBracket => "]"
  | comma => ","
  | dot => "."
  | pipe => "|"

def binaryOp? : Sign → Option BinaryOp
  | either => some .or
  | both => some .and
  | equal => some .eq
  | notEqual => some .ne
  | less => some .lt
  | lessEqual => some .le
  | greater => some .gt
  | greaterEqual => some .ge
  | plus => some .add
  | minus => some .sub
  | tilde => some .concat
  | star => some .mul
  | slash => some .div
  | percent => some .rem
  | _ => none

end Sign

namespace TokenKind

/-- What a token is called in messages, whatever it holds. -/
def name : TokenKind → String
  | number _ => "number"
  | string _ => "string"
  | ident _ => "identifier"
  | word w => "`" ++ w.text ++ "`"
  | sign s => "`" ++ s.text ++ "`"
  | endOfText => "end of expression"

def text : TokenKind → String
  | number n => "number " ++ Decimal.text n
  | string s => "string " ++ Text.visibleQuoted s
  | ident name => "identifier `" ++ name ++ "`"
  | kind => kind.name

def binaryOp? : TokenKind → Option BinaryOp
  | word .or => some .or
  | word .and => some .and
  | sign s => s.binaryOp?
  | _ => none

end TokenKind

end FormulaDoc
