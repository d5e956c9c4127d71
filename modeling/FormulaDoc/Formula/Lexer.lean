import FormulaDoc.Formula.Token
import FormulaDoc.Text.Word

/-!
# Reading tokens

Spaces separate tokens and every token is the longest that its class allows. A lexeme is read as a
number of characters, so that its text and the rest of the input are the two parts of the input.
-/
namespace FormulaDoc

inductive LexCause where
  | invalidCharacter (c : Char)
  | numberOutOfRange (text : String)
  | unterminatedString
  | invalidEscape (c : Char)
  deriving DecidableEq, Repr

structure LexError where
  cause : LexCause
  span : Span
  deriving DecidableEq, Repr

def LexCause.message : LexCause → String
  | invalidCharacter c => "invalid character " ++ Text.visibleQuotedChar c
  | numberOutOfRange text => "number literal `" ++ text ++ "` is out of range"
  | unterminatedString => "unterminated string literal"
  | invalidEscape c => "invalid escape sequence `\\" ++ String.singleton c ++ "`"

namespace Lexer

/-- The characters between tokens. -/
def isSpacing (c : Char) : Bool := c == ' ' || c == '\t' || c == '\r' || c == '\n'

def isQuote (c : Char) : Bool := c == '"' || c == '\'' || c == '`'

def byteLength (cs : List Char) : Nat := cs.foldr (fun c length => c.utf8Size + length) 0

/-! ## Numbers -/

def digitsLength (cs : List Char) : Nat := (cs.takeWhile Char.isDigit).length

def fractionLength : List Char → Nat
  | '.' :: cs => if digitsLength cs = 0 then 0 else digitsLength cs + 1
  | _ => 0

def isExponentSign (c : Char) : Bool := c == '+' || c == '-'

def exponentSignLength : List Char → Nat
  | c :: _ => if isExponentSign c then 1 else 0
  | [] => 0

/-- The length of an exponent in front: the letter, perhaps a sign, and at least one digit. -/
def exponentLength : List Char → Nat
  | c :: cs =>
    if c == 'e' || c == 'E' then
      let sign := exponentSignLength cs
      let count := digitsLength (cs.drop sign)
      if count = 0 then 0 else 1 + sign + count
    else 0
  | [] => 0

def numeralLength (cs : List Char) : Nat :=
  let whole := digitsLength cs
  let fraction := fractionLength (cs.drop whole)
  whole + fraction + exponentLength (cs.drop (whole + fraction))

def exponentValue : List Char → Int
  | '-' :: ds => -Int.ofNat (Decimal.ofDigits ds)
  | '+' :: ds => Int.ofNat (Decimal.ofDigits ds)
  | ds => Int.ofNat (Decimal.ofDigits ds)

/-- The decimal that a numeral writes, as digits and an exponent of ten. -/
def numeralValue (cs : List Char) : Nat × Int :=
  let whole := digitsLength cs
  let fraction := fractionLength (cs.drop whole)
  let fractionDigits := ((cs.drop whole).take fraction).drop 1
  let exponentPart := (cs.drop (whole + fraction)).drop 1
  (Decimal.ofDigits (cs.take whole ++ fractionDigits),
    exponentValue exponentPart - Int.ofNat fractionDigits.length)

/-- The token of a numeral, which must not overflow. -/
def numeralToken (cs : List Char) : Except LexCause TokenKind :=
  let value := numeralValue cs
  let magnitude := Decimal.read value.1 value.2
  if magnitude = Binary64.infinity then .error (.numberOutOfRange (String.ofList cs))
  else .ok (.number (Binary64.ofMagnitude false magnitude))

/-! ## Strings -/

/-- The length of what follows an opening quote, the closing one included, and whether there is one. A
backslash takes the next character with it, but never a newline. -/
def quotedLength (quote : Char) : List Char → Nat × Bool
  | [] => (0, false)
  | '\\' :: [] => (1, false)
  | '\\' :: c :: cs =>
    if c = '\n' then (1, false)
    else
      let rest := quotedLength quote cs
      (rest.1 + 2, rest.2)
  | c :: cs =>
    if c = quote then (1, true)
    else
      let rest := quotedLength quote cs
      (rest.1 + 1, rest.2)

theorem quotedLength_cons {quote c : Char} (plain : c ≠ '\\') (cs : List Char) :
    quotedLength quote (c :: cs) =
      if c = quote then (1, true) else ((quotedLength quote cs).1 + 1, (quotedLength quote cs).2) := by
  rw [quotedLength]
  · exact fun same _ => plain same
  · exact fun _ _ same _ => plain same

def escapeValue? (c : Char) : Option Char :=
  if c = 'n' then some '\n'
  else if c = 't' then some '\t'
  else if c = 'r' then some '\r'
  else if c = '0' then some '\x00'
  else if c = '\\' ∨ isQuote c ∨ c = '/' then some c
  else none

/-- The text that the body of a string literal stands for, or its first escape that stands for none. -/
def unescape : List Char → Except Char (List Char)
  | [] => .ok []
  | '\\' :: c :: cs =>
    match escapeValue? c with
    | none => .error c
    | some value => (unescape cs).map (value :: ·)
  | c :: cs => (unescape cs).map (c :: ·)

def stringToken (body : List Char) : Except LexCause TokenKind :=
  match unescape body with
  | .error c => .error (.invalidEscape c)
  | .ok cs => .ok (.string (String.ofList cs))

/-! ## Words and signs -/

def wordToken (cs : List Char) : TokenKind :=
  let text := String.ofList cs
  match Keyword.ofText? text with
  | some keyword => .word keyword
  | none => .ident text

def doubleSign? (first second : Char) : Option Sign :=
  match first, second with
  | '=', '=' => some .equal
  | '!', '=' => some .notEqual
  | '<', '=' => some .lessEqual
  | '>', '=' => some .greaterEqual
  | '&', '&' => some .both
  | '|', '|' => some .either
  | _, _ => none

theorem doubleSign?_eq_none {second : Char}
    (other : (second == '=' || second == '&' || second == '|') = false) (first : Char) :
    doubleSign? first second = none := by
  unfold doubleSign?
  split <;> first | rfl | cases other

def singleSign? : Char → Option Sign
  | '$' => some .dollar
  | '+' => some .plus
  | '-' => some .minus
  | '*' => some .star
  | '/' => some .slash
  | '%' => some .percent
  | '~' => some .tilde
  | '<' => some .less
  | '>' => some .greater
  | '!' => some .bang
  | '(' => some .openParen
  | ')' => some .closeParen
  | '[' => some .openBracket
  | ']' => some .closeBracket
  | ',' => some .comma
  | '.' => some .dot
  | '|' => some .pipe
  | _ => none

def sign? (c : Char) (cs : List Char) : Option (Sign × Nat) :=
  match cs.head?.bind (doubleSign? c) with
  | some sign => some (sign, 1)
  | none => (singleSign? c).map (·, 0)

/-! ## Tokens -/

/-- The lexeme that starts with a character: what it is, and how many more characters it takes. -/
def lexeme (c : Char) (cs : List Char) : Except LexCause TokenKind × Nat :=
  if c.isDigit then
    let more := numeralLength (c :: cs) - 1
    (numeralToken (c :: cs.take more), more)
  else if isQuote c then
    let found := quotedLength c cs
    if found.2 then (stringToken (cs.take (found.1 - 1)), found.1)
    else (.error .unterminatedString, found.1)
  else if Text.isWordStart c then
    let more := (cs.takeWhile Text.isWordChar).length
    (.ok (wordToken (c :: cs.take more)), more)
  else
    match sign? c cs with
    | some (sign, more) => (.ok (.sign sign), more)
    | none => (.error (.invalidCharacter c), 0)

/-- The tokens of a text that starts at a byte offset, up to the first piece that is none. -/
def scan (offset : Nat) : List Char → Except LexError (List Token)
  | [] => .ok []
  | c :: cs =>
    if isSpacing c then scan (offset + c.utf8Size) cs
    else
      let found := lexeme c cs
      let stop := offset + c.utf8Size + byteLength (cs.take found.2)
      match found.1 with
      | .error cause => .error ⟨cause, ⟨offset, stop⟩⟩
      | .ok kind =>
        match scan stop (cs.drop found.2) with
        | .error e => .error e
        | .ok tokens => .ok (⟨kind, ⟨offset, stop⟩⟩ :: tokens)
termination_by cs => cs.length
decreasing_by all_goals simp only [List.length_cons, List.length_drop]; omega

theorem scan_nil (offset : Nat) : scan offset [] = .ok [] := by
  rw [scan]

theorem scan_space {c : Char} (space : isSpacing c = true) (offset : Nat) (cs : List Char) :
    scan offset (c :: cs) = scan (offset + c.utf8Size) cs := by
  rw [scan, if_pos space]

end Lexer

def endToken (source : String) : Token := ⟨.endOfText, .point source.utf8ByteSize⟩

/-- The tokens of a formula, the end apart. -/
def scan (source : String) : Except LexError (List Token) := Lexer.scan 0 source.toList

def lex (source : String) : Except LexError (List Token) :=
  (scan source).map (· ++ [endToken source])

end FormulaDoc
