import FormulaDoc.Text.Hidden

/-!
# Quoted text

Two ways of writing text between quotes. *Bare* quoting escapes the double quote, the backslash, the
newline and the tab. *Visible* quoting escapes the quote that encloses the text, the backslash, the
usual controls by letter and every hidden character by number.
-/
namespace FormulaDoc.Text

/-- A character of bare quoted text. -/
def bareEscape (c : Char) : List Char :=
  if c = '"' then ['\\', '"']
  else if c = '\\' then ['\\', '\\']
  else if c = '\n' then ['\\', 'n']
  else if c = '\t' then ['\\', 't']
  else [c]

def bareQuoted (s : String) : String :=
  String.ofList ('"' :: (s.toList.flatMap bareEscape ++ ['"']))

/-- A character by number: its code point in small hexadecimal digits between braces. -/
def numberEscape (c : Char) : List Char :=
  ['\\', 'u', '\x7b'] ++ Nat.toDigits 16 c.toNat ++ ['\x7d']

def visibleEscape (quote c : Char) : List Char :=
  if c = quote ∨ c = '\\' then ['\\', c]
  else if c = '\x00' then ['\\', '0']
  else if c = '\t' then ['\\', 't']
  else if c = '\r' then ['\\', 'r']
  else if c = '\n' then ['\\', 'n']
  else if isHidden c then numberEscape c
  else [c]

def visibleQuoted (s : String) : String :=
  String.ofList ('"' :: (s.toList.flatMap (visibleEscape '"') ++ ['"']))

def visibleQuotedChar (c : Char) : String :=
  String.ofList ('\'' :: (visibleEscape '\'' c ++ ['\'']))

end FormulaDoc.Text
