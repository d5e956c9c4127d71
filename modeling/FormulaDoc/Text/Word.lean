/-!
# Words

A word is a letter or an underscore followed by letters, digits and underscores, all of them ASCII.
Names in formulas are words, and so are the keys that a path writes without brackets.
-/
namespace FormulaDoc.Text

def isWordStart (c : Char) : Bool := c.isAlpha || c == '_'

def isWordChar (c : Char) : Bool := c.isAlphanum || c == '_'

def isWord : List Char → Bool
  | [] => false
  | c :: cs => isWordStart c && cs.all isWordChar

end FormulaDoc.Text
