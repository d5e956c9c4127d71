/-!
# Slugs

The slug of a text holds its ASCII letters, in small form, and digits. Where other characters stood
between two of them, the slug has one dash.
-/
namespace FormulaDoc.Text

/-- The slug of the rest of a text. `started` tells that the slug has begun, and `gap` that characters
were left out since the last one kept. -/
def slugFrom (started gap : Bool) : List Char → List Char
  | [] => []
  | c :: cs =>
    if c.isAlphanum then
      if started && gap then '-' :: c.toLower :: slugFrom true false cs
      else c.toLower :: slugFrom true false cs
    else slugFrom started true cs

def slug (cs : List Char) : List Char := slugFrom false false cs

end FormulaDoc.Text
