import FormulaDoc.Text.CharTable

/-!
# Blank characters

The characters with the Unicode property `White_Space`, and trimming text of them.
-/
namespace FormulaDoc.Text

/-- The ranges of the property `White_Space`. -/
def blankRanges : Array (Nat × Nat) :=
  #[(0x9, 0xd), (0x20, 0x20), (0x85, 0x85), (0xa0, 0xa0), (0x1680, 0x1680), (0x2000, 0x200a),
    (0x2028, 0x2029), (0x202f, 0x202f), (0x205f, 0x205f), (0x3000, 0x3000)]

def isBlank (c : Char) : Bool := CharTable.contains blankRanges c

def trim (cs : List Char) : List Char :=
  ((cs.dropWhile isBlank).reverse.dropWhile isBlank).reverse

theorem isBlank_of_isWhitespace {c : Char} (h : c.isWhitespace = true) : isBlank c = true := by
  simp only [Char.isWhitespace, Bool.or_eq_true, decide_eq_true_eq] at h
  rcases h with ((rfl | rfl) | rfl) | rfl <;> simp [isBlank, CharTable.contains, blankRanges]

end FormulaDoc.Text
