import FormulaDoc.Number.Binary64

/-!
# The order of doubles

Doubles that are numbers are ordered by their magnitudes, counted downwards below zero. Both zeros have
the same place. What is no number is neither equal to anything nor less than anything.
-/
namespace FormulaDoc.Binary64

/-- The place of a double in the order. -/
def place (x : Float) : Int :=
  if isNegative x then -Int.ofNat (magnitude x) else Int.ofNat (magnitude x)

def equal (a b : Float) : Bool := !isNaN a && !isNaN b && decide (place a = place b)

def less (a b : Float) : Bool := !isNaN a && !isNaN b && decide (place a < place b)

theorem equal_iff {a b : Float} :
    equal a b = true ↔ isNaN a = false ∧ isNaN b = false ∧ place a = place b := by
  simp [equal, and_assoc]

theorem less_iff {a b : Float} :
    less a b = true ↔ isNaN a = false ∧ isNaN b = false ∧ place a < place b := by
  simp [less, and_assoc]

theorem less_or_equal_or_less {a b : Float} (ha : isNaN a = false) (hb : isNaN b = false) :
    less a b = true ∨ equal a b = true ∨ less b a = true := by
  rcases Int.lt_trichotomy (place a) (place b) with h | h | h
  · exact .inl (less_iff.mpr ⟨ha, hb, h⟩)
  · exact .inr (.inl (equal_iff.mpr ⟨ha, hb, h⟩))
  · exact .inr (.inr (less_iff.mpr ⟨hb, ha, h⟩))

end FormulaDoc.Binary64
