/-!
# Tables of characters

A set of characters is a table of closed ranges of code points. A letter mapping is a table of runs:
the code points of a run, at even steps, all move by the same amount.
-/
namespace FormulaDoc.CharTable

def contains (ranges : Array (Nat × Nat)) (c : Char) : Bool :=
  ranges.any fun range => decide (range.1 ≤ c.toNat ∧ c.toNat ≤ range.2)

/-- The code points `first`, `first + step`, … up to `last`, which all move by `shift`. -/
structure Run where
  first : Nat
  last : Nat
  step : Nat
  shift : Int

def Run.moves (run : Run) (code : Nat) : Bool :=
  decide (run.first ≤ code ∧ code ≤ run.last ∧ (code - run.first) % run.step = 0)

/-- The character that a table of runs moves a character to, itself where no run applies. -/
def move (runs : Array Run) (c : Char) : Char :=
  match runs.find? (·.moves c.toNat) with
  | some run => Char.ofNat (Int.ofNat c.toNat + run.shift).toNat
  | none => c

end FormulaDoc.CharTable
