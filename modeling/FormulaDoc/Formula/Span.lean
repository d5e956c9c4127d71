/-!
# Spans

The byte range of a piece of formula text, the end excluded.
-/
namespace FormulaDoc

/-- A byte range: `start` is inside, `stop` is the first offset after it. -/
structure Span where
  start : Nat
  stop : Nat
  deriving DecidableEq, Repr, Inhabited

namespace Span

/-- The greatest offset that a span made from a range holds, the last one of 32 bits. -/
def maxOffset : Nat := 4294967295

/-- A span from a byte range; greater offsets saturate. -/
def ofRange (start stop : Nat) : Span := ⟨min start maxOffset, min stop maxOffset⟩

def point (offset : Nat) : Span := ⟨offset, offset⟩

def length (span : Span) : Nat := span.stop - span.start

def isEmpty (span : Span) : Bool := span.start == span.stop

/-- The smallest span over two others. -/
def merge (a b : Span) : Span := ⟨min a.start b.start, max a.stop b.stop⟩

def shift (offset : Nat) (span : Span) : Span := ⟨span.start + offset, span.stop + offset⟩

def text (span : Span) : String := toString span.start ++ ".." ++ toString span.stop

theorem shift_merge (offset : Nat) (a b : Span) :
    (a.merge b).shift offset = (a.shift offset).merge (b.shift offset) := by
  simp only [merge, shift, mk.injEq]
  omega

end Span

end FormulaDoc
