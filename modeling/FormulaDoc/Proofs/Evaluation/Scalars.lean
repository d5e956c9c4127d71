import FormulaDoc.Engine
import FormulaDoc.Proofs.Evaluation.Meaning
import FormulaDoc.Proofs.Formula.Writing

/-!
# Scalars as expressions

The text of a scalar is a formula for it: a literal, or a minus with the literal of a positive number
after it. It evaluates to that scalar, whatever the data. Infinities, NaN and the negative zero are the
only exceptions.
-/
namespace FormulaDoc

open Grammar Binary64

/-- Signs with their operand, as a whole formula. -/
def Grammar.Phrase.ofUnary (p : Phrase (.whole .unary)) : Phrase (.whole expression) :=
  .chain (.chain (.equality (.chain (.chain (.chain (.chain p .noOperation) .noOperation) .noOperation)
    .noOperation)) .noOperation) .noOperation

def Grammar.Phrase.ofLiteral {kind : TokenKind} {value : Value} (literal : IsLiteral kind value) :
    Phrase (.whole .unary) :=
  .unsigned (.filter (.access (.literal kind value literal) .noAccess) .noFilter)

namespace Binary64

variable {x : Float}

theorem magnitude_lt (finite : isFinite x = true) : magnitude x < infinity := of_decide_eq_true finite

theorem abs_of_not_isNegative (positive : isNegative x = false) : Binary64.abs x = x := by
  rw [Binary64.abs, ← positive, ofMagnitude_magnitude]

theorem neg_abs (finite : isFinite x = true) (negative : isNegative x = true) :
    neg (Binary64.abs x) = x := by
  have number := Nat.le_of_lt (magnitude_lt finite)
  rw [neg, Binary64.abs, isNegative_ofMagnitude number, magnitude_ofMagnitude number, Bool.not_false,
    ← negative, ofMagnitude_magnitude]

end Binary64

namespace Value

/-- Whether a formula can write a value: a scalar, but neither an infinity nor NaN, which no numeral
stands for, nor the negative zero, which is written without its sign. -/
def IsWritable : Value → Prop
  | number n => isFinite n = true ∧ n ≠ -0.0
  | value => value.isScalar = true

/-- The tree that a scalar is written as. -/
def written : Value → Expr Unit
  | number n =>
    if isNegative n then .unary () .neg (.literal () (number (Binary64.abs n)))
    else .literal () (number n)
  | value => .literal () value

/-! ## The text of a scalar -/

/-- The text of a number is a sign, where it is negative, and a numeral. -/
theorem exists_numeral {n : Float} (finite : isFinite n = true) (notNegativeZero : n ≠ -0.0) :
    ∃ piece, (numberText n).toList = (if isNegative n then ['-'] else []) ++ piece ∧
      Lexer.Reads piece (.number (Binary64.abs n)) := by
  have below := magnitude_lt finite
  have numeral (digits : Nat) (exponent : Int) (back : Decimal.read digits exponent = magnitude n) :
      Lexer.Reads (Decimal.positional digits exponent) (.number (Binary64.abs n)) :=
    Lexer.reads_positional back below
  rw [numberText]
  split
  next i whole =>
    have same := ofInt_of_exactInt? whole notNegativeZero
    have number := Nat.le_of_lt (nearest_lt_infinity (toInt?_of_exactInt? whole).2)
    have size : Decimal.read i.natAbs 0 = magnitude n := by
      rw [Decimal.read_natural, ← same, ofInt, magnitude_ofMagnitude number]
    have sign : decide (i < 0) = isNegative n := by
      rw [← same, ofInt, isNegative_ofMagnitude number]
    exact ⟨_, sign ▸ Decimal.toList_toString i, numeral _ _ size⟩
  next =>
    have number : isNaN n = false := decide_eq_false (Nat.not_lt_of_lt below)
    have bounded : isInfinite n = false := decide_eq_false (Nat.ne_of_lt below)
    refine ⟨Decimal.magnitudeText (magnitude n), ?_, ?_⟩
    · simp only [Decimal.text, number, bounded, Bool.false_eq_true, if_false, String.toList_ofList]
    · rw [Decimal.magnitudeText]
      split
      next zero => exact numeral 0 0 zero.symm
      next some =>
        exact numeral _ _ (Decimal.read_shortest (Nat.pos_of_ne_zero some) (Nat.le_of_lt below))

theorem exists_parse_literal {source : String} {kind : TokenKind} {value : Value}
    (reads : Lexer.Reads source.toList kind) (literal : IsLiteral kind value) :
    ∃ e, parse source = .ok e ∧ e.bare = .literal () value :=
  exists_parse_of_phrase (scan_of_text reads) (.ofUnary (.ofLiteral literal)) rfl

theorem exists_parse_number {n : Float} (finite : isFinite n = true) (notNegativeZero : n ≠ -0.0) :
    ∃ e, parse (numberText n) = .ok e ∧ e.bare = (number n).written := by
  obtain ⟨piece, spelled, reads⟩ := exists_numeral finite notNegativeZero
  cases sign : isNegative n with
  | false =>
    rw [sign] at spelled
    rw [written, if_neg (by rw [sign]; nofun)]
    rw [abs_of_not_isNegative sign] at reads
    exact exists_parse_literal (spelled ▸ reads) (.number n)
  | true =>
    rw [sign] at spelled
    rw [written, if_pos sign]
    have minus := Lexer.scans_sign '-' .minus (by decide) 0 piece
    have scanned : scan (numberText n) = .ok [⟨.sign .minus, ⟨0, 1⟩⟩,
        ⟨.number (Binary64.abs n), ⟨1, 1 + Lexer.byteLength piece⟩⟩] := by
      rw [scan, spelled]
      change Lexer.scan 0 ('-' :: piece) = _
      rw [minus, Lexer.scan_of_reads reads]
      rfl
    exact exists_parse_of_phrase scanned
      (.ofUnary (.minus (.ofLiteral (.number (Binary64.abs n))))) rfl

/-- The text of a scalar is read as what the scalar is written as. -/
theorem exists_parse_text {value : Value} (writable : value.IsWritable) :
    ∃ e, parse value.text = .ok e ∧ e.bare = value.written := by
  cases value with
  | null => exact exists_parse_literal (.keyword .null) .null
  | bool b =>
    cases b
    · exact exists_parse_literal (.keyword .false) .false
    · exact exists_parse_literal (.keyword .true) .true
  | number n =>
    rw [text]
    exact exists_parse_number writable.1 writable.2
  | string s =>
    refine exists_parse_literal ?_ (.string s)
    rw [text, Text.bareQuoted, String.toList_ofList]
    exact Lexer.reads_quoted Lexer.escapes_bareEscape rfl s
  | array _ | object _ | formula _ => cases writable

/-- What a scalar is written as evaluates to it, and nothing is asked for. -/
theorem value_written {value : Value} (writable : value.IsWritable) (env : Environment)
    (ask : DocPath → Eval Value) (scope : Scope) (pass : Pass) :
    Interpreter.value env ask scope value.written pass = (.ok value, pass) := by
  cases value with
  | null | bool _ | string _ | array _ | object _ | formula _ => rfl
  | number n =>
    rw [written]
    split
    next negative =>
      have negated : Interpreter.value env ask scope
          (.unary () .neg (.literal () (number (Binary64.abs n)))) pass =
          (.ok (number (neg (Binary64.abs n))), pass) := rfl
      rw [negated, neg_abs writable.1 negative]
    next => rfl

end Value

open Lexer in
/-- Text between any quotes reads as itself when the backslash and the quote are escaped, and a scalar
that is written out is read as what it is written as and evaluates to itself, over any data. -/
theorem scalars_read_back :
    (∀ (quote : Char) (s : String), isQuote quote = true →
      let source := String.ofList (quote :: (s.toList.flatMap (leastEscape quote) ++ [quote]))
      lex source = .ok [⟨.string s, ⟨0, source.utf8ByteSize⟩⟩, endToken source]) ∧
    ∀ value : Value, value.IsWritable →
      (∃ e, parse value.text = .ok e ∧ e.bare = value.written) ∧
      ∀ (engine : Engine) (around : Surroundings) (data : Value),
        engine.evaluateExpression around value.text data = .ok value := by
  constructor
  · intro quote s quotes source
    have reads : Reads source.toList (.string s) := by
      rw [String.toList_ofList]
      exact reads_quoted (escapes_leastEscape quotes) quotes s
    rw [lex, scan_of_text reads]
    rfl
  · intro value writable
    obtain ⟨e, parsed, same⟩ := Value.exists_parse_text writable
    refine ⟨⟨e, parsed, same⟩, ?_⟩
    intro engine around data
    have ends : engine.runExpression around value.text data = (.ok value, Pass.start data) := by
      rw [Engine.runExpression]
      simp only [Resolution.evaluate_of_parse parsed, same, Value.value_written writable]
    rw [Engine.evaluateExpression, ends]
    rfl

/-- A text that ends with a backslash and holds its own quote, and a negative fraction. -/
theorem scalars_read_back_samples :
    lex "'it\\'s \\\\'" = .ok [⟨.string "it's \\", ⟨0, 10⟩⟩, endToken "'it\\'s \\\\'"] ∧
    (Value.number (-1.5)).IsWritable ∧ (Value.number (-1.5)).text = "-1.5" ∧
    (∃ e, parse "-1.5" = .ok e ∧ e.bare = .unary () .neg (.literal () (.number 1.5))) ∧
    Engine.evaluateExpression {} ⟨0, id⟩ "-1.5" .null = .ok (.number (-1.5)) := by
  have writable : (Value.number (-1.5)).IsWritable := by
    rw [Value.IsWritable]
    decide
  have text : (Value.number (-1.5)).text = "-1.5" := by decide
  have written : (Value.number (-1.5)).written = .unary () .neg (.literal () (.number 1.5)) := by
    rw [Value.written, if_pos (by decide)]
    rfl
  obtain ⟨strings, scalars⟩ := scalars_read_back
  obtain ⟨parsed, evaluated⟩ := scalars (.number (-1.5)) writable
  rw [text] at parsed evaluated
  rw [written] at parsed
  exact ⟨strings '\'' "it's \\" rfl, writable, text, parsed, evaluated {} ⟨0, id⟩ .null⟩

end FormulaDoc
