import FormulaDoc.Proofs.Formula.Patterns
import FormulaDoc.Proofs.Number.Shortest

/-!
# Literals written out

A piece that reads as a token is the only token of a text that it makes up. Texts between quotes read as
themselves, however each of their characters is escaped, and decimals that are written out in full read
as the doubles that they were found for.
-/
namespace FormulaDoc

open Computability

namespace Lexer

/-! ## Texts of one token -/

theorem Reads.not_isSpacing {c : Char} {ds : List Char} {kind : TokenKind} (h : Reads (c :: ds) kind) :
    ¬ isSpacing c = true := by
  intro space
  have plain : c.isDigit = false ∧ isQuote c = false ∧ Text.isWordStart c = false := by
    simp only [isSpacing, Bool.or_eq_true, beq_iff_eq] at space
    rcases space with ((rfl | rfl) | rfl) | rfl <;> decide
  obtain ⟨digit, quote, start⟩ := plain
  rcases h.start with ⟨other, -⟩ | ⟨other, -⟩ | ⟨other, -⟩ | ⟨s, -, text⟩
  · exact Bool.false_ne_true (digit.symm.trans other)
  · exact Bool.false_ne_true (quote.symm.trans other)
  · exact Bool.false_ne_true (start.symm.trans other)
  · cases s <;> cases text <;> cases space

theorem not_reads_nil (kind : TokenKind) : ¬ Reads [] kind := by
  intro reads
  obtain ⟨p, matched⟩ := reads.matched
  -- nothing starts with a backslash
  exact absurd (start_of_matched matched (List.nil_prefix (l := ['\\']))) (by decide)

/-- A piece that reads as a token is scanned as that token alone. -/
theorem scan_of_reads {piece : List Char} {kind : TokenKind} (reads : Reads piece kind)
    (offset : Nat) :
    scan offset piece = .ok [⟨kind, ⟨offset, offset + byteLength piece⟩⟩] := by
  cases piece with
  | nil => exact absurd reads (not_reads_nil kind)
  | cons c ds =>
    have longest : Longest (c :: ds) [] := by
      constructor
      · exact reads.matched
      · intro _ word _ front
        rw [List.append_nil] at front
        exact front.length_le
    have found := lexeme_of_reads reads longest
    rw [List.append_nil] at found
    rw [scan_lexeme reads.not_isSpacing found, List.take_length, List.drop_length, scan_nil,
      byteLength_cons, Nat.add_assoc]
    rfl

end Lexer

theorem scan_of_text {source : String} {kind : TokenKind} (reads : Lexer.Reads source.toList kind) :
    scan source = .ok [⟨kind, ⟨0, source.utf8ByteSize⟩⟩] := by
  have scanned := Lexer.scan_of_reads reads 0
  rwa [Lexer.byteLength_toList, Nat.zero_add] at scanned

namespace Lexer

/-! ## Strings -/

/-- What stands for a character inside quotes: the character itself, or its escape. -/
inductive Escapes (quote c : Char) : List Char → Prop where
  | plain (other : c ≠ quote) (plain : c ≠ '\\') : Escapes quote c [c]
  | escaped {d : Char} (value : escapeValue? d = some c) : Escapes quote c ['\\', d]

section Strings

variable {quote : Char} {escape : Char → List Char} (escapes : ∀ c, Escapes quote c (escape c))

include escapes

theorem flatMap_mem_star (cs : List Char) : cs.flatMap escape ∈ (stringUnit quote)∗ := by
  induction cs with
  | nil => exact Language.nil_mem_kstar _
  | cons c cs ih =>
    rw [List.flatMap_cons]
    refine append_mem_star ?_ ih
    have found := escapes c
    generalize escape c = word at found
    cases found with
    | plain other plain => exact .inl ⟨c, by simp [other, plain], rfl⟩
    | @escaped d value =>
      have newline : d ≠ '\n' := by
        rintro rfl
        cases value
      exact .inr ⟨_, rfl, _, ⟨d, by simpa using newline, rfl⟩, rfl⟩

theorem unescape_flatMap (cs : List Char) : unescape (cs.flatMap escape) = .ok cs := by
  induction cs with
  | nil => rfl
  | cons c cs ih =>
    rw [List.flatMap_cons]
    have found := escapes c
    generalize escape c = word at found
    cases found with
    | plain other plain =>
      rw [List.singleton_append, unescape, ih]
      · rfl
      · exact fun _ _ same _ => plain same
    | escaped value =>
      rw [List.cons_append, List.singleton_append, unescape, value, ih]
      rfl

/-- A text between quotes, with its characters escaped, reads as itself. -/
theorem reads_quoted (quotes : isQuote quote = true) (s : String) :
    Reads (quote :: (s.toList.flatMap escape ++ [quote])) (.string s) := by
  refine .string quotes (flatMap_mem_star escapes s.toList) ?_
  simp only [stringToken, unescape_flatMap escapes, String.ofList_toList]

end Strings

/-- The bare quoting of texts escapes what it must. -/
theorem escapes_bareEscape (c : Char) : Escapes '"' c (Text.bareEscape c) := by
  rw [Text.bareEscape]
  split_ifs with quote backslash newline tab
  · subst quote
    exact .escaped rfl
  · subst backslash
    exact .escaped rfl
  · subst newline
    exact .escaped rfl
  · subst tab
    exact .escaped rfl
  · exact .plain quote backslash

/-- The least escaping that a quote allows: of the backslash and of the quote itself. -/
def leastEscape (quote c : Char) : List Char := if c = '\\' ∨ c = quote then ['\\', c] else [c]

theorem escapes_leastEscape {quote : Char} (quotes : isQuote quote = true) (c : Char) :
    Escapes quote c (leastEscape quote c) := by
  rw [leastEscape]
  split_ifs with special
  · refine .escaped ?_
    rcases special with rfl | rfl
    · rfl
    · simp only [isQuote, Bool.or_eq_true, beq_iff_eq] at quotes
      rcases quotes with (rfl | rfl) | rfl <;> rfl
  · exact .plain (fun same => special (.inr same)) fun same => special (.inl same)

/-! ## Numerals -/

theorem numeralValue_of_digits {ds : List Char} (h : ds ∈ digits) :
    numeralValue ds = (Decimal.ofDigits ds, 0) := by
  have all := (mem_digits.mp h).2
  have length : digitsLength ds = ds.length := by
    simpa [digitsLength] using digitsLength_of_digits all []
  simp [numeralValue, length, fractionLength, exponentValue, Decimal.ofDigits]

theorem numeralValue_of_point {whole part : List Char} (h : whole ∈ digits) (h' : part ∈ digits) :
    numeralValue (whole ++ '.' :: part) =
      (Decimal.ofDigits (whole ++ part), -(part.length : Int)) := by
  have all := (mem_digits.mp h).2
  obtain ⟨some, all'⟩ := mem_digits.mp h'
  have length : digitsLength (whole ++ '.' :: part) = whole.length := by
    rw [digitsLength_of_digits all, digitsLength_of_not_isDigit rfl, Nat.add_zero]
  have length' : fractionLength ('.' :: part) = part.length + 1 := by
    have fractional : '.' :: part ∈ fraction := ⟨_, rfl, _, h', rfl⟩
    simpa [digitsLength] using fractionLength_of_mem fractional []
  simp [numeralValue, length, length', exponentValue, Decimal.ofDigits]

section Numerals

open Binary64

variable {m : Nat}

theorem numeralToken_eq {piece : List Char} {value : Nat × Int} (same : numeralValue piece = value)
    (back : Decimal.read value.1 value.2 = m) (finite : m < infinity) :
    numeralToken piece = .ok (.number (ofMagnitude false m)) := by
  simp only [numeralToken, same, back, if_neg (Nat.ne_of_lt finite)]

theorem reads_digits {ds : List Char} (h : ds ∈ digits)
    (back : Decimal.read (Decimal.ofDigits ds) 0 = m) (finite : m < infinity) :
    Reads ds (.number (ofMagnitude false m)) := by
  refine .number ?_ (numeralToken_eq (numeralValue_of_digits h) back finite)
  exact mem_number.mpr ⟨ds, h, [], .inl rfl, [], .inl rfl, (List.append_nil ds).symm⟩

theorem reads_point {whole part : List Char} (h : whole ∈ digits) (h' : part ∈ digits)
    (back : Decimal.read (Decimal.ofDigits (whole ++ part)) (-(part.length : Int)) = m)
    (finite : m < infinity) :
    Reads (whole ++ '.' :: part) (.number (ofMagnitude false m)) := by
  refine .number ?_ (numeralToken_eq (numeralValue_of_point h h') back finite)
  refine mem_number.mpr ⟨whole, h, '.' :: part, .inr ⟨_, rfl, _, h', rfl⟩, [], .inl rfl, ?_⟩
  rw [List.append_nil]

theorem digits_mem (n : Nat) : Decimal.digits n ∈ digits := by
  refine mem_digits.mpr ⟨Nat.toDigits_ne_nil, ?_⟩
  intro c mem
  exact Nat.isDigit_of_mem_toDigits (by decide) (by decide) mem

theorem append_mem_digits {ds ds' : List Char} (h : ds ∈ digits)
    (all : ∀ c ∈ ds', c.isDigit = true) : ds ++ ds' ∈ digits ∧ ds' ++ ds ∈ digits := by
  obtain ⟨some, all'⟩ := mem_digits.mp h
  constructor
  · refine mem_digits.mpr ⟨List.append_ne_nil_of_left_ne_nil some _, ?_⟩
    intro c mem
    exact (List.mem_append.mp mem).elim (all' c) (all c)
  · refine mem_digits.mpr ⟨List.append_ne_nil_of_right_ne_nil _ some, ?_⟩
    intro c mem
    exact (List.mem_append.mp mem).elim (all c) (all' c)

theorem isDigit_of_mem_zeros {k : Nat} {c : Char} (mem : c ∈ List.replicate k '0') :
    c.isDigit = true := by
  rw [List.eq_of_mem_replicate mem]
  rfl

theorem ofDigits_digits (n : Nat) : Decimal.ofDigits (Decimal.digits n) = n :=
  Nat.ofDigitChars_toDigits (by decide) (by decide)

theorem ofDigits_append_zeros (n k : Nat) :
    Decimal.ofDigits (Decimal.digits n ++ List.replicate k '0') = n * 10 ^ k := by
  have whole := ofDigits_digits n
  rw [Decimal.ofDigits] at whole ⊢
  rw [Nat.ofDigitChars_append, whole, Nat.ofDigitChars_replicate_zero, Nat.mul_comm]

theorem ofDigits_zeros_append (n k : Nat) :
    Decimal.ofDigits (List.replicate k '0' ++ Decimal.digits n) = n := by
  rw [Decimal.ofDigits, Nat.ofDigitChars_append, Nat.ofDigitChars_replicate_zero, Nat.mul_zero]
  exact ofDigits_digits n

/-- A decimal that is written out in full reads as the double that it was found for. -/
theorem reads_positional {n : Nat} {e : Int} (back : Decimal.read n e = m) (finite : m < infinity) :
    Reads (Decimal.positional n e) (.number (ofMagnitude false m)) := by
  obtain ⟨some, all⟩ := mem_digits.mp (digits_mem n)
  have long : 0 < (Decimal.digits n).length := List.length_pos_iff.mpr some
  simp only [Decimal.positional]
  split
  next whole =>
    refine reads_digits (append_mem_digits (digits_mem n) fun _ => isDigit_of_mem_zeros).1 ?_ finite
    rw [ofDigits_append_zeros, Decimal.read_mul_pow whole (by omega), back]
  next part =>
    split
    next short =>
      have places : -(((Decimal.digits n).drop
          ((Decimal.digits n).length - (-e).toNat)).length : Int) = e := by
        rw [List.length_drop]
        omega
      refine reads_point ?_ ?_ ?_ finite
      · refine mem_digits.mpr ⟨?_, fun c mem => all c (List.mem_of_mem_take mem)⟩
        exact List.ne_nil_of_length_pos (by rw [List.length_take]; omega)
      · refine mem_digits.mpr ⟨?_, fun c mem => all c (List.mem_of_mem_drop mem)⟩
        exact List.ne_nil_of_length_pos (by rw [List.length_drop]; omega)
      · rw [List.take_append_drop, ofDigits_digits, places, back]
    next deep =>
      have mem := (append_mem_digits (digits_mem n) fun _ =>
        isDigit_of_mem_zeros (k := (-e).toNat - (Decimal.digits n).length)).2
      have zero : ['0'] ∈ digits := digits_mem 0
      have value : Decimal.ofDigits (['0'] ++
          (List.replicate ((-e).toNat - (Decimal.digits n).length) '0' ++ Decimal.digits n)) = n :=
        ofDigits_zeros_append n ((-e).toNat - (Decimal.digits n).length + 1)
      refine reads_point zero mem ?_ finite
      rw [value, ← back, List.length_append, List.length_replicate]
      congr 1
      omega

end Numerals

end Lexer

end FormulaDoc
