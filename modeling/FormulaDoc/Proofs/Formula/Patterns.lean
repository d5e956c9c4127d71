import FormulaDoc.Proofs.Formula.Lexing

/-!
# Token patterns

The patterns of tokens as languages: the signs and reserved words, numerals with an optional fraction
and exponent, strings in each kind of quotes, strings without an end, and words. A lexeme is the longest
piece in front of a text that any of them matches.
-/
namespace FormulaDoc.Lexer

open Computability

/-! ## Languages -/

/-- The texts of one character of a class. -/
def oneOf (p : Char → Bool) : Language Char := {w | ∃ c, p c = true ∧ w = [c]}

def digits : Language Char := oneOf Char.isDigit * (oneOf Char.isDigit)∗

def fraction : Language Char := {['.']} * digits

def isExponentMark (c : Char) : Bool := c == 'e' || c == 'E'

def exponent : Language Char := oneOf isExponentMark * ((1 + oneOf isExponentSign) * digits)

/-- What a string is made of: characters other than its quote and the backslash, and backslashes with
any character but a newline. -/
def stringUnit (quote : Char) : Language Char :=
  oneOf (fun c => c != quote && c != '\\') + {['\\']} * oneOf (· != '\n')

inductive Pattern where
  | sign (s : Sign)
  | keyword (w : Keyword)
  | number
  | string (quote : Char) (quotes : isQuote quote = true)
  /-- A string that is not closed. It is never a token. -/
  | openString (quote : Char) (quotes : isQuote quote = true)
  | word

def Pattern.language : Pattern → Language Char
  | sign s => {s.text.toList}
  | keyword w => {w.text.toList}
  | number => digits * ((1 + fraction) * (1 + exponent))
  | string quote _ => {[quote]} * ((stringUnit quote)∗ * {[quote]})
  | openString quote _ => {[quote]} * ((stringUnit quote)∗ * (1 + {['\\']}))
  | word => oneOf Text.isWordStart * (oneOf Text.isWordChar)∗

theorem mem_star_oneOf {p : Char → Bool} {w : List Char} :
    w ∈ (oneOf p)∗ ↔ ∀ c ∈ w, p c = true := by
  constructor
  · rintro ⟨pieces, rfl, each⟩ c mem
    obtain ⟨piece, inside, found⟩ := List.mem_flatten.mp mem
    obtain ⟨other, passes, rfl⟩ := each piece inside
    rw [List.mem_singleton.mp found]
    exact passes
  · intro all
    refine ⟨w.map fun c => [c], ?_, ?_⟩
    · rw [← List.flatMap_def, List.flatMap_singleton']
    · intro piece mem
      obtain ⟨c, inside, rfl⟩ := List.mem_map.mp mem
      exact ⟨c, all c inside, rfl⟩

theorem mem_digits {w : List Char} : w ∈ digits ↔ w ≠ [] ∧ ∀ c ∈ w, c.isDigit = true := by
  rw [digits, Language.mem_mul]
  constructor
  · rintro ⟨_, ⟨c, digit, rfl⟩, rest, others, rfl⟩
    refine ⟨by simp, ?_⟩
    intro d mem
    rcases List.mem_cons.mp mem with rfl | mem
    · exact digit
    · exact mem_star_oneOf.mp others d mem
  · rintro ⟨some, all⟩
    cases w with
    | nil => exact absurd rfl some
    | cons c rest =>
      refine ⟨[c], ⟨c, all c List.mem_cons_self, rfl⟩, rest, ?_, rfl⟩
      exact mem_star_oneOf.mpr fun d mem => all d (List.mem_cons_of_mem _ mem)

theorem mem_word {w : List Char} : w ∈ Pattern.word.language ↔ Text.isWord w = true := by
  rw [Pattern.language, Language.mem_mul]
  constructor
  · rintro ⟨_, ⟨c, start, rfl⟩, cs, others, rfl⟩
    rw [List.singleton_append, Text.isWord, start, Bool.true_and, List.all_eq_true]
    exact mem_star_oneOf.mp others
  · intro word
    cases w with
    | nil => cases word
    | cons c cs =>
      rw [Text.isWord, Bool.and_eq_true, List.all_eq_true] at word
      exact ⟨[c], ⟨c, word.1, rfl⟩, cs, mem_star_oneOf.mpr word.2, rfl⟩

theorem mem_number {w : List Char} :
    w ∈ Pattern.number.language ↔ ∃ whole ∈ digits, ∃ tail ∈ 1 + fraction, ∃ power ∈ 1 + exponent,
      w = whole ++ (tail ++ power) := by
  constructor
  · rintro ⟨whole, digits, _, ⟨tail, fraction, power, exponent, rfl⟩, rfl⟩
    exact ⟨whole, digits, tail, fraction, power, exponent, rfl⟩
  · rintro ⟨whole, digits, tail, fraction, power, exponent, rfl⟩
    exact ⟨whole, digits, _, ⟨tail, fraction, power, exponent, rfl⟩, rfl⟩

/-! ## Numerals -/

theorem digitsLength_of_digits {ds : List Char} (all : ∀ c ∈ ds, c.isDigit = true) (rest : List Char) :
    digitsLength (ds ++ rest) = ds.length + digitsLength rest := by
  rw [digitsLength, List.takeWhile_append_of_pos all, List.length_append, digitsLength]

theorem digitsLength_of_not_isDigit {c : Char} (other : c.isDigit = false) (rest : List Char) :
    digitsLength (c :: rest) = 0 := by
  rw [digitsLength, List.takeWhile_cons_of_neg (by rw [other]; exact Bool.false_ne_true)]
  rfl

theorem take_digitsLength (cs : List Char) : cs.take (digitsLength cs) = cs.takeWhile Char.isDigit :=
  (List.prefix_iff_eq_take.mp (List.takeWhile_prefix _)).symm

/-- The digits in front of a text, if there are any. -/
theorem take_digitsLength_mem {cs : List Char} (some : digitsLength cs ≠ 0) :
    cs.take (digitsLength cs) ∈ digits := by
  rw [take_digitsLength]
  refine mem_digits.mpr ⟨?_, ?_⟩
  · intro none
    rw [digitsLength, none] at some
    exact some rfl
  · intro c mem
    exact List.mem_takeWhile_imp mem

theorem fractionLength_of_mem {w : List Char} (h : w ∈ fraction) (rest : List Char) :
    fractionLength (w ++ rest) = w.length + digitsLength rest := by
  obtain ⟨_, rfl, ds, digits, rfl⟩ := h
  obtain ⟨some, all⟩ := mem_digits.mp digits
  have long : 0 < ds.length := List.length_pos_iff.mpr some
  have length := digitsLength_of_digits all rest
  rw [List.append_assoc, List.singleton_append, fractionLength_cons, if_pos rfl, if_neg (by omega),
    length]
  simp only [List.length_append, List.length_singleton]
  omega

theorem take_fractionLength (cs : List Char) : cs.take (fractionLength cs) ∈ 1 + fraction := by
  cases cs with
  | nil => exact .inl rfl
  | cons c cs =>
    rw [fractionLength_cons]
    by_cases point : c = '.'
    · subst point
      rw [if_pos rfl]
      by_cases none : digitsLength cs = 0
      · rw [if_pos none]
        exact .inl rfl
      · rw [if_neg none]
        exact .inr ⟨_, rfl, _, take_digitsLength_mem none, rfl⟩
    · rw [if_neg point]
      exact .inl rfl

theorem isExponentSign_of_isDigit {c : Char} (digit : c.isDigit = true) : isExponentSign c = false := by
  rw [Bool.eq_false_iff]
  intro sign
  simp only [isExponentSign, Bool.or_eq_true, beq_iff_eq] at sign
  rcases sign with rfl | rfl <;> cases digit

theorem exponentLength_of_mem {w : List Char} (h : w ∈ exponent) (rest : List Char) :
    exponentLength (w ++ rest) = w.length + digitsLength rest := by
  obtain ⟨_, ⟨mark, marks, rfl⟩, _, ⟨sign, signs, ds, digits, rfl⟩, rfl⟩ := h
  obtain ⟨some, all⟩ := mem_digits.mp digits
  have long : 0 < ds.length := List.length_pos_iff.mpr some
  have length := digitsLength_of_digits all rest
  have signLength : exponentSignLength (sign ++ (ds ++ rest)) = sign.length := by
    rcases signs with rfl | ⟨c, signs, rfl⟩
    · cases ds with
      | nil => exact absurd rfl some
      | cons d ds =>
        have plain := isExponentSign_of_isDigit (all d List.mem_cons_self)
        simp [exponentSignLength, plain]
    · simp [exponentSignLength, signs]
  have dropped : (sign ++ (ds ++ rest)).drop sign.length = ds ++ rest := List.drop_left
  rw [List.append_assoc, List.append_assoc, List.singleton_append, exponentLength]
  simp only [isExponentMark] at marks
  simp only [marks, if_true, signLength, dropped, length, List.length_append, List.length_singleton]
  rw [if_neg (by omega)]
  omega

theorem take_exponentLength (cs : List Char) : cs.take (exponentLength cs) ∈ 1 + exponent := by
  cases cs with
  | nil => exact .inl rfl
  | cons c cs =>
    simp only [exponentLength]
    by_cases mark : (c == 'e' || c == 'E') = true
    · rw [if_pos mark]
      by_cases none : digitsLength (cs.drop (exponentSignLength cs)) = 0
      · rw [if_pos none]
        exact .inl rfl
      · rw [if_neg none, Nat.add_comm 1, Nat.add_right_comm, List.take_succ_cons, List.take_add]
        have sign : cs.take (exponentSignLength cs) ∈ 1 + oneOf isExponentSign := by
          cases cs with
          | nil => exact .inl rfl
          | cons d cs =>
            rw [exponentSignLength]
            by_cases sign : isExponentSign d = true
            · rw [if_pos sign]
              exact .inr ⟨d, sign, rfl⟩
            · rw [if_neg sign]
              exact .inl rfl
        exact .inr ⟨[c], ⟨c, mark, rfl⟩, _, ⟨_, sign, _, take_digitsLength_mem none, rfl⟩, rfl⟩
    · rw [if_neg mark]
      exact .inl rfl

/-- A numeral in front of a text that starts with a digit. -/
theorem take_numeralLength_mem {c : Char} (digit : c.isDigit = true) (cs : List Char) :
    (c :: cs).take (numeralLength (c :: cs)) ∈ Pattern.number.language := by
  have some : digitsLength (c :: cs) ≠ 0 := by
    rw [digitsLength, List.takeWhile_cons_of_pos digit]
    exact Nat.succ_ne_zero _
  have tail := take_fractionLength ((c :: cs).drop (digitsLength (c :: cs)))
  have power := take_exponentLength ((c :: cs).drop (digitsLength (c :: cs) +
    fractionLength ((c :: cs).drop (digitsLength (c :: cs)))))
  refine mem_number.mpr ⟨_, take_digitsLength_mem some, _, tail, _, power, ?_⟩
  rw [numeralLength, Nat.add_assoc, List.take_add, List.take_add, List.drop_drop]

/-- Where digits end, a fraction and an exponent may follow. -/
theorem numeralLength_of_digits {ds rest : List Char} (all : ∀ c ∈ ds, c.isDigit = true)
    (ended : digitsLength rest = 0) :
    numeralLength (ds ++ rest) =
      ds.length + fractionLength rest + exponentLength (rest.drop (fractionLength rest)) := by
  have length : digitsLength (ds ++ rest) = ds.length := by
    rw [digitsLength_of_digits all, ended, Nat.add_zero]
  simp only [numeralLength, length, List.drop_left, ← List.drop_drop]

/-- No numeral in front of a text is longer than the one that is read. -/
theorem length_le_numeralLength {w : List Char} (h : w ∈ Pattern.number.language) (rest : List Char) :
    w.length ≤ numeralLength (w ++ rest) := by
  obtain ⟨whole, digits, tail, fractional, power, exponential, rfl⟩ := mem_number.mp h
  obtain ⟨-, all⟩ := mem_digits.mp digits
  -- what an exponent starts with is neither a digit nor a point
  have last : power = [] ∨ digitsLength (power ++ rest) = 0 ∧ fractionLength (power ++ rest) = 0 ∧
      power.length ≤ exponentLength (power ++ rest) := by
    rcases exponential with none | exponential
    · exact .inl none
    · right
      have length := exponentLength_of_mem exponential rest
      obtain ⟨_, ⟨mark, marks, rfl⟩, _, _, rfl⟩ := exponential
      simp only [isExponentMark, Bool.or_eq_true, beq_iff_eq] at marks
      refine ⟨?_, ?_, by omega⟩
      · rcases marks with rfl | rfl <;> exact digitsLength_of_not_isDigit rfl _
      · rcases marks with rfl | rfl <;> rfl
  rw [List.append_assoc, List.append_assoc]
  simp only [List.length_append]
  rcases fractional with none | fractional
  · cases none
    rw [List.nil_append]
    rcases last with rfl | ⟨ended, noFraction, enough⟩
    · have := digitsLength_of_digits all rest
      simp only [numeralLength, List.nil_append, List.length_nil]
      omega
    · rw [numeralLength_of_digits all ended, noFraction, List.drop_zero]
      simp only [List.length_nil]
      omega
  · have ended : digitsLength (tail ++ (power ++ rest)) = 0 := by
      obtain ⟨_, rfl, _, _, rfl⟩ := fractional
      exact digitsLength_of_not_isDigit rfl _
    have length := fractionLength_of_mem fractional (power ++ rest)
    rw [numeralLength_of_digits all ended]
    rcases last with rfl | ⟨noDigit, -, enough⟩
    · simp only [List.length_nil]
      omega
    · rw [length, noDigit, Nat.add_zero, List.drop_left]
      omega

/-! ## Strings -/

theorem append_mem_star {l : Language Char} {u w : List Char} (h : u ∈ l) (h' : w ∈ l∗) :
    u ++ w ∈ l∗ := by
  obtain ⟨pieces, rfl, each⟩ := h'
  refine ⟨u :: pieces, rfl, ?_⟩
  intro piece mem
  rcases List.mem_cons.mp mem with rfl | mem
  · exact h
  · exact each piece mem

theorem ne_backslash {quote : Char} (quotes : isQuote quote = true) : quote ≠ '\\' := by
  rintro rfl
  cases quotes

/-- What a string is made of is read on from its end. -/
theorem quotedLength_of_body {quote : Char} {body : List Char} (h : body ∈ (stringUnit quote)∗)
    (rest : List Char) :
    quotedLength quote (body ++ rest) =
      (body.length + (quotedLength quote rest).1, (quotedLength quote rest).2) := by
  obtain ⟨units, rfl, each⟩ := h
  induction units with
  | nil => simp
  | cons unit units ih =>
    have others := ih fun piece mem => each piece (List.mem_cons_of_mem _ mem)
    rw [List.flatten_cons, List.append_assoc]
    rcases each unit List.mem_cons_self with ⟨c, plain, rfl⟩ | ⟨_, rfl, _, ⟨c, escaped, rfl⟩, rfl⟩
    · simp only [Bool.and_eq_true, bne_iff_ne] at plain
      rw [List.singleton_append, quotedLength_cons plain.2, if_neg plain.1, others]
      simp only [List.length_append, List.length_singleton, Prod.mk.injEq, and_true]
      omega
    · rw [bne_iff_ne] at escaped
      simp only [List.cons_append, List.nil_append, quotedLength, if_neg escaped, others,
        List.length_cons, Prod.mk.injEq, and_true]
      omega

theorem quotedLength_of_backslash (quote : Char) (rest : List Char) :
    1 ≤ (quotedLength quote ('\\' :: rest)).1 := by
  cases rest with
  | nil => exact Nat.le_refl 1
  | cons c rest =>
    rw [quotedLength]
    split
    · exact Nat.le_refl 1
    · exact Nat.le_add_left 1 _

/-- What follows an opening quote is read as the body of a string and either its closing quote or at
most one more backslash. -/
def ReadsBody (quote : Char) (cs : List Char) : Prop :=
  ∃ body ∈ (stringUnit quote)∗,
    (∃ rest, cs = body ++ quote :: rest ∧ quotedLength quote cs = (body.length + 1, true)) ∨
    ∃ last ∈ (1 + {['\\']} : Language Char), ∃ rest, cs = body ++ (last ++ rest) ∧
      quotedLength quote cs = (body.length + last.length, false)

theorem ReadsBody.append {quote : Char} {unit cs : List Char} (h : ReadsBody quote cs)
    (made : unit ∈ stringUnit quote) : ReadsBody quote (unit ++ cs) := by
  obtain ⟨body, others, found⟩ := h
  have one : unit ∈ (stringUnit quote)∗ := by
    simpa using append_mem_star made (Language.nil_mem_kstar _)
  have length := quotedLength_of_body one cs
  refine ⟨unit ++ body, append_mem_star made others, ?_⟩
  rcases found with ⟨rest, rfl, read⟩ | ⟨last, ends, rest, rfl, read⟩
  · refine .inl ⟨rest, (List.append_assoc _ _ _).symm, ?_⟩
    rw [length, read, List.length_append, Nat.add_assoc]
  · refine .inr ⟨last, ends, rest, (List.append_assoc _ _ _).symm, ?_⟩
    rw [length, read, List.length_append, Nat.add_assoc]

theorem readsBody (quote : Char) (cs : List Char) : ReadsBody quote cs := by
  have nothing := Language.nil_mem_kstar (stringUnit quote)
  have plainUnit {c : Char} (plain : c ≠ '\\') (other : c ≠ quote) : [c] ∈ stringUnit quote :=
    .inl ⟨c, by simp [plain, other], rfl⟩
  induction cs using quotedLength.induct quote with
  | case1 => exact ⟨[], nothing, .inr ⟨[], .inl rfl, [], rfl, rfl⟩⟩
  | case2 => exact ⟨[], nothing, .inr ⟨['\\'], .inr rfl, [], rfl, rfl⟩⟩
  | case3 cs => exact ⟨[], nothing, .inr ⟨['\\'], .inr rfl, '\n' :: cs, rfl, rfl⟩⟩
  | case4 c cs plain ih =>
    have escaped : ['\\', c] ∈ stringUnit quote :=
      .inr ⟨_, rfl, _, ⟨c, by simpa using plain, rfl⟩, rfl⟩
    exact ih.append escaped
  | case5 cs last escape =>
    have plain : quote ≠ '\\' := by
      rintro rfl
      cases cs with
      | nil => exact last rfl rfl
      | cons c cs => exact escape c cs rfl rfl
    refine ⟨[], nothing, .inl ⟨cs, rfl, ?_⟩⟩
    rw [quotedLength_cons plain, if_pos rfl]
    rfl
  | case6 c cs last escape other ih =>
    have plain : c ≠ '\\' := by
      rintro rfl
      cases cs with
      | nil => exact last rfl rfl
      | cons c cs => exact escape c cs rfl rfl
    exact ih.append (plainUnit plain other)

/-! ## Characters that start a pattern -/

theorem isDigit_of_isQuote {c : Char} (quotes : isQuote c = true) : c.isDigit = false := by
  simp only [isQuote, Bool.or_eq_true, beq_iff_eq] at quotes
  rcases quotes with (rfl | rfl) | rfl <;> decide

theorem class_of_wordStart {c : Char} (start : Text.isWordStart c = true) :
    c.isDigit = false ∧ isQuote c = false := by
  refine ⟨isDigit_of_isWordStart start, ?_⟩
  by_contra quotes
  rw [Bool.not_eq_false] at quotes
  rw [not_isWordStart (by rw [quotes, Bool.or_true])] at start
  cases start

/-- The signs are those of one character and those of two. -/
theorem text_sign (s : Sign) :
    (∃ c, s.text.toList = [c] ∧ singleSign? c = some s) ∨
      ∃ c d, s.text.toList = [c, d] ∧ doubleSign? c d = some s := by
  cases s <;> first | exact .inl ⟨_, rfl, rfl⟩ | exact .inr ⟨_, _, rfl, rfl⟩

theorem text_of_singleSign? {c : Char} {s : Sign} (h : singleSign? c = some s) :
    s.text.toList = [c] := by
  unfold singleSign? at h
  split at h <;> cases h <;> rfl

theorem text_of_doubleSign? {c d : Char} {s : Sign} (h : doubleSign? c d = some s) :
    s.text.toList = [c, d] := by
  unfold doubleSign? at h
  split at h <;> cases h <;> rfl

theorem class_of_sign {s : Sign} {c : Char} {cs : List Char} (h : s.text.toList = c :: cs) :
    c.isDigit = false ∧ isQuote c = false ∧ Text.isWordStart c = false := by
  cases s <;> cases h <;> decide

theorem isWord_keyword (w : Keyword) : Text.isWord w.text.toList = true := by
  cases w <;> rfl

theorem isWordStart_of_isWord {word : List Char} (spelled : Text.isWord word = true) {c : Char}
    {cs : List Char} (front : word <+: c :: cs) : Text.isWordStart c = true := by
  obtain ⟨rest, whole⟩ := front
  cases word with
  | nil => cases spelled
  | cons d ds =>
    obtain ⟨rfl, rfl⟩ := List.cons.inj whole
    rw [Text.isWord, Bool.and_eq_true] at spelled
    exact spelled.1

/-! ## Lexemes by their first character -/

section Classes

variable {c : Char} (cs : List Char)

theorem numeralLength_pos (digit : c.isDigit = true) : 0 < numeralLength (c :: cs) := by
  have some : 0 < digitsLength (c :: cs) := by
    rw [digitsLength, List.takeWhile_cons_of_pos digit]
    exact Nat.succ_pos _
  simp only [numeralLength]
  omega

theorem take_numeralLength (digit : c.isDigit = true) :
    (c :: cs).take (numeralLength (c :: cs)) = c :: cs.take (numeralLength (c :: cs) - 1) := by
  obtain ⟨more, length⟩ := Nat.exists_eq_succ_of_ne_zero (numeralLength_pos cs digit).ne'
  rw [length, List.take_succ_cons, Nat.succ_sub_one]

theorem lexeme_of_digit (digit : c.isDigit = true) :
    lexeme c cs = (numeralToken (c :: cs.take (numeralLength (c :: cs) - 1)),
      numeralLength (c :: cs) - 1) := by
  rw [lexeme, if_pos digit]

theorem lexeme_of_quote (quotes : isQuote c = true) :
    lexeme c cs = if (quotedLength c cs).2 then
        (stringToken (cs.take ((quotedLength c cs).1 - 1)), (quotedLength c cs).1)
      else (.error .unterminatedString, (quotedLength c cs).1) := by
  rw [lexeme, isDigit_of_isQuote quotes, if_neg Bool.false_ne_true, if_pos quotes]

theorem length_lexeme_of_quote (quotes : isQuote c = true) :
    (lexeme c cs).2 = (quotedLength c cs).1 := by
  rw [lexeme_of_quote cs quotes]
  split <;> rfl

theorem lexeme_of_wordStart (start : Text.isWordStart c = true) :
    lexeme c cs = (.ok (wordToken (c :: cs.take (cs.takeWhile Text.isWordChar).length)),
      (cs.takeWhile Text.isWordChar).length) := by
  obtain ⟨digit, quote⟩ := class_of_wordStart start
  rw [lexeme, digit, quote, if_neg Bool.false_ne_true, if_neg Bool.false_ne_true, if_pos start]

theorem lexeme_of_other (digit : c.isDigit = false) (quote : isQuote c = false)
    (start : Text.isWordStart c = false) :
    lexeme c cs = match sign? c cs with
      | some (sign, more) => (.ok (.sign sign), more)
      | none => (.error (.invalidCharacter c), 0) := by
  rw [← Bool.not_eq_true] at digit quote start
  exact (if_neg digit).trans ((if_neg quote).trans (if_neg start))

end Classes

theorem exists_cons_of_sign {s : Sign} {c : Char} {cs : List Char} (h : s.text.toList <+: c :: cs) :
    ∃ ds, s.text.toList = c :: ds := by
  obtain ⟨rest, whole⟩ := h
  rcases text_sign s with ⟨d, text, -⟩ | ⟨d, d', text, -⟩ <;> rw [text] at whole ⊢ <;> cases whole
  · exact ⟨_, rfl⟩
  · exact ⟨_, rfl⟩

theorem exists_cons_of_number {w : List Char} (h : w ∈ Pattern.number.language) :
    ∃ c cs, w = c :: cs ∧ c.isDigit = true := by
  obtain ⟨whole, digits, tail, -, power, -, rfl⟩ := mem_number.mp h
  obtain ⟨some, all⟩ := mem_digits.mp digits
  cases whole with
  | nil => exact absurd rfl some
  | cons c cs => exact ⟨c, _, rfl, all c List.mem_cons_self⟩

theorem Sign.eq_of_text {s s' : Sign} (h : s.text = s'.text) : s = s' := by
  have scanned := scan_sign_text s
  rw [h, scan_sign_text s'] at scanned
  cases scanned
  rfl

theorem sign?_of_text {s : Sign} {c : Char} {cs : List Char} (h : s.text.toList <+: c :: cs) :
    ∃ found more, sign? c cs = some (found, more) ∧ s.text.toList.length ≤ more + 1 := by
  obtain ⟨rest, whole⟩ := h
  rcases text_sign s with ⟨d, text, single⟩ | ⟨d, d', text, double⟩
  · rw [text] at whole ⊢
    cases whole
    rw [sign?, single]
    split
    · next found _ => exact ⟨found, 1, rfl, by simp⟩
    · exact ⟨s, 0, rfl, by simp⟩
  · rw [text] at whole ⊢
    cases whole
    refine ⟨s, 1, ?_, by simp⟩
    simp [sign?, double]

theorem text_of_sign? {c : Char} {cs : List Char} {s : Sign} {more : Nat}
    (h : sign? c cs = some (s, more)) : s.text.toList = c :: cs.take more := by
  rw [sign?] at h
  split at h
  · next double =>
    cases h
    cases cs with
    | nil => cases double
    | cons d cs => exact text_of_doubleSign? double
  · obtain ⟨found, single, same⟩ := Option.map_eq_some_iff.mp h
    cases same
    exact text_of_singleSign? single

/-! ## What a lexeme may be -/

/-- What may be read from a character on: a numeral, a string with its end or without one, a word, a
sign, or a character that starts no token. -/
inductive Lexes (c : Char) (cs : List Char) : Except LexCause TokenKind × Nat → Prop where
  | number {more : Nat} (within : more ≤ cs.length)
      (matched : c :: cs.take more ∈ Pattern.number.language) :
      Lexes c cs (numeralToken (c :: cs.take more), more)
  | string {body rest : List Char} (quotes : isQuote c = true) (made : body ∈ (stringUnit c)∗)
      (closed : cs = body ++ c :: rest) : Lexes c cs (stringToken body, body.length + 1)
  | openString {body last rest : List Char} (quotes : isQuote c = true)
      (made : body ∈ (stringUnit c)∗) (ends : last ∈ (1 + {['\\']} : Language Char))
      (whole : cs = body ++ (last ++ rest)) :
      Lexes c cs (.error .unterminatedString, body.length + last.length)
  | word {more : Nat} (within : more ≤ cs.length) (spelled : Text.isWord (c :: cs.take more) = true) :
      Lexes c cs (.ok (wordToken (c :: cs.take more)), more)
  | sign {s : Sign} {more : Nat} (within : more ≤ cs.length) (text : s.text.toList = c :: cs.take more) :
      Lexes c cs (.ok (.sign s), more)
  | invalid (digit : c.isDigit = false) (quotes : isQuote c = false)
      (start : Text.isWordStart c = false) (none : sign? c cs = none) :
      Lexes c cs (.error (.invalidCharacter c), 0)

theorem lexes_lexeme (c : Char) (cs : List Char) : Lexes c cs (lexeme c cs) := by
  by_cases digit : c.isDigit = true
  · have matched := take_numeralLength_mem digit cs
    rw [take_numeralLength cs digit] at matched
    rw [lexeme_of_digit cs digit]
    exact .number (Nat.sub_le_of_le_add (numeralLength_le (c :: cs))) matched
  · by_cases quotes : isQuote c = true
    · rw [lexeme_of_quote cs quotes]
      obtain ⟨body, made, ⟨rest, closed, read⟩ | ⟨last, ends, rest, whole, read⟩⟩ := readsBody c cs
      · have inner : cs.take body.length = body := by rw [closed, List.take_left]
        rw [read, if_pos rfl, Nat.add_sub_cancel, inner]
        exact .string quotes made closed
      · rw [read]
        exact .openString quotes made ends whole
    · by_cases start : Text.isWordStart c = true
      · have front := List.takeWhile_prefix (l := cs) Text.isWordChar
        have piece := List.prefix_iff_eq_take.mp front
        have spelled : Text.isWord (c :: cs.takeWhile Text.isWordChar) = true := by
          rw [Text.isWord, start, Bool.true_and, List.all_eq_true]
          intro d mem
          exact List.mem_takeWhile_imp mem
        rw [lexeme_of_wordStart cs start]
        rw [piece] at spelled
        exact .word front.length_le spelled
      · rw [Bool.not_eq_true] at digit quotes start
        rw [lexeme_of_other cs digit quotes start]
        cases found : sign? c cs with
        | none => exact .invalid digit quotes start found
        | some sign => exact .sign (sign?_le found) (text_of_sign? found)

/-- A lexeme is part of the text. -/
theorem length_lexeme_le (c : Char) (cs : List Char) : (lexeme c cs).2 ≤ cs.length := by
  generalize found : lexeme c cs = found
  cases found ▸ lexes_lexeme c cs with
  | number within _ | word within _ | sign within _ => exact within
  | string _ _ closed =>
    rw [closed, List.length_append, List.length_cons]
    omega
  | openString _ _ _ whole =>
    rw [whole, List.length_append, List.length_append]
    omega
  | invalid => exact Nat.zero_le _

/-! ## Longest matches -/

theorem length_le_lexeme_of_isWord {word : List Char} (spelled : Text.isWord word = true) {c : Char}
    {cs : List Char} (front : word <+: c :: cs) : word.length ≤ (lexeme c cs).2 + 1 := by
  obtain ⟨rest, whole⟩ := front
  cases word with
  | nil => cases spelled
  | cons d ds =>
    obtain ⟨rfl, rfl⟩ := List.cons.inj whole
    rw [Text.isWord, Bool.and_eq_true, List.all_eq_true] at spelled
    rw [lexeme_of_wordStart _ spelled.1, List.append_eq, List.takeWhile_append_of_pos spelled.2]
    simp

/-- At least as much is read of a string as stands before its end. -/
theorem length_le_lexeme_of_isQuote {quote : Char} (quotes : isQuote quote = true)
    {body last rest : List Char} (made : body ∈ (stringUnit quote)∗)
    (enough : last.length ≤ (quotedLength quote (last ++ rest)).1) :
    (quote :: (body ++ last)).length ≤ (lexeme quote (body ++ last ++ rest)).2 + 1 := by
  rw [length_lexeme_of_quote _ quotes, List.append_assoc, quotedLength_of_body made]
  simp only [List.length_cons, List.length_append]
  omega

/-- No pattern matches more in front of a text than is read there. -/
theorem length_le_lexeme {p : Pattern} {word : List Char} (matched : word ∈ p.language) {c : Char}
    {cs : List Char} (front : word <+: c :: cs) : word.length ≤ (lexeme c cs).2 + 1 := by
  cases p with
  | sign s =>
    cases matched
    obtain ⟨ds, text⟩ := exists_cons_of_sign front
    obtain ⟨digit, quote, start⟩ := class_of_sign text
    obtain ⟨found, more, read, enough⟩ := sign?_of_text front
    rw [lexeme_of_other _ digit quote start, read]
    exact enough
  | keyword w =>
    cases matched
    exact length_le_lexeme_of_isWord (isWord_keyword w) front
  | word => exact length_le_lexeme_of_isWord (mem_word.mp matched) front
  | number =>
    obtain ⟨rest, whole⟩ := front
    have enough := length_le_numeralLength matched rest
    obtain ⟨d, ds, rfl, digit⟩ := exists_cons_of_number matched
    obtain ⟨rfl, rfl⟩ := List.cons.inj whole
    rw [lexeme_of_digit _ digit]
    exact Nat.le_trans enough (Nat.le_add_of_sub_le (Nat.le_refl _))
  | string quote quotes =>
    obtain ⟨rest, whole⟩ := front
    obtain ⟨_, rfl, _, ⟨body, made, _, rfl, rfl⟩, rfl⟩ := matched
    obtain ⟨rfl, rfl⟩ := List.cons.inj whole
    apply length_le_lexeme_of_isQuote quotes made
    rw [List.singleton_append, quotedLength_cons (ne_backslash quotes), if_pos rfl]
    exact Nat.le_refl 1
  | openString quote quotes =>
    obtain ⟨rest, whole⟩ := front
    obtain ⟨_, rfl, _, ⟨body, made, last, ends, rfl⟩, rfl⟩ := matched
    obtain ⟨rfl, rfl⟩ := List.cons.inj whole
    apply length_le_lexeme_of_isQuote quotes made
    rcases ends with rfl | rfl
    · exact Nat.zero_le _
    · exact quotedLength_of_backslash quote rest

/-- A piece in front of a text is the longest that a pattern matches there. -/
structure Longest (piece after : List Char) : Prop where
  matched : ∃ p : Pattern, piece ∈ p.language
  longest : ∀ (p : Pattern) (word : List Char), word ∈ p.language → word <+: piece ++ after →
    word.length ≤ piece.length

/-- The token that a piece is. A word is a reserved word if it is spelled like one, and else a name. -/
inductive Reads : List Char → TokenKind → Prop where
  | sign (s : Sign) : Reads s.text.toList (.sign s)
  | keyword (w : Keyword) : Reads w.text.toList (.word w)
  | ident {piece : List Char} (matched : piece ∈ Pattern.word.language)
      (plain : ∀ w : Keyword, piece ≠ w.text.toList) : Reads piece (.ident (String.ofList piece))
  | number {piece : List Char} {n : Float} (matched : piece ∈ Pattern.number.language)
      (value : numeralToken piece = .ok (.number n)) : Reads piece (.number n)
  | string {quote : Char} {body : List Char} {s : String} (quotes : isQuote quote = true)
      (made : body ∈ (stringUnit quote)∗)
      (value : stringToken body = .ok (.string s)) : Reads (quote :: (body ++ [quote])) (.string s)

theorem Reads.matched {piece : List Char} {kind : TokenKind} (h : Reads piece kind) :
    ∃ p : Pattern, piece ∈ p.language := by
  cases h with
  | sign s => exact ⟨.sign s, rfl⟩
  | keyword w => exact ⟨.keyword w, rfl⟩
  | ident matched _ => exact ⟨.word, matched⟩
  | number matched _ => exact ⟨.number, matched⟩
  | string quotes made _ => exact ⟨.string _ quotes, _, rfl, _, ⟨_, made, _, rfl, rfl⟩, rfl⟩

theorem Reads.ne_endOfText {piece : List Char} {kind : TokenKind} (h : Reads piece kind) :
    kind ≠ .endOfText := by
  cases h <;> nofun

theorem ofText?_text (w : Keyword) : Keyword.ofText? w.text = some w := by
  cases w <;> rfl

theorem eq_text_of_ofText? {text : String} {w : Keyword} (found : Keyword.ofText? text = some w) :
    text = w.text := by
  have same := List.find?_some found
  exact (beq_iff_eq.mp same).symm

theorem wordToken_text (w : Keyword) : wordToken w.text.toList = .word w := by
  rw [wordToken, String.ofList_toList]
  simp only [ofText?_text]

theorem reads_wordToken {piece : List Char} (word : Text.isWord piece = true) :
    Reads piece (wordToken piece) := by
  rw [wordToken]
  cases found : Keyword.ofText? (String.ofList piece) with
  | some w =>
    have text := eq_text_of_ofText? found
    have spelled : piece = w.text.toList := by rw [← text, String.toList_ofList]
    rw [spelled]
    exact .keyword w
  | none =>
    refine .ident (mem_word.mpr word) ?_
    rintro w rfl
    rw [String.ofList_toList, ofText?_text] at found
    cases found

/-- How a piece is read is decided by its first character. -/
theorem Reads.start {c : Char} {ds : List Char} {kind : TokenKind} (h : Reads (c :: ds) kind) :
    (c.isDigit = true ∧ numeralToken (c :: ds) = .ok kind) ∨
    (isQuote c = true ∧ ∃ body ∈ (stringUnit c)∗, ds = body ++ [c] ∧ stringToken body = .ok kind) ∨
    (Text.isWordStart c = true ∧ kind = wordToken (c :: ds)) ∨
    ∃ s : Sign, kind = .sign s ∧ s.text.toList = c :: ds := by
  generalize spelled : c :: ds = piece at h
  have front : piece <+: c :: ds := spelled ▸ List.prefix_refl _
  cases h with
  | sign s => exact .inr (.inr (.inr ⟨s, rfl, rfl⟩))
  | keyword w =>
    exact .inr (.inr (.inl ⟨isWordStart_of_isWord (isWord_keyword w) front,
      (wordToken_text w).symm⟩))
  | ident matched plain =>
    refine .inr (.inr (.inl ⟨isWordStart_of_isWord (mem_word.mp matched) front, ?_⟩))
    rw [wordToken]
    cases found : Keyword.ofText? (String.ofList piece) with
    | none => rfl
    | some w =>
      refine absurd ?_ (plain w)
      rw [← eq_text_of_ofText? found, String.toList_ofList]
  | number matched value =>
    obtain ⟨d, ds', same, digit⟩ := exists_cons_of_number matched
    rw [← spelled] at same
    cases same
    exact .inl ⟨digit, value⟩
  | string quotes made value =>
    cases spelled
    exact .inr (.inl ⟨quotes, _, made, rfl, value⟩)

/-- A token is a reserved word exactly if its piece is spelled like one. -/
theorem Reads.word_iff {piece : List Char} {kind : TokenKind} (h : Reads piece kind) (w : Keyword) :
    kind = .word w ↔ piece = w.text.toList := by
  constructor
  · rintro rfl
    cases h
    rfl
  · intro spelled
    cases piece with
    | nil => cases w <;> cases spelled
    | cons c ds =>
      have front : w.text.toList <+: c :: ds := spelled ▸ List.prefix_refl _
      have start := isWordStart_of_isWord (isWord_keyword w) front
      obtain ⟨digit, quotes⟩ := class_of_wordStart start
      rcases h.start with ⟨other, _⟩ | ⟨other, _⟩ | ⟨_, rfl⟩ | ⟨s, _, text⟩
      · rw [digit] at other
        cases other
      · rw [quotes] at other
        cases other
      · rw [spelled, wordToken_text]
      · rw [(class_of_sign text).2.2] at start
        cases start

/-- Numerals give numbers only. -/
theorem eq_number_of_numeralToken {piece : List Char} {kind : TokenKind}
    (h : numeralToken piece = .ok kind) : ∃ n, kind = .number n := by
  simp only [numeralToken] at h
  split at h <;> cases h
  exact ⟨_, rfl⟩

theorem eq_string_of_stringToken {body : List Char} {kind : TokenKind}
    (h : stringToken body = .ok kind) : ∃ s, kind = .string s := by
  rw [stringToken] at h
  split at h <;> cases h
  exact ⟨_, rfl⟩

/-- A lexeme is read as what its piece is. -/
theorem reads_of_lexeme {c : Char} {cs : List Char} {kind : TokenKind} {more : Nat}
    (h : lexeme c cs = (.ok kind, more)) : Reads (c :: cs.take more) kind := by
  have lexes := lexes_lexeme c cs
  generalize found : lexeme c cs = found at h lexes
  cases lexes with
  | number _ matched =>
    obtain ⟨value, rfl⟩ := Prod.mk.inj h
    obtain ⟨n, rfl⟩ := eq_number_of_numeralToken value
    exact .number matched value
  | string quotes made closed =>
    obtain ⟨value, rfl⟩ := Prod.mk.inj h
    obtain ⟨s, rfl⟩ := eq_string_of_stringToken value
    rw [closed, List.take_length_add_append, List.take_one, List.head?_cons]
    exact .string quotes made value
  | openString | invalid => cases h
  | word _ spelled =>
    cases h
    exact reads_wordToken spelled
  | sign _ text =>
    cases h
    rw [← text]
    exact .sign _

/-- A lexeme is matched by a pattern, unless its character is not valid. -/
theorem lexeme_matched {c : Char} {cs : List Char}
    (valid : (lexeme c cs).1 ≠ .error (.invalidCharacter c)) :
    ∃ p : Pattern, c :: cs.take (lexeme c cs).2 ∈ p.language := by
  have lexes := lexes_lexeme c cs
  generalize found : lexeme c cs = found at valid lexes ⊢
  cases lexes with
  | number _ matched => exact ⟨.number, matched⟩
  | @string body rest quotes made closed =>
    refine ⟨.string c quotes, _, rfl, _, ⟨body, made, _, rfl, rfl⟩, ?_⟩
    rw [closed, List.take_length_add_append, List.take_one, List.head?_cons]
    rfl
  | @openString body last rest quotes made ends whole =>
    refine ⟨.openString c quotes, _, rfl, _, ⟨body, made, last, ends, rfl⟩, ?_⟩
    rw [whole, List.take_length_add_append, List.take_left]
    rfl
  | word _ spelled => exact ⟨.word, mem_word.mpr spelled⟩
  | @sign s more _ text => exact ⟨.sign s, text.symm⟩
  | invalid => exact absurd rfl valid

/-- What starts a pattern is read as the start of a lexeme. -/
theorem start_of_matched {p : Pattern} {word : List Char} (matched : word ∈ p.language) {c : Char}
    {cs : List Char} (front : word <+: c :: cs) :
    c.isDigit = true ∨ isQuote c = true ∨ Text.isWordStart c = true ∨
      (sign? c cs).isSome = true := by
  cases p with
  | sign s =>
    cases matched
    obtain ⟨found, more, read, -⟩ := sign?_of_text front
    rw [read]
    exact .inr (.inr (.inr rfl))
  | keyword w =>
    cases matched
    exact .inr (.inr (.inl (isWordStart_of_isWord (isWord_keyword w) front)))
  | word => exact .inr (.inr (.inl (isWordStart_of_isWord (mem_word.mp matched) front)))
  | number =>
    obtain ⟨rest, whole⟩ := front
    obtain ⟨d, ds, rfl, digit⟩ := exists_cons_of_number matched
    obtain ⟨rfl, rfl⟩ := List.cons.inj whole
    exact .inl digit
  | string quote quotes | openString quote quotes =>
    obtain ⟨rest, whole⟩ := front
    obtain ⟨_, rfl, _, -, rfl⟩ := matched
    obtain ⟨rfl, rfl⟩ := List.cons.inj whole
    exact .inr (.inl quotes)

theorem sign?_of_invalid {c : Char} {cs : List Char}
    (invalid : (lexeme c cs).1 = .error (.invalidCharacter c)) :
    c.isDigit = false ∧ isQuote c = false ∧ Text.isWordStart c = false ∧ sign? c cs = none := by
  have lexes := lexes_lexeme c cs
  generalize found : lexeme c cs = found at invalid lexes
  cases lexes with
  | number =>
    simp only [numeralToken] at invalid
    split at invalid <;> cases invalid
  | string =>
    simp only [stringToken] at invalid
    split at invalid <;> cases invalid
  | openString | word | sign => cases invalid
  | invalid digit quotes start none => exact ⟨digit, quotes, start, none⟩

/-- Where a character is not valid, no pattern matches. -/
theorem not_matched_of_invalid {c : Char} {cs : List Char}
    (invalid : (lexeme c cs).1 = .error (.invalidCharacter c)) {p : Pattern} {word : List Char}
    (matched : word ∈ p.language) : ¬ word <+: c :: cs := by
  intro front
  have starts := start_of_matched matched front
  obtain ⟨digit, quotes, start, none⟩ := sign?_of_invalid invalid
  simp [digit, quotes, start, none] at starts

/-- A lexeme is the longest match in front of a text, unless its character is not valid. -/
theorem longest_lexeme {c : Char} {cs : List Char}
    (valid : (lexeme c cs).1 ≠ .error (.invalidCharacter c)) :
    Longest (c :: cs.take (lexeme c cs).2) (cs.drop (lexeme c cs).2) := by
  constructor
  · exact lexeme_matched valid
  · intro p word matched front
    rw [List.cons_append, List.take_append_drop] at front
    rw [List.length_cons, List.length_take_of_le (length_lexeme_le c cs)]
    exact length_le_lexeme matched front

/-- The longest match in front of a text is as long as its lexeme. -/
theorem length_lexeme_of_longest {c : Char} {piece after : List Char}
    (longest : Longest (c :: piece) after) : (lexeme c (piece ++ after)).2 = piece.length := by
  obtain ⟨p, matched⟩ := longest.matched
  have front : c :: piece <+: c :: (piece ++ after) := ⟨after, rfl⟩
  have valid : (lexeme c (piece ++ after)).1 ≠ .error (.invalidCharacter c) := by
    intro invalid
    exact not_matched_of_invalid invalid matched front
  obtain ⟨p', matched'⟩ := lexeme_matched valid
  have part : c :: (piece ++ after).take (lexeme c (piece ++ after)).2 <+: c :: piece ++ after := by
    rw [List.cons_append, List.cons_prefix_cons]
    exact ⟨rfl, List.take_prefix _ _⟩
  have atLeast := length_le_lexeme matched front
  have atMost := longest.longest p' _ matched' part
  rw [List.length_cons, List.length_take_of_le (length_lexeme_le _ _)] at atMost
  rw [List.length_cons] at atLeast atMost
  omega

/-- The longest match in front of a text is its lexeme, if the match can be read at all. -/
theorem lexeme_of_reads {c : Char} {piece after : List Char} {kind : TokenKind}
    (reads : Reads (c :: piece) kind) (longest : Longest (c :: piece) after) :
    lexeme c (piece ++ after) = (.ok kind, piece.length) := by
  have length := length_lexeme_of_longest longest
  rcases reads.start with
    ⟨digit, value⟩ | ⟨quotes, body, made, rfl, value⟩ | ⟨start, rfl⟩ | ⟨s, rfl, text⟩
  · rw [lexeme_of_digit _ digit] at length ⊢
    simp only at length
    rw [length, List.take_left, value]
  · have closed : quotedLength c (body ++ [c] ++ after) = (body.length + 1, true) := by
      rw [List.append_assoc, quotedLength_of_body made, List.singleton_append,
        quotedLength_cons (ne_backslash quotes), if_pos rfl]
    rw [lexeme_of_quote _ quotes, closed]
    simp only [if_true, Nat.add_sub_cancel, List.append_assoc, List.take_left, value,
      List.length_append, List.length_singleton]
  · rw [lexeme_of_wordStart _ start] at length ⊢
    simp only at length
    rw [length, List.take_left]
  · obtain ⟨digit, quotes, start⟩ := class_of_sign text
    have front : s.text.toList <+: c :: (piece ++ after) := text ▸ ⟨after, rfl⟩
    obtain ⟨found, more, read, -⟩ := sign?_of_text front
    rw [lexeme_of_other _ digit quotes start, read] at length ⊢
    simp only at length
    subst length
    have same := text_of_sign? read
    rw [List.take_left, ← text] at same
    rw [Sign.eq_of_text (String.toList_inj.mp same)]

/-- A lexeme that fails cannot be read as any token. -/
theorem not_reads_of_error {c : Char} {cs : List Char} {cause : LexCause}
    (failed : (lexeme c cs).1 = .error cause) (kind : TokenKind) :
    ¬ Reads (c :: cs.take (lexeme c cs).2) kind := by
  intro reads
  have valid : (lexeme c cs).1 ≠ .error (.invalidCharacter c) := by
    intro invalid
    obtain ⟨p, matched⟩ := reads.matched
    exact not_matched_of_invalid invalid matched ⟨_, congrArg (c :: ·) (List.take_append_drop _ cs)⟩
  have read := lexeme_of_reads reads (longest_lexeme valid)
  rw [List.take_append_drop] at read
  rw [read] at failed
  cases failed

end FormulaDoc.Lexer
