import Mathlib
import FormulaDoc.Formula.Parser

/-!
# Tokens in a longer text

Brackets, commas and spaces break a text: no token from before goes on with one. The tokens of a text
are therefore tokens of any longer text in which it is followed by a break, with their spans moved to
where it stands.
-/
namespace FormulaDoc

def Token.shift (offset : Nat) (token : Token) : Token := ⟨token.kind, token.span.shift offset⟩

@[simp]
theorem Token.kind_shift (offset : Nat) (token : Token) : (token.shift offset).kind = token.kind := rfl

@[simp]
theorem Token.span_shift (offset : Nat) (token : Token) :
    (token.shift offset).span = token.span.shift offset := rfl

namespace Lexer

/-- The characters that no token goes on with. -/
def breakChars : List Char := ['(', ')', '[', ']', ',', ' ', '\t', '\r', '\n']

theorem of_mem_breakChars {p : Char → Bool} (none : breakChars.any p = false) {c : Char}
    (mem : c ∈ breakChars) : p c = false := by
  simpa using List.any_eq_false.mp none c mem

/-- Whether no token from before goes on with a text. -/
def Breaks (cs : List Char) : Prop := ∀ c rest, cs = c :: rest → c ∈ breakChars

theorem breaks_nil : Breaks [] := nofun

theorem breaks_cons (c : Char) (mem : c ∈ breakChars) (cs : List Char) : Breaks (c :: cs) := by
  rintro _ _ ⟨⟩
  exact mem

@[simp]
theorem byteLength_cons (c : Char) (cs : List Char) :
    byteLength (c :: cs) = c.utf8Size + byteLength cs := rfl

@[simp]
theorem byteLength_append (cs cs' : List Char) :
    byteLength (cs ++ cs') = byteLength cs + byteLength cs' := by
  induction cs with
  | nil => exact (Nat.zero_add _).symm
  | cons c cs ih => rw [List.cons_append, byteLength_cons, byteLength_cons, ih, Nat.add_assoc]

theorem byteLength_toList (s : String) : byteLength s.toList = s.utf8ByteSize := by
  have same : ∀ cs : List Char, byteLength cs = String.utf8Len cs := by
    intro cs
    induction cs with
    | nil => rfl
    | cons c cs ih => rw [byteLength_cons, ih, String.utf8Len_cons, Nat.add_comm]
  rw [same, ← String.utf8ByteSize_ofList, String.ofList_toList]

/-! ## Numbers -/

theorem fractionLength_cons (c : Char) (cs : List Char) :
    fractionLength (c :: cs) =
      if c = '.' then (if digitsLength cs = 0 then 0 else digitsLength cs + 1) else 0 := by
  unfold fractionLength
  split
  · rename_i same
    cases same
    rfl
  · rename_i other
    exact (if_neg fun same => other cs (by rw [same])).symm

theorem digitsLength_le (cs : List Char) : digitsLength cs ≤ cs.length :=
  (List.takeWhile_prefix _).length_le

theorem fractionLength_le (cs : List Char) : fractionLength cs ≤ cs.length := by
  cases cs with
  | nil => exact Nat.le_refl _
  | cons c cs =>
    have := digitsLength_le cs
    rw [fractionLength_cons, List.length_cons]
    split_ifs <;> omega

theorem exponentSignLength_le (cs : List Char) : exponentSignLength cs ≤ cs.length := by
  cases cs with
  | nil => exact Nat.le_refl _
  | cons c cs =>
    rw [exponentSignLength, List.length_cons]
    split_ifs <;> omega

theorem exponentLength_le (cs : List Char) : exponentLength cs ≤ cs.length := by
  cases cs with
  | nil => exact Nat.le_refl _
  | cons c cs =>
    have := exponentSignLength_le cs
    have := digitsLength_le (cs.drop (exponentSignLength cs))
    rw [List.length_drop] at this
    simp only [exponentLength, List.length_cons]
    split_ifs <;> omega

theorem whole_le (cs : List Char) :
    digitsLength cs + fractionLength (cs.drop (digitsLength cs)) ≤ cs.length := by
  have := digitsLength_le cs
  have := fractionLength_le (cs.drop (digitsLength cs))
  rw [List.length_drop] at this
  omega

theorem numeralLength_le (cs : List Char) : numeralLength cs ≤ cs.length := by
  have := whole_le cs
  have := exponentLength_le (cs.drop (digitsLength cs + fractionLength (cs.drop (digitsLength cs))))
  rw [List.length_drop] at this
  simp only [numeralLength]
  omega

section Lexemes

variable {rest : List Char} (breaks : Breaks rest)

include breaks

theorem takeWhile_append {p : Char → Bool} (none : breakChars.any p = false) (cs : List Char) :
    (cs ++ rest).takeWhile p = cs.takeWhile p := by
  rw [List.takeWhile_append]
  split
  · rename_i all
    have nothing : rest.takeWhile p = [] := by
      cases rest with
      | nil => rfl
      | cons c rest =>
        rw [List.takeWhile_cons, of_mem_breakChars none (breaks c rest rfl)]
        rfl
    rw [nothing, List.append_nil]
    exact ((List.takeWhile_prefix p).eq_of_length all).symm
  · rfl

theorem digitsLength_append (cs : List Char) : digitsLength (cs ++ rest) = digitsLength cs := by
  rw [digitsLength, takeWhile_append breaks (by decide), digitsLength]

theorem fractionLength_append (cs : List Char) : fractionLength (cs ++ rest) = fractionLength cs := by
  cases cs with
  | nil =>
    cases rest with
    | nil => rfl
    | cons c rest =>
      have other : (c == '.') = false :=
        of_mem_breakChars (p := (· == '.')) (by decide) (breaks c rest rfl)
      rw [List.nil_append, fractionLength_cons, if_neg (beq_eq_false_iff_ne.mp other), fractionLength]
      nofun
  | cons c cs =>
    rw [List.cons_append, fractionLength_cons, fractionLength_cons, digitsLength_append breaks]

theorem exponentSignLength_append (cs : List Char) :
    exponentSignLength (cs ++ rest) = exponentSignLength cs := by
  cases cs with
  | nil =>
    cases rest with
    | nil => rfl
    | cons c rest =>
      have other : isExponentSign c = false := of_mem_breakChars (by decide) (breaks c rest rfl)
      rw [List.nil_append, exponentSignLength, other, exponentSignLength]
      rfl
  | cons c cs => rfl

theorem exponentLength_append (cs : List Char) : exponentLength (cs ++ rest) = exponentLength cs := by
  cases cs with
  | nil =>
    cases rest with
    | nil => rfl
    | cons c rest =>
      have other : (c == 'e' || c == 'E') = false :=
        of_mem_breakChars (p := fun c => c == 'e' || c == 'E') (by decide) (breaks c rest rfl)
      rw [List.nil_append, exponentLength, other, exponentLength]
      rfl
  | cons c cs =>
    simp only [List.cons_append, exponentLength, exponentSignLength_append breaks,
      List.drop_append_of_le_length (exponentSignLength_le cs), digitsLength_append breaks]

theorem numeralLength_append (cs : List Char) : numeralLength (cs ++ rest) = numeralLength cs := by
  simp only [numeralLength, digitsLength_append breaks,
    List.drop_append_of_le_length (digitsLength_le cs), fractionLength_append breaks,
    List.drop_append_of_le_length (whole_le cs), exponentLength_append breaks]

/-! ## Strings and signs -/

omit breaks in
/-- A string that is closed ends at its quote, whatever follows. -/
theorem quotedLength_append {quote : Char} {cs : List Char} (closed : (quotedLength quote cs).2 = true)
    (rest : List Char) :
    quotedLength quote (cs ++ rest) = quotedLength quote cs ∧ (quotedLength quote cs).1 ≤ cs.length := by
  fun_induction quotedLength quote cs with
  | case1 | case2 | case3 => exact absurd closed nofun
  | case4 c cs plain tail ih =>
    obtain ⟨same, le⟩ := ih closed
    simp only [List.cons_append, quotedLength, if_neg plain, same, List.length_cons]
    exact ⟨rfl, Nat.add_le_add_right le 2⟩
  | case5 cs last escape =>
    have plain : quote ≠ '\\' := fun same => by
      cases cs with
      | nil => exact last same rfl
      | cons c cs => exact escape c cs same rfl
    rw [List.cons_append, quotedLength_cons plain, if_pos rfl, List.length_cons]
    exact ⟨rfl, Nat.le_add_left 1 _⟩
  | case6 c cs last escape other tail ih =>
    have plain : c ≠ '\\' := fun same => by
      cases cs with
      | nil => exact last same rfl
      | cons c cs => exact escape c cs same rfl
    obtain ⟨same, le⟩ := ih closed
    rw [List.cons_append, quotedLength_cons plain, if_neg other, same, List.length_cons]
    exact ⟨rfl, Nat.add_le_add_right le 1⟩

omit breaks in
theorem sign?_le {c : Char} {cs : List Char} {found : Sign × Nat} (h : sign? c cs = some found) :
    found.2 ≤ cs.length := by
  unfold sign? at h
  split at h
  · rename_i double
    cases h
    cases cs with
    | nil => cases double
    | cons _ _ => exact Nat.succ_le_succ (Nat.zero_le _)
  · obtain ⟨_, _, rfl⟩ := Option.map_eq_some_iff.mp h
    exact Nat.zero_le _

theorem sign?_append (c : Char) (cs : List Char) : sign? c (cs ++ rest) = sign? c cs := by
  cases cs with
  | nil =>
    cases rest with
    | nil => rfl
    | cons next rest =>
      have other : (next == '=' || next == '&' || next == '|') = false :=
        of_mem_breakChars (p := fun c => c == '=' || c == '&' || c == '|') (by decide)
          (breaks next rest rfl)
      rw [List.nil_append, sign?, List.head?_cons, Option.bind_some, doubleSign?_eq_none other]
      rfl
  | cons _ _ => rfl

/-! ## Lexemes and tokens -/

/-- A lexeme ends before a break. -/
theorem lexeme_append {c : Char} {cs : List Char} {kind : TokenKind} {more : Nat}
    (found : lexeme c cs = (.ok kind, more)) :
    lexeme c (cs ++ rest) = (.ok kind, more) ∧ more ≤ cs.length := by
  unfold lexeme at found ⊢
  split at found
  · rename_i digit
    obtain ⟨read, rfl⟩ := Prod.mk.inj found
    have le : numeralLength (c :: cs) - 1 ≤ cs.length :=
      Nat.sub_le_of_le_add (numeralLength_le (c :: cs))
    rw [if_pos digit, ← List.cons_append, numeralLength_append breaks]
    simp only [List.take_append_of_le_length le, read]
    exact ⟨trivial, le⟩
  · rename_i digit
    rw [if_neg digit]
    split at found
    · rename_i quote
      rw [if_pos quote]
      simp only at found
      split at found
      · rename_i closed
        obtain ⟨read, rfl⟩ := Prod.mk.inj found
        obtain ⟨same, le⟩ := quotedLength_append closed rest
        simp only [same, if_pos closed, read,
          List.take_append_of_le_length (Nat.le_trans (Nat.sub_le _ 1) le)]
        exact ⟨trivial, le⟩
      · cases found
    · rename_i quote
      rw [if_neg quote]
      split at found
      · rename_i start
        obtain ⟨read, rfl⟩ := Prod.mk.inj found
        have le := (List.takeWhile_prefix (l := cs) Text.isWordChar).length_le
        rw [if_pos start, takeWhile_append breaks (by decide)]
        simp only [List.take_append_of_le_length le, read]
        exact ⟨trivial, le⟩
      · rename_i start
        rw [if_neg start, sign?_append breaks]
        split at found
        · rename_i sign
          cases found
          exact ⟨rfl, sign?_le sign⟩
        · cases found

omit breaks in
theorem scan_lexeme {c : Char} {cs : List Char} {kind : TokenKind} {more : Nat}
    (space : ¬isSpacing c = true) (found : lexeme c cs = (.ok kind, more)) (offset : Nat) :
    scan offset (c :: cs) =
      (scan (offset + c.utf8Size + byteLength (cs.take more)) (cs.drop more)).map
        (⟨kind, ⟨offset, offset + c.utf8Size + byteLength (cs.take more)⟩⟩ :: ·) := by
  rw [scan, if_neg space]
  simp only [found]
  cases scan (offset + c.utf8Size + byteLength (cs.take more)) (cs.drop more) <;> rfl

/-- The tokens of a text are those of a longer one up to the break that follows it. -/
theorem scan_append {offset : Nat} {cs : List Char} {tokens : List Token}
    (scanned : scan offset cs = .ok tokens) (d : Nat) :
    scan (offset + d) (cs ++ rest) =
      (scan (offset + d + byteLength cs) rest).map (tokens.map (Token.shift d) ++ ·) := by
  fun_induction scan offset cs generalizing tokens with
  | case1 offset =>
    cases scanned
    change scan (offset + d) rest = (scan (offset + d) rest).map ([] ++ ·)
    cases scan (offset + d) rest <;> rfl
  | case2 offset c cs space ih =>
    rw [List.cons_append, scan_space space, byteLength_cons, ← Nat.add_assoc,
      Nat.add_right_comm offset d, ih scanned]
  | case3 | case4 => cases scanned
  | case5 offset c cs space found stop kind read others scanned' =>
    rename_i ih
    cases scanned
    obtain ⟨same, le⟩ := lexeme_append breaks (Prod.ext read rfl : lexeme c cs = (.ok kind, found.2))
    have moved : offset + d + c.utf8Size + byteLength (cs.take found.2) = stop + d := by
      simp only [stop]
      omega
    have whole : stop + d + byteLength (cs.drop found.2) = offset + d + byteLength (c :: cs) := by
      rw [← moved, Nat.add_assoc, ← byteLength_append, List.take_append_drop, byteLength_cons,
        Nat.add_assoc]
    rw [List.cons_append, scan_lexeme space same, List.take_append_of_le_length le,
      List.drop_append_of_le_length le, moved, ih scanned', whole]
    cases scan (offset + d + byteLength (c :: cs)) rest <;> rfl

end Lexemes

/-! ## Pieces of a text -/

/-- Scanning a text at an offset gives some tokens first and goes on with a rest. -/
def Scans (offset : Nat) (cs : List Char) (tokens : List Token) (stop : Nat) (rest : List Char) : Prop :=
  scan offset cs = (scan stop rest).map (tokens ++ ·)

theorem scan_eq_of_scans {offset stop : Nat} {cs : List Char} {tokens : List Token}
    (scans : Scans offset cs tokens stop []) : scan offset cs = .ok tokens := by
  rw [Scans, scan_nil] at scans
  rw [scans]
  exact congrArg Except.ok (List.append_nil tokens)

theorem Scans.trans {offset middle stop : Nat} {cs rest rest' : List Char} {tokens tokens' : List Token}
    (first : Scans offset cs tokens middle rest) (next : Scans middle rest tokens' stop rest') :
    Scans offset cs (tokens ++ tokens') stop rest' := by
  rw [Scans] at *
  rw [first, next]
  cases scan stop rest' with
  | error _ => rfl
  | ok _ => exact congrArg Except.ok (List.append_assoc _ _ _).symm

theorem scans_text {s : String} {tokens : List Token} (scanned : FormulaDoc.scan s = .ok tokens)
    {rest : List Char} (breaks : Breaks rest) (offset : Nat) :
    Scans offset (s.toList ++ rest) (tokens.map (Token.shift offset)) (offset + s.utf8ByteSize)
      rest := by
  have appended := scan_append breaks scanned offset
  rwa [Nat.zero_add, byteLength_toList] at appended

theorem scans_blank (offset : Nat) (rest : List Char) :
    Scans offset (' ' :: rest) [] (offset + 1) rest := by
  rw [Scans, scan_space (by decide)]
  change scan (offset + 1) rest = _
  cases scan (offset + 1) rest <;> rfl

/-- The characters that are signs of their own, whatever follows. -/
def signChars : List (Char × Sign) :=
  [('(', .openParen), (')', .closeParen), ('[', .openBracket), (']', .closeBracket), (',', .comma),
    ('.', .dot), ('-', .minus)]

theorem scans_sign (c : Char) (sign : Sign) (mem : (c, sign) ∈ signChars) (offset : Nat)
    (rest : List Char) :
    Scans offset (c :: rest) [⟨.sign sign, ⟨offset, offset + 1⟩⟩] (offset + 1) rest := by
  have all : ∀ entry ∈ signChars, ¬isSpacing entry.1 = true ∧ entry.1.utf8Size = 1 ∧
      entry.1.isDigit = false ∧ isQuote entry.1 = false ∧ Text.isWordStart entry.1 = false ∧
      singleSign? entry.1 = some entry.2 := by decide
  have alone : ∀ entry ∈ signChars, ∀ next, doubleSign? entry.1 next = none := by
    simp [signChars, doubleSign?]
  obtain ⟨space, size, digit, quote, word, single⟩ := all _ mem
  have found : lexeme c rest = (.ok (.sign sign), 0) := by
    have written : sign? c rest = some (sign, 0) := by
      have double : rest.head?.bind (doubleSign? c) = none := by
        cases rest with
        | nil => rfl
        | cons next _ => exact alone _ mem next
      rw [sign?, double]
      exact congrArg (Option.map (·, 0)) single
    simp only [lexeme, digit, quote, word, written, Bool.false_eq_true, if_false]
  rw [Scans, scan_lexeme space found, size]
  rfl

theorem isDigit_of_isWordStart {c : Char} (start : Text.isWordStart c = true) : c.isDigit = false := by
  rw [Bool.eq_false_iff]
  intro digit
  simp only [Text.isWordStart, Char.isAlpha, Char.isUpper, Char.isLower, Char.isDigit, Bool.or_eq_true,
    Bool.and_eq_true, decide_eq_true_eq, ge_iff_le, UInt32.le_iff_toNat_le, beq_iff_eq] at start digit
  change 48 ≤ c.val.toNat ∧ c.val.toNat ≤ 57 at digit
  rcases start with (upper | lower) | rfl
  · change 65 ≤ c.val.toNat ∧ c.val.toNat ≤ 90 at upper
    omega
  · change 97 ≤ c.val.toNat ∧ c.val.toNat ≤ 122 at lower
    omega
  · exact absurd digit (by decide)

/-- Neither a space nor a quote starts a word. -/
theorem not_isWordStart {c : Char} (other : (isSpacing c || isQuote c) = true) :
    Text.isWordStart c = false := by
  simp only [isSpacing, isQuote, Bool.or_eq_true, beq_iff_eq] at other
  rcases other with ((((rfl | rfl) | rfl) | rfl) | ((rfl | rfl) | rfl)) <;> rfl

/-- A word is one token. -/
theorem scan_word {s : String} (word : Text.isWord s.toList = true) :
    FormulaDoc.scan s = .ok [⟨wordToken s.toList, ⟨0, s.utf8ByteSize⟩⟩] := by
  rw [FormulaDoc.scan, ← byteLength_toList]
  cases spelled : s.toList with
  | nil => rw [spelled] at word; cases word
  | cons c cs =>
    rw [spelled, Text.isWord, Bool.and_eq_true] at word
    obtain ⟨start, others⟩ := word
    have plain : (isSpacing c || isQuote c) = false := by
      by_contra other
      rw [not_isWordStart (Bool.eq_true_of_not_eq_false other)] at start
      cases start
    obtain ⟨space, quote⟩ := Bool.or_eq_false_iff.mp plain
    have whole : cs.takeWhile Text.isWordChar = cs := by
      rw [List.takeWhile_eq_self_iff]
      exact List.all_eq_true.mp others
    have found : lexeme c cs = (.ok (wordToken (c :: cs)), cs.length) := by
      simp only [lexeme, isDigit_of_isWordStart start, quote, start, whole, List.take_length,
        Bool.false_eq_true, if_false, if_true]
    rw [scan_lexeme (Bool.eq_false_iff.mp space) found, List.take_length, List.drop_length, scan_nil,
      Nat.zero_add]
    rfl

/-- Every sign and every reserved word is scanned as itself. -/
theorem scan_sign_text (sign : Sign) :
    FormulaDoc.scan sign.text = .ok [⟨.sign sign, ⟨0, sign.text.utf8ByteSize⟩⟩] := by
  cases sign <;> cbv

theorem scan_keyword_text (w : Keyword) :
    FormulaDoc.scan w.text = .ok [⟨.word w, ⟨0, w.text.utf8ByteSize⟩⟩] := by
  cases w <;> cbv

end Lexer

end FormulaDoc
