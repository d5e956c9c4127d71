import FormulaDoc.Proofs.Formula.Reading
import FormulaDoc.Proofs.Formula.Tiling

/-!
# Spaces between tokens

No token reaches over spaces that follow one, and none is read otherwise for what comes after them. So
the tokens of two texts with spaces in between are those of the one and those of the other, and other
spaces where no token goes on make no other tokens, and no other tree.
-/
namespace FormulaDoc

def LexError.shift (offset : Nat) (e : LexError) : LexError := ⟨e.cause, e.span.shift offset⟩

namespace Lexer

/-! ## Moving a text -/

/-- What has been read from a text, with its spans moved to where the text stands. -/
def moved (offset : Nat) : Except LexError (List Token) → Except LexError (List Token)
  | .ok tokens => .ok (tokens.map (Token.shift offset))
  | .error e => .error (e.shift offset)

/-- A text that stands further on is read the same. -/
theorem scan_moved (offset d : Nat) (cs : List Char) :
    scan (offset + d) cs = moved d (scan offset cs) := by
  induction offset, cs using scan.induct with
  | case1 offset =>
    rw [scan_nil, scan_nil]
    rfl
  | case2 offset c cs space ih =>
    rw [scan_space space, scan_space space, Nat.add_right_comm]
    exact ih
  | case3 offset c cs space found cause failed =>
    have read : lexeme c cs = (.error cause, found.2) := Prod.ext failed rfl
    have further : offset + d + c.utf8Size + byteLength (cs.take found.2) =
        offset + c.utf8Size + byteLength (cs.take found.2) + d := by omega
    rw [scan_error space read, scan_error space read, further]
    rfl
  | case4 offset c cs space found stop kind read _ _ ih
  | case5 offset c cs space found stop kind read _ _ ih =>
    have read : lexeme c cs = (.ok kind, found.2) := Prod.ext read rfl
    have further : offset + d + c.utf8Size + byteLength (cs.take found.2) = stop + d := by
      simp only [stop]
      omega
    rw [scan_lexeme space read, scan_lexeme space read, further, ih]
    cases scan stop (cs.drop found.2) <;> rfl

/-- Spaces in front of a text are passed over. -/
theorem scan_spaces {w : List Char} (spaces : ∀ c ∈ w, isSpacing c = true) (offset : Nat)
    (rest : List Char) : scan offset (w ++ rest) = scan (offset + byteLength w) rest := by
  induction w generalizing offset with
  | nil => rfl
  | cons c w ih =>
    rw [List.cons_append, scan_space (spaces c List.mem_cons_self),
      ih fun d mem => spaces d (List.mem_cons_of_mem _ mem), byteLength_cons, Nat.add_assoc]

/-- Where a text with tokens starts with no space, its first token stands. -/
theorem exists_of_scan {c : Char} {cs : List Char} (space : ¬isSpacing c = true) {offset : Nat}
    {tokens : List Token} (scanned : scan offset (c :: cs) = .ok tokens) :
    ∃ kind more others, lexeme c cs = (.ok kind, more) ∧
      scan (offset + c.utf8Size + byteLength (cs.take more)) (cs.drop more) = .ok others ∧
      tokens = ⟨kind, ⟨offset, offset + c.utf8Size + byteLength (cs.take more)⟩⟩ :: others := by
  rcases found : lexeme c cs with ⟨cause | kind, more⟩
  · rw [scan_error space found] at scanned
    cases scanned
  · rw [scan_lexeme space found] at scanned
    cases rest : scan (offset + c.utf8Size + byteLength (cs.take more)) (cs.drop more) with
    | error e =>
      rw [rest] at scanned
      cases scanned
    | ok others =>
      rw [rest] at scanned
      cases scanned
      exact ⟨kind, more, others, rfl, rest, rfl⟩

/-- A text without tokens is spaces. -/
theorem spaces_of_scan {offset : Nat} {cs : List Char} (scanned : scan offset cs = .ok []) :
    ∀ c ∈ cs, isSpacing c = true := by
  induction cs generalizing offset with
  | nil =>
    intro c mem
    exact absurd mem List.not_mem_nil
  | cons d cs ih =>
    by_cases space : isSpacing d = true
    · rw [scan_space space] at scanned
      intro c mem
      rcases List.mem_cons.mp mem with rfl | mem
      · exact space
      · exact ih scanned c mem
    · obtain ⟨_, _, _, _, _, same⟩ := exists_of_scan space scanned
      cases same

theorem mem_breakChars_of_isSpacing {c : Char} (space : isSpacing c = true) : c ∈ breakChars := by
  simp only [isSpacing, Bool.or_eq_true, beq_iff_eq] at space
  rcases space with ((rfl | rfl) | rfl) | rfl <;> decide

theorem breaks_of_spaces {w : List Char} (spaces : ∀ c ∈ w, isSpacing c = true) (some : w ≠ [])
    (rest : List Char) : Breaks (w ++ rest) := by
  cases w with
  | nil => exact absurd rfl some
  | cons c w => exact breaks_cons c (mem_breakChars_of_isSpacing (spaces c List.mem_cons_self)) _

/-- What comes after a text that ends with a break, or before it with no token, is read by itself. -/
theorem scan_join {x w y : List Char} (spaces : ∀ c ∈ w, isSpacing c = true) {tokens : List Token}
    (scanned : scan 0 x = .ok tokens) (apart : tokens = [] ∨ Breaks (w ++ y)) :
    scan 0 (x ++ (w ++ y)) =
      (moved (byteLength x + byteLength w) (scan 0 y)).map (tokens ++ ·) := by
  have rest : scan (byteLength x) (w ++ y) = moved (byteLength x + byteLength w) (scan 0 y) := by
    rw [scan_spaces spaces, ← scan_moved, Nat.zero_add]
  rcases apart with rfl | breaks
  · rw [scan_spaces (spaces_of_scan scanned), Nat.zero_add, rest]
    cases moved (byteLength x + byteLength w) (scan 0 y) <;> rfl
  · have appended := scan_append breaks scanned 0
    have same : tokens.map (Token.shift 0) = tokens := List.map_id tokens
    rw [Nat.add_zero, Nat.zero_add, same, rest] at appended
    exact appended

/-! ## Boundaries of tokens -/

/-- A longest match is a longest match in front of less. -/
theorem Longest.shorten {piece after rest : List Char} (h : Longest piece (after ++ rest)) :
    Longest piece after := by
  constructor
  · exact h.matched
  · intro p word matched front
    apply h.longest p word matched
    rw [← List.append_assoc]
    exact front.trans (List.prefix_append _ _)

/-- A lexeme that ends within a text is the same without what comes after the text. -/
theorem lexeme_of_append {c : Char} {cs rest : List Char} {kind : TokenKind} {more : Nat}
    (found : lexeme c (cs ++ rest) = (.ok kind, more)) (within : more ≤ cs.length) :
    lexeme c cs = (.ok kind, more) := by
  have valid : (lexeme c (cs ++ rest)).1 ≠ .error (.invalidCharacter c) := by
    rw [found]
    nofun
  have reads := reads_of_lexeme found
  have longest := longest_lexeme valid
  rw [found] at longest
  simp only at longest
  rw [List.take_append_of_le_length within] at reads longest
  rw [List.drop_append_of_le_length within] at longest
  have read := lexeme_of_reads reads longest.shorten
  rw [List.take_append_drop, List.length_take_of_le within] at read
  exact read

/-- A part of a text that takes no more bytes than some characters in front takes no more characters. -/
theorem le_length_of_byteLength_take_le {more : Nat} {cs rest : List Char}
    (h : byteLength ((cs ++ rest).take more) ≤ byteLength cs) (within : more ≤ (cs ++ rest).length) :
    more ≤ cs.length := by
  by_contra further
  have some : rest.take (more - cs.length) ≠ [] := by
    intro none
    have length := congrArg List.length none
    rw [List.length_take, List.length_nil] at length
    rw [List.length_append] at within
    omega
  have long := byteLength_pos some
  rw [List.take_append, List.take_of_length_le (by omega), byteLength_append] at h
  omega

/-- A text in which no token goes on at some offset is scanned in two parts. -/
theorem scan_split {offset : Nat} {x z : List Char} {tokens : List Token}
    (scanned : scan offset (x ++ z) = .ok tokens)
    (boundary : ∀ token ∈ tokens, token.span.stop ≤ offset + byteLength x ∨
      offset + byteLength x ≤ token.span.start) :
    ∃ before after, scan offset x = .ok before ∧ scan (offset + byteLength x) z = .ok after ∧
      tokens = before ++ after := by
  -- by length, since a token takes any number of characters at once
  induction length : x.length using Nat.strongRecOn generalizing offset x tokens with
  | ind n ih =>
    cases x with
    | nil => exact ⟨[], tokens, scan_nil _, scanned, rfl⟩
    | cons c cs =>
      rw [List.length_cons] at length
      rw [byteLength_cons, ← Nat.add_assoc] at boundary ⊢
      rw [List.cons_append] at scanned
      by_cases space : isSpacing c = true
      · rw [scan_space space] at scanned ⊢
        exact ih cs.length (by omega) scanned boundary rfl
      · obtain ⟨kind, more, others, found, rest, rfl⟩ := exists_of_scan space scanned
        have first := boundary _ List.mem_cons_self
        have within : more ≤ cs.length := by
          have size := c.utf8Size_pos
          have most := length_lexeme_le c (cs ++ z)
          rw [found] at most
          simp only at first most
          apply le_length_of_byteLength_take_le _ most
          omega
        rw [List.take_append_of_le_length within] at boundary rest ⊢
        rw [List.drop_append_of_le_length within] at rest
        have whole : offset + c.utf8Size + byteLength (cs.take more) + byteLength (cs.drop more) =
            offset + c.utf8Size + byteLength cs := by
          have bytes := congrArg byteLength (List.take_append_drop more cs)
          rw [byteLength_append] at bytes
          omega
        have shorter : (cs.drop more).length < n := by
          rw [List.length_drop]
          omega
        rw [← whole] at boundary ⊢
        obtain ⟨before, after, front, behind, rfl⟩ := ih _ shorter rest
          (fun token mem => boundary token (List.mem_cons_of_mem _ mem)) rfl
        refine ⟨_ :: before, after, ?_, behind, rfl⟩
        rw [scan_lexeme space (lexeme_of_append found within), front]
        rfl

/-- Other spaces at one place where no token goes on make no other tokens, as long as some spaces are
left between tokens. -/
theorem scan_respaced {x w w' y : List Char} {tokens : List Token}
    (scanned : scan 0 (x ++ (w ++ y)) = .ok tokens)
    (boundary : ∀ token ∈ tokens, token.span.stop ≤ byteLength x ∨ byteLength x ≤ token.span.start)
    (spaces : ∀ c ∈ w, isSpacing c = true) (spaces' : ∀ c ∈ w', isSpacing c = true)
    (separated : w' = [] → w = [] ∨ (∀ token ∈ tokens, byteLength x ≤ token.span.start) ∨
      ∀ token ∈ tokens, token.span.stop ≤ byteLength x) :
    ∃ tokens', scan 0 (x ++ (w' ++ y)) = .ok tokens' ∧
      tokens'.map Token.kind = tokens.map Token.kind := by
  by_cases same : w' = w
  · subst same
    exact ⟨tokens, scanned, rfl⟩
  · obtain ⟨before, after, front, behind, rfl⟩ := scan_split scanned (by simpa using boundary)
    rw [Nat.zero_add] at behind
    -- with no spaces left there is no token before them, or none after
    have apart : before = [] ∨ Breaks (w' ++ y) := by
      by_cases none : w' = []
      · subst none
        rcases separated rfl with rfl | first | last
        · exact absurd rfl same
        · left
          apply (tiling_of_scan (List.nil_append x).symm front).eq_nil
          intro token mem
          exact .inl (first token (List.mem_append_left _ mem))
        · right
          have nothing : after = [] := by
            apply (tiling_of_scan rfl behind).eq_nil
            intro token mem
            exact .inr (last token (List.mem_append_right _ mem))
          rw [nothing] at behind
          rintro c rest rfl
          apply mem_breakChars_of_isSpacing
          exact spaces_of_scan behind c (List.mem_append_right w List.mem_cons_self)
      · exact .inr (breaks_of_spaces spaces' none y)
    rw [scan_spaces spaces, ← Nat.zero_add (byteLength x + byteLength w), scan_moved] at behind
    cases alone : scan 0 y with
    | error e =>
      rw [alone] at behind
      cases behind
    | ok others =>
      rw [alone] at behind
      cases behind
      rw [scan_join spaces' front apart, alone]
      refine ⟨_, rfl, ?_⟩
      simp only [List.map_append, List.map_map]
      rfl

end Lexer

/-! ## Texts with other spaces -/

open Lexer

theorem byteLength_eq_utf8ByteSize_append (s s' : String) :
    byteLength s.toList + byteLength s'.toList = (s ++ s').utf8ByteSize := by
  rw [← byteLength_append, ← String.toList_append, byteLength_toList]

theorem shift_endToken (source source' : String) :
    (endToken source').shift source.utf8ByteSize = endToken (source ++ source') := by
  have length : source'.utf8ByteSize + source.utf8ByteSize = (source ++ source').utf8ByteSize := by
    rw [String.utf8ByteSize_append, Nat.add_comm]
  rw [endToken, endToken, Token.shift, Span.point, Span.shift, length]
  rfl

theorem lex_eq_ok_iff {source : String} {tokens : List Token} :
    lex source = .ok tokens ↔ ∃ inner, scan source = .ok inner ∧ tokens = inner ++ [endToken source] := by
  rw [lex]
  cases scan source with
  | error e => simp [Except.map]
  | ok inner => simp [Except.map, eq_comm]

/-- After a text, spaces and another text: its tokens, and then those of the other text. -/
theorem lex_append_spaces {a w : String} {tokens : List Token} (lexed : lex a = .ok tokens)
    (some : w ≠ "") (spaces : ∀ c ∈ w.toList, isSpacing c = true) (b : String) :
    lex (a ++ w ++ b) = match lex b with
      | .ok tokens' => .ok (tokens.dropLast ++ tokens'.map (Token.shift (a ++ w).utf8ByteSize))
      | .error e => .error (e.shift (a ++ w).utf8ByteSize) := by
  obtain ⟨inner, scanned, rfl⟩ := lex_eq_ok_iff.mp lexed
  have filled : w.toList ≠ [] := by simpa using some
  have joined := scan_join spaces scanned (.inr (breaks_of_spaces spaces filled b.toList))
  rw [byteLength_eq_utf8ByteSize_append] at joined
  rw [lex, lex, scan, String.toList_append, String.toList_append, List.append_assoc, joined,
    List.dropLast_concat, ← shift_endToken]
  change ((moved (a ++ w).utf8ByteSize (scan b)).map _).map _ = _
  cases scan b with
  | error e => rfl
  | ok others => simp [moved, Except.map]

/-- Tokens of the same kinds are read as the same tree, up to where it stands. -/
theorem parse_of_kinds {source source' : String} {tokens tokens' : List Token}
    (scanned : scan source = .ok tokens) (scanned' : scan source' = .ok tokens')
    (kinds : tokens'.map Token.kind = tokens.map Token.kind) {e : Expr Span}
    (read : parse source = .ok e) : ∃ e', parse source' = .ok e' ∧ e'.bare = e.bare := by
  rw [parse_eq_formula scanned] at read
  rw [parse_eq_formula scanned']
  obtain ⟨p, spelled⟩ := Parser.exists_phrase_of_formula read
  obtain ⟨e₀, read₀, bare⟩ := Parser.formula_of_phrase (endToken source).span p spelled
  obtain ⟨e', read', bare'⟩ :=
    Parser.formula_of_phrase (endToken source').span p (spelled.trans kinds.symm)
  rw [read] at read₀
  cases read₀
  exact ⟨e', read', bare'.trans bare.symm⟩

/-- The tree of a formula without where it stands, if there is one. -/
def tree? (source : String) : Option (Expr Unit) := (parse source).toOption.map Expr.bare

theorem tree?_eq_some_iff {source : String} {t : Expr Unit} :
    tree? source = some t ↔ ∃ e, parse source = .ok e ∧ e.bare = t := by
  rw [tree?]
  cases parse source with
  | error e => simp [Except.toOption]
  | ok e => simp [Except.toOption]

theorem tree?_of_kinds {source source' : String} {tokens tokens' : List Token}
    (scanned : scan source = .ok tokens) (scanned' : scan source' = .ok tokens')
    (kinds : tokens'.map Token.kind = tokens.map Token.kind) : tree? source' = tree? source := by
  ext t
  rw [tree?_eq_some_iff, tree?_eq_some_iff]
  constructor
  · rintro ⟨e, read, rfl⟩
    exact parse_of_kinds scanned' scanned kinds.symm read
  · rintro ⟨e, read, rfl⟩
    exact parse_of_kinds scanned scanned' kinds read

/-- The same text with other spaces at one place where no token goes on, which are not removed when
there are tokens on both sides of them. -/
inductive Respaced : String → String → Prop where
  | edit {x w w' y : String} {tokens : List Token} (lexed : lex (x ++ w ++ y) = .ok tokens)
      (boundary : ∀ token ∈ tokens,
        token.span.stop ≤ x.utf8ByteSize ∨ x.utf8ByteSize ≤ token.span.start)
      (spaces : ∀ c ∈ w.toList, isSpacing c = true) (spaces' : ∀ c ∈ w'.toList, isSpacing c = true)
      (separated : w' = "" → w = "" ∨ (∀ token ∈ tokens, x.utf8ByteSize ≤ token.span.start) ∨
        ∀ token ∈ tokens, token.kind ≠ .endOfText → token.span.stop ≤ x.utf8ByteSize) :
      Respaced (x ++ w ++ y) (x ++ w' ++ y)

theorem Respaced.same_tokens {source source' : String} (h : Respaced source source')
    {tokens : List Token} (lexed : lex source = .ok tokens) :
    ∃ tokens', lex source' = .ok tokens' ∧ tokens'.map Token.kind = tokens.map Token.kind ∧
      tree? source' = tree? source := by
  cases h with
  | @edit x w w' y _ lexed' boundary spaces spaces' separated =>
    rw [lexed] at lexed'
    cases lexed'
    obtain ⟨inner, scanned, rfl⟩ := lex_eq_ok_iff.mp lexed
    have tiling := tiling_of_scan (List.nil_append _).symm scanned
    have whole (w : String) : (x ++ w ++ y).toList = x.toList ++ (w.toList ++ y.toList) := by
      rw [String.toList_append, String.toList_append, List.append_assoc]
    have scannedList := scanned
    rw [FormulaDoc.scan, whole] at scannedList
    rw [← byteLength_toList] at boundary separated
    have boundary' : ∀ token ∈ inner, token.span.stop ≤ byteLength x.toList ∨
        byteLength x.toList ≤ token.span.start := by
      intro token mem
      exact boundary token (List.mem_append_left _ mem)
    have separated' : w'.toList = [] → w.toList = [] ∨
        (∀ token ∈ inner, byteLength x.toList ≤ token.span.start) ∨
        ∀ token ∈ inner, token.span.stop ≤ byteLength x.toList := by
      intro none
      rcases separated (String.toList_eq_nil_iff.mp none) with none' | first | last
      · exact .inl (String.toList_eq_nil_iff.mpr none')
      · right; left
        intro token mem
        exact first token (List.mem_append_left _ mem)
      · right; right
        intro token mem
        exact last token (List.mem_append_left _ mem) (tiling.ne_endOfText mem)
    obtain ⟨inner', scanned', kinds⟩ :=
      scan_respaced scannedList boundary' spaces spaces' separated'
    rw [← whole] at scanned'
    refine ⟨_, lex_eq_ok_iff.mpr ⟨inner', scanned', rfl⟩, ?_, tree?_of_kinds scanned scanned' kinds⟩
    rw [List.map_append, List.map_append, kinds]
    rfl

/-- After a text and some spaces, any text is read as it is alone, further on. Other spaces where no
token goes on make no other tokens and no other tree. -/
theorem lex_spaces :
    (∀ (a w b : String) (tokens : List Token), lex a = .ok tokens → w ≠ "" →
      (∀ c ∈ w.toList, isSpacing c = true) →
      lex (a ++ w ++ b) = match lex b with
        | .ok tokens' => .ok (tokens.dropLast ++ tokens'.map (Token.shift (a ++ w).utf8ByteSize))
        | .error e => .error (e.shift (a ++ w).utf8ByteSize)) ∧
    ∀ (source source' : String) (tokens : List Token), Relation.ReflTransGen Respaced source source' →
      lex source = .ok tokens → ∃ tokens', lex source' = .ok tokens' ∧
        tokens'.map Token.kind = tokens.map Token.kind ∧ tree? source' = tree? source := by
  constructor
  · intro a w b tokens lexed some spaces
    exact lex_append_spaces lexed some spaces b
  · intro source source' tokens respaced lexed
    induction respaced with
    | refl => exact ⟨tokens, lexed, rfl, rfl⟩
    | tail _ once ih =>
      obtain ⟨tokens', lexed', kinds, tree⟩ := ih
      obtain ⟨tokens'', lexed'', kinds', tree'⟩ := once.same_tokens lexed'
      exact ⟨tokens'', lexed'', kinds'.trans kinds, tree'.trans tree⟩

/-- A string without an end after a name, and a space in front of a sign. -/
theorem lex_spaces_sum :
    lex ("a" ++ "\n" ++ "'b") = .error ⟨.unterminatedString, ⟨2, 4⟩⟩ ∧
      Respaced "a+b" "a +b" ∧ tree? "a +b" = tree? "a+b" := by
  have name : lex "a" = .ok [⟨.ident "a", ⟨0, 1⟩⟩, ⟨.endOfText, ⟨1, 1⟩⟩] := by cbv
  have failed : lex "'b" = .error ⟨.unterminatedString, ⟨0, 2⟩⟩ := by cbv
  have sum : lex ("a" ++ "" ++ "+b") = .ok [⟨.ident "a", ⟨0, 1⟩⟩, ⟨.sign .plus, ⟨1, 2⟩⟩,
      ⟨.ident "b", ⟨2, 3⟩⟩, ⟨.endOfText, ⟨3, 3⟩⟩] := by cbv
  have one : "a".utf8ByteSize = 1 := rfl
  have respaced : Respaced ("a" ++ "" ++ "+b") ("a" ++ " " ++ "+b") :=
    .edit sum (by simp [one]) (by simp) (by simp [isSpacing]) (by simp)
  have joined := lex_spaces.1 "a" "\n" "'b" _ name (by decide) (by simp [isSpacing])
  rw [failed] at joined
  obtain ⟨-, -, -, tree⟩ := lex_spaces.2 _ _ _ (.single respaced) sum
  exact ⟨joined, respaced, tree⟩

end FormulaDoc
