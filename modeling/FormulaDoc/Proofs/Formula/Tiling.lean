import FormulaDoc.Proofs.Formula.Patterns

/-!
# Tokens tile their text

The tokens of a text stand in it one after another, each of them the longest match of the patterns where
it stands, with nothing but spaces between them. Where a text has no tokens it is tiled like this up to
a first piece that is no token.
-/
namespace FormulaDoc.Lexer

/-- A span is that of a piece of a text with a rest after it. Such spans are on character boundaries. -/
def Located (text piece after : List Char) (span : Span) : Prop :=
  ∃ before, text = before ++ (piece ++ after) ∧
    span = ⟨byteLength before, byteLength before + byteLength piece⟩

/-- At a byte of a text is a character between tokens. -/
def SpacingAt (text : List Char) (offset : Nat) : Prop :=
  ∃ before c after, text = before ++ c :: after ∧ byteLength before = offset ∧ isSpacing c = true

/-- Some tokens cover a part of a text, in order and without overlap, with spaces in between. -/
structure Tiling (text : List Char) (start stop : Nat) (tokens : List Token) : Prop where
  forward : start ≤ stop
  pieces : ∀ token ∈ tokens, ∃ piece after, Located text piece after token.span ∧
    Longest piece after ∧ Reads piece token.kind ∧
    ∀ w, token.kind = .word w ↔ piece = w.text.toList
  nonempty : ∀ token ∈ tokens, token.span.start < token.span.stop
  inside : ∀ token ∈ tokens, start ≤ token.span.start ∧ token.span.stop ≤ stop
  ordered : tokens.Pairwise fun earlier later => earlier.span.stop ≤ later.span.start
  covered : ∀ offset, start ≤ offset → offset < stop →
    (∃ token ∈ tokens, token.span.start ≤ offset ∧ offset < token.span.stop) ∨ SpacingAt text offset

/-- Some characters in front of a text that are no token: the longest match, if it cannot be read, or
a character where no pattern matches. -/
def Unreadable (piece after : List Char) : Prop :=
  (Longest piece after ∧ ∀ kind, ¬ Reads piece kind) ∨
    piece.length = 1 ∧ ∀ (p : Pattern) (word : List Char), word ∈ p.language →
      ¬ word <+: piece ++ after

theorem utf8Size_of_isSpacing {c : Char} (space : isSpacing c = true) : c.utf8Size = 1 := by
  simp only [isSpacing, Bool.or_eq_true, beq_iff_eq] at space
  rcases space with ((rfl | rfl) | rfl) | rfl <;> rfl

theorem byteLength_pos {cs : List Char} (some : cs ≠ []) : 0 < byteLength cs := by
  cases cs with
  | nil => exact absurd rfl some
  | cons c cs =>
    rw [byteLength_cons]
    exact Nat.add_pos_left c.utf8Size_pos _

theorem Located.lt {text piece after : List Char} {span : Span} (h : Located text piece after span)
    (some : piece ≠ []) : span.start < span.stop := by
  obtain ⟨before, -, rfl⟩ := h
  have long := byteLength_pos some
  show byteLength before < byteLength before + byteLength piece
  omega

namespace Tiling

variable {text : List Char} {start stop : Nat} {tokens : List Token}

theorem nil (text : List Char) (start : Nat) : Tiling text start start [] := by
  constructor
  · exact Nat.le_refl start
  · intro token mem
    exact absurd mem List.not_mem_nil
  · intro token mem
    exact absurd mem List.not_mem_nil
  · intro token mem
    exact absurd mem List.not_mem_nil
  · exact List.Pairwise.nil
  · intro offset low high
    omega

/-- Spaces may come first. -/
theorem space {before after : List Char} {c : Char} (whole : text = before ++ c :: after)
    (space : isSpacing c = true) (h : Tiling text (byteLength before + c.utf8Size) stop tokens) :
    Tiling text (byteLength before) stop tokens := by
  have size := utf8Size_of_isSpacing space
  have forward := h.forward
  constructor
  · omega
  · exact h.pieces
  · exact h.nonempty
  · intro token mem
    have inside := h.inside token mem
    omega
  · exact h.ordered
  · intro offset low high
    by_cases first : offset = byteLength before
    · exact .inr ⟨before, c, after, whole, first.symm, space⟩
    · exact h.covered offset (by omega) high

/-- A token may come first. -/
theorem cons {piece after : List Char} {token : Token} (located : Located text piece after token.span)
    (longest : Longest piece after) (reads : Reads piece token.kind)
    (nonempty : token.span.start < token.span.stop) (h : Tiling text token.span.stop stop tokens) :
    Tiling text token.span.start stop (token :: tokens) := by
  have forward := h.forward
  constructor
  · omega
  · intro other mem
    rcases List.mem_cons.mp mem with rfl | mem
    · exact ⟨piece, after, located, longest, reads, reads.word_iff⟩
    · exact h.pieces other mem
  · intro other mem
    rcases List.mem_cons.mp mem with rfl | mem
    · exact nonempty
    · exact h.nonempty other mem
  · intro other mem
    rcases List.mem_cons.mp mem with rfl | mem
    · exact ⟨Nat.le_refl _, forward⟩
    · have inside := h.inside other mem
      omega
  · refine List.Pairwise.cons ?_ h.ordered
    intro later mem
    exact (h.inside later mem).1
  · intro offset low high
    by_cases first : offset < token.span.stop
    · exact .inl ⟨token, List.mem_cons_self, low, first⟩
    · rcases h.covered offset (by omega) high with ⟨other, mem, within⟩ | space
      · exact .inl ⟨other, List.mem_cons_of_mem _ mem, within⟩
      · exact .inr space

/-- No token stands outside of what the tokens cover. -/
theorem eq_nil (h : Tiling text start stop tokens)
    (outside : ∀ token ∈ tokens, stop ≤ token.span.start ∨ token.span.stop ≤ start) :
    tokens = [] := by
  rw [List.eq_nil_iff_forall_not_mem]
  intro token mem
  have inside := h.inside token mem
  have nonempty := h.nonempty token mem
  have := outside token mem
  omega

theorem ne_endOfText (h : Tiling text start stop tokens) {token : Token} (mem : token ∈ tokens) :
    token.kind ≠ .endOfText := by
  obtain ⟨piece, after, -, -, reads, -⟩ := h.pieces token mem
  exact reads.ne_endOfText

end Tiling

/-- The text of a lexeme is a piece where the lexeme stands. -/
theorem located_lexeme {text before cs : List Char} {c : Char} (whole : text = before ++ c :: cs)
    (more : Nat) :
    Located text (c :: cs.take more) (cs.drop more)
      ⟨byteLength before, byteLength before + c.utf8Size + byteLength (cs.take more)⟩ := by
  refine ⟨before, ?_, ?_⟩
  · rw [List.cons_append, List.take_append_drop]
    exact whole
  · rw [byteLength_cons, Nat.add_assoc]

theorem unreadable_lexeme {c : Char} {cs : List Char} {cause : LexCause}
    (failed : (lexeme c cs).1 = .error cause) :
    Unreadable (c :: cs.take (lexeme c cs).2) (cs.drop (lexeme c cs).2) := by
  by_cases invalid : (lexeme c cs).1 = .error (.invalidCharacter c)
  · obtain ⟨digit, quotes, start, none⟩ := sign?_of_invalid invalid
    have single : (lexeme c cs).2 = 0 := by rw [lexeme_of_other cs digit quotes start, none]
    rw [single]
    exact .inr ⟨rfl, fun p word matched => not_matched_of_invalid invalid matched⟩
  · exact .inl ⟨longest_lexeme invalid, not_reads_of_error failed⟩

/-- Where reading a text from an offset on may end: with tokens that tile the rest of the text, or at a
piece that is no token, with tokens that tile the text up to there. -/
def Covers (text : List Char) (start : Nat) : Except LexError (List Token) → Prop
  | .ok tokens => Tiling text start (byteLength text) tokens
  | .error e => ∃ tokens piece after, Tiling text start e.span.start tokens ∧
      Located text piece after e.span ∧ piece ≠ [] ∧ Unreadable piece after

namespace Covers

variable {text : List Char} {outcome : Except LexError (List Token)}

theorem space {before after : List Char} {c : Char} (whole : text = before ++ c :: after)
    (space : isSpacing c = true) (h : Covers text (byteLength before + c.utf8Size) outcome) :
    Covers text (byteLength before) outcome := by
  cases outcome with
  | ok tokens => exact Tiling.space whole space h
  | error e =>
    obtain ⟨tokens, piece, after, tiled, failed⟩ := h
    exact ⟨tokens, piece, after, tiled.space whole space, failed⟩

theorem cons {piece after : List Char} {token : Token} (located : Located text piece after token.span)
    (longest : Longest piece after) (reads : Reads piece token.kind) (some : piece ≠ [])
    (h : Covers text token.span.stop outcome) :
    Covers text token.span.start (outcome.map (token :: ·)) := by
  have nonempty := located.lt some
  cases outcome with
  | ok tokens => exact Tiling.cons located longest reads nonempty h
  | error e =>
    obtain ⟨tokens, piece, after, tiled, failed⟩ := h
    exact ⟨token :: tokens, piece, after, tiled.cons located longest reads nonempty, failed⟩

end Covers

theorem scan_error {c : Char} {cs : List Char} {cause : LexCause} {more : Nat}
    (space : ¬isSpacing c = true) (found : lexeme c cs = (.error cause, more)) (offset : Nat) :
    scan offset (c :: cs) =
      .error ⟨cause, ⟨offset, offset + c.utf8Size + byteLength (cs.take more)⟩⟩ := by
  rw [scan, if_neg space]
  simp only [found]

/-- After a piece has been read from a text, what comes after it is left. -/
theorem eq_append_piece {text before cs : List Char} {c : Char} (whole : text = before ++ c :: cs)
    (more : Nat) :
    text = before ++ c :: cs.take more ++ cs.drop more ∧
      byteLength (before ++ c :: cs.take more) =
        byteLength before + c.utf8Size + byteLength (cs.take more) := by
  constructor
  · rw [List.append_assoc, List.cons_append, List.take_append_drop]
    exact whole
  · rw [byteLength_append, byteLength_cons, Nat.add_assoc]

/-- Reading one token goes on to cover a text. -/
theorem Covers.lexeme {text before cs : List Char} {c : Char} (whole : text = before ++ c :: cs)
    (space : ¬isSpacing c = true) {kind : TokenKind} {more : Nat}
    (found : lexeme c cs = (.ok kind, more))
    (h : Covers text (byteLength before + c.utf8Size + byteLength (cs.take more))
      (scan (byteLength before + c.utf8Size + byteLength (cs.take more)) (cs.drop more))) :
    Covers text (byteLength before) (scan (byteLength before) (c :: cs)) := by
  have valid : (Lexer.lexeme c cs).1 ≠ .error (.invalidCharacter c) := by
    rw [found]
    nofun
  have longest := longest_lexeme valid
  rw [found] at longest
  rw [scan_lexeme space found]
  exact cons (located_lexeme whole more) longest (reads_of_lexeme found) (List.cons_ne_nil _ _) h

/-- What is left of a text is covered, one step of reading after another. -/
theorem covers_scan {text : List Char} {offset : Nat} (cs before : List Char)
    (whole : text = before ++ cs) (here : byteLength before = offset) :
    Covers text offset (scan offset cs) := by
  induction offset, cs using scan.induct generalizing before with
  | case1 offset =>
    subst here
    rw [List.append_nil] at whole
    rw [whole, scan_nil]
    exact .nil _ _
  | case2 offset c cs space ih =>
    subst here
    obtain ⟨whole', moved⟩ := eq_append_piece whole 0
    rw [scan_space space]
    exact (ih _ whole' moved).space whole space
  | case3 offset c cs space found cause failed =>
    subst here
    have unreadable := unreadable_lexeme failed
    rw [scan_error space (Prod.ext failed rfl)]
    exact ⟨[], _, _, .nil _ _, located_lexeme whole found.2, List.cons_ne_nil _ _, unreadable⟩
  | case4 offset c cs space found stop kind read _ _ ih
  | case5 offset c cs space found stop kind read _ _ ih =>
    subst here
    obtain ⟨whole', moved⟩ := eq_append_piece whole found.2
    exact .lexeme whole space (Prod.ext read rfl) (ih _ whole' moved)

theorem tiling_of_scan {text cs before : List Char} {tokens : List Token} (whole : text = before ++ cs)
    (scanned : scan (byteLength before) cs = .ok tokens) :
    Tiling text (byteLength before) (byteLength text) tokens := by
  have covers := covers_scan cs before whole rfl
  rw [scanned] at covers
  exact covers

end FormulaDoc.Lexer

namespace FormulaDoc

open Lexer

/-- The tokens of a text tile it: each stands at its own bytes, on character boundaries, as the longest
piece that any pattern matches there, in order and without overlap, and every byte in no token is a
space, a tab or a line break. One more token marks the end, at the length of the text. A text without
tokens is tiled like this up to a piece inside of it that is no token, where the error points. -/
theorem lex_tiles (source : String) :
    (∀ tokens, lex source = .ok tokens → ∃ inner,
      tokens = inner ++ [⟨.endOfText, .point source.utf8ByteSize⟩] ∧
      (∀ token ∈ inner, token.kind ≠ .endOfText) ∧
      Tiling source.toList 0 source.utf8ByteSize inner) ∧
    ∀ e, lex source = .error e → ∃ inner piece after,
      Tiling source.toList 0 e.span.start inner ∧ Located source.toList piece after e.span ∧
      Unreadable piece after ∧ e.span.start < e.span.stop ∧ e.span.stop ≤ source.utf8ByteSize := by
  rw [lex]
  constructor
  · intro tokens read
    cases scanned : FormulaDoc.scan source with
    | error e =>
      rw [scanned] at read
      cases read
    | ok inner =>
      rw [scanned] at read
      cases read
      have tiling : Tiling source.toList 0 source.utf8ByteSize inner := by
        rw [← byteLength_toList]
        exact tiling_of_scan (List.nil_append _).symm scanned
      exact ⟨inner, rfl, fun token mem => tiling.ne_endOfText mem, tiling⟩
  · intro e failed
    cases scanned : FormulaDoc.scan source with
    | ok inner =>
      rw [scanned] at failed
      cases failed
    | error e' =>
      have covers : Covers source.toList 0 (FormulaDoc.scan source) := covers_scan _ [] rfl rfl
      rw [scanned] at failed covers
      cases failed
      obtain ⟨inner, piece, after, tiling, located, some, unreadable⟩ := covers
      refine ⟨inner, piece, after, tiling, located, unreadable, located.lt some, ?_⟩
      obtain ⟨before, whole, span⟩ := located
      rw [← byteLength_toList, whole, span, byteLength_append, byteLength_append]
      show byteLength before + byteLength piece ≤ _
      omega

end FormulaDoc
