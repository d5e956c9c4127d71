import FormulaDoc.Proofs.Formula.Locality

/-!
# Formulas made of formulas

Texts that parse are put together to larger ones: in parentheses, with an operator, a sign, a property
or an index, and as the arguments of a call or a filter. What is read is the node over the trees of
the parts, with their spans moved to where they stand.
-/
namespace FormulaDoc

/-- The texts that write a binary operator. -/
def BinaryOp.spellings : BinaryOp → List String
  | or => ["or", "||"]
  | and => ["and", "&&"]
  | op => [op.symbol]

/-- Whether a text is a name in formulas: a word that is not reserved. -/
def IsName (name : String) : Prop := Text.isWord name.toList = true ∧ Keyword.ofText? name = none

/-- Whether a text may stand as a property after a dot: any word but those that anchor a path. -/
def IsKey (key : String) : Prop := Text.isWord key.toList = true ∧ key ≠ "this" ∧ key ≠ "super"

/-- The trees of texts that stand one after the other, each but the last followed by a comma and a
space. -/
def placed (offset : Nat) : List (String × Expr Span) → List (Expr Span)
  | [] => []
  | (source, e) :: rest => e.shift offset :: placed (offset + source.utf8ByteSize + 2) rest

/-- Where texts stand makes no difference to their trees but for the spans. -/
theorem bare_placed (offset : Nat) (args : List (String × Expr Span)) :
    Expr.mapAll (fun _ => ()) (placed offset args) = args.map fun arg => arg.2.bare := by
  induction args generalizing offset with
  | nil => rfl
  | cons arg args ih => exact congrArg₂ List.cons (Expr.bare_map _ arg.2) (ih _)

/-- What writes an operator is one token. -/
theorem BinaryOp.scan_spelling {op : BinaryOp} {spelling : String} (mem : spelling ∈ op.spellings) :
    ∃ token, scan spelling = .ok [token] ∧ token.kind.binaryOp? = some op := by
  have sign (s : Sign) (written : (TokenKind.sign s).binaryOp? = some op) (same : spelling = s.text) :
      ∃ token, scan spelling = .ok [token] ∧ token.kind.binaryOp? = some op :=
    ⟨_, same ▸ Lexer.scan_sign_text s, written⟩
  have word (w : Keyword) (written : (TokenKind.word w).binaryOp? = some op) (same : spelling = w.text) :
      ∃ token, scan spelling = .ok [token] ∧ token.kind.binaryOp? = some op :=
    ⟨_, same ▸ Lexer.scan_keyword_text w, written⟩
  cases op <;> simp only [spellings, symbol, List.mem_cons, List.not_mem_nil, or_false] at mem
  case or => exact mem.elim (word .or rfl) (sign .either rfl)
  case and => exact mem.elim (word .and rfl) (sign .both rfl)
  case add => exact sign .plus rfl mem
  case sub => exact sign .minus rfl mem
  case mul => exact sign .star rfl mem
  case div => exact sign .slash rfl mem
  case rem => exact sign .percent rfl mem
  case concat => exact sign .tilde rfl mem
  case eq => exact sign .equal rfl mem
  case ne => exact sign .notEqual rfl mem
  case lt => exact sign .less rfl mem
  case le => exact sign .lessEqual rfl mem
  case gt => exact sign .greater rfl mem
  case ge => exact sign .greaterEqual rfl mem

theorem isProperty_wordToken {key : String} (isKey : IsKey key) :
    Grammar.IsProperty (Lexer.wordToken key.toList) key := by
  rw [Lexer.wordToken, String.ofList_toList]
  split
  · rename_i w same
    obtain rfl : w.text = key := by
      rw [Keyword.ofText?] at same
      have found := List.find?_some same
      exact beq_iff_eq.mp found
    refine .word ?_
    cases w with
    | this => exact absurd rfl isKey.2.1
    | super => exact absurd rfl isKey.2.2
    | _ => decide
  · exact .name key

theorem wordToken_of_isName {name : String} (isName : IsName name) :
    Lexer.wordToken name.toList = .ident name := by
  rw [Lexer.wordToken, String.ofList_toList]
  simp only [isName.2]

namespace Parser

open Grammar

section Whole

variable {stop : Span} {tokens rest : List Token} {e : Expr Span}

theorem yields_postfixed (read : Yields (primary stop tokens) e rest)
    (noDot : ∀ span more, rest ≠ ⟨.sign .dot, span⟩ :: more)
    (noIndex : ∀ span more, rest ≠ ⟨.sign .openBracket, span⟩ :: more) :
    Yields (postfixed stop tokens) e rest := by
  obtain ⟨p, read, rfl, rfl⟩ := read
  exact ⟨p, by rw [postfixed, read]; exact accesses_of_ne noDot noIndex, rfl, rfl⟩

theorem yields_unary {kind : TokenKind} {span : Span} (notMinus : kind ≠ .sign .minus)
    (notBang : kind ≠ .sign .bang) (read : Yields (postfixed stop (⟨kind, span⟩ :: tokens)) e rest)
    (noPipe : ∀ span more, rest ≠ ⟨.sign .pipe, span⟩ :: more) :
    Yields (unary stop (⟨kind, span⟩ :: tokens)) e rest := by
  obtain ⟨p, read, rfl, rfl⟩ := read
  exact ⟨p, (unary_of_head rfl notMinus notBang read).trans (filters_of_ne noPipe), rfl, rfl⟩

theorem yields_binary {least : Nat} (read : Yields (operand stop least tokens) e rest)
    (halts : Halts least rest) : Yields (binary stop least tokens) e rest := by
  obtain ⟨p, read, rfl, rfl⟩ := read
  exact ⟨p, by rw [binary, read]; exact climb_of_halts halts, rfl, rfl⟩

theorem yields_binary_of_unary {kind : TokenKind} {span : Span} (notNot : kind ≠ .word .not)
    {least : Nat}
    (read : Yields (unary stop (⟨kind, span⟩ :: tokens)) e rest) (halts : Halts least rest) :
    Yields (binary stop least (⟨kind, span⟩ :: tokens)) e rest :=
  yields_binary (by rwa [operand_of_head rfl notNot]) halts

/-- What is read as an expression begins with no closing parenthesis or bracket. -/
theorem ne_closer_of_yields {least : Nat} (read : Yields (binary stop least tokens) e rest) (span : Span)
    (more : List Token) :
    tokens ≠ ⟨.sign .closeParen, span⟩ :: more ∧ tokens ≠ ⟨.sign .closeBracket, span⟩ :: more := by
  obtain ⟨p, read, _, _⟩ := read
  obtain ⟨phrase, spelled⟩ := (spells_binary (sound stop _) (Nat.le_refl _) read).1
  obtain ⟨kind, others, begun, begins⟩ := phrase.exists_begins
  rw [begun, List.cons_append] at spelled
  constructor
  · rintro rfl
    exact begins.1 (List.cons.inj spelled).1.symm
  · rintro rfl
    exact begins.2.1 (List.cons.inj spelled).1.symm

/-- An operation whose right operand is the last. -/
theorem yields_operation {kind : TokenKind} {span : Span} (notNot : kind ≠ .word .not) {token : Token}
    {more : List Token} {op : BinaryOp} {e' : Expr Span}
    (left : Yields (unary stop (⟨kind, span⟩ :: tokens)) e (token :: more))
    (written : token.kind.binaryOp? = some op)
    (right : Yields (binary stop (op.precedence + 1) more) e' []) :
    Yields (binary stop 1 (⟨kind, span⟩ :: tokens)) (.binary (e.mark.merge e'.mark) op e e') [] := by
  obtain ⟨p, read, rfl, next⟩ := left
  obtain ⟨q, read', rfl, ends⟩ := right
  obtain ⟨p', ends', expr, taken⟩ := exists_climb_eq next written read'
  refine ⟨p', ?_, expr, ends'.trans ends⟩
  rw [binary, operand_of_head rfl notNot, read]
  exact (taken 1 (by cases op <;> decide)).trans (climb_of_halts (halts_of_nil (ends'.trans ends)))

theorem yields_field {dot : Span} {token : Token} {name : String}
    (receiver : Yields (primary stop tokens) e [⟨.sign .dot, dot⟩, token])
    (named : IsProperty token.kind name) :
    Yields (postfixed stop tokens) (.field (e.mark.merge token.span) e name) [] := by
  obtain ⟨p, read, rfl, next⟩ := receiver
  obtain ⟨p', ends, expr, taken⟩ := exists_accesses_property next named
  refine ⟨p', ?_, expr, ends⟩
  rw [postfixed, read]
  exact taken.trans (accesses_of_nil ends)

theorem yields_index {opener closer : Span} {more : List Token} {e' : Expr Span}
    (receiver : Yields (primary stop tokens) e (⟨.sign .openBracket, opener⟩ :: more))
    (position : Yields (binary stop 1 more) e' [⟨.sign .closeBracket, closer⟩]) :
    Yields (postfixed stop tokens) (.index (e.mark.merge closer) e e') [] := by
  obtain ⟨p, read, rfl, next⟩ := receiver
  obtain ⟨p', ends, expr, taken⟩ := exists_accesses_position next position
    fun span others => (ne_closer_of_yields position span others).2
  refine ⟨p', ?_, expr, ends⟩
  rw [postfixed, read]
  exact taken.trans (accesses_of_nil ends)

theorem yields_filter {kind : TokenKind} {span pipe span' opener closer : Span} {name : String}
    {more : List Token} {es : List (Expr Span)} (notMinus : kind ≠ .sign .minus)
    (notBang : kind ≠ .sign .bang)
    (input : Yields (postfixed stop (⟨kind, span⟩ :: tokens)) e
      (⟨.sign .pipe, pipe⟩ :: ⟨.ident name, span'⟩ :: ⟨.sign .openParen, opener⟩ :: more))
    (args : YieldsArgs (arguments stop opener more) es closer []) :
    Yields (unary stop (⟨kind, span⟩ :: tokens)) (.call (e.mark.merge closer) name (e :: es)) [] := by
  obtain ⟨p, read, rfl, next⟩ := input
  obtain ⟨q, read', rfl, rfl, ends⟩ := args
  obtain ⟨p', ends', expr, taken⟩ := exists_filters_call next read'
  refine ⟨p', ?_, expr, ends'.trans ends⟩
  rw [unary_of_head rfl notMinus notBang read, taken]
  exact filters_of_nil (ends'.trans ends)

theorem formula_of_yields (read : Yields (binary stop 1 tokens) e []) : formula stop tokens = .ok e := by
  obtain ⟨p, read, rfl, ends⟩ := read
  unfold formula
  split
  · exact absurd p.shorter (Nat.not_lt_zero _)
  · simp only [read, ends]

theorem yields_of_formula (h : formula stop tokens = .ok e) : Yields (binary stop 1 tokens) e [] := by
  unfold formula at h
  split at h
  · cases h
  · split at h
    · cases h
    · rename_i p read
      split at h
      · rename_i ends
        cases h
        exact ⟨p, read, rfl, ends⟩
      · cases h
      · cases h
      · cases h

theorem exists_yields_of_args {opener closer : Span} {es : List (Expr Span)}
    (read : YieldsArgs (someArguments stop opener tokens) es closer rest) :
    ∃ e more, Yields (binary stop 1 tokens) e more := by
  obtain ⟨p, read, _⟩ := read
  rw [someArguments] at read
  split at read
  · cases read
  · rename_i first firstRead
    exact ⟨_, _, first, firstRead, rfl, rfl⟩

end Whole

end Parser

open Lexer

namespace Parser

section Pieces

variable {s t : String} {e e' : Expr Span}

theorem parse_of_scans {source : String} {cs : List Char} {tokens : List Token} {stop : Nat}
    (text : source.toList = cs) (scans : Scans 0 cs tokens stop [])
    (read : Yields (binary (endToken source).span 1 tokens) e []) : parse source = .ok e := by
  have scanned : scan source = .ok tokens := scan_eq_of_scans (text ▸ scans)
  rw [parse_eq_formula scanned]
  exact formula_of_yields read

/-- The tokens of a text that parses are read the same where something ends it. -/
theorem exists_tokens (parsed : parse s = .ok e) :
    ∃ tokens, scan s = .ok tokens ∧ ∀ stop offset after, Ends after →
      Yields (binary stop 1 (within offset after tokens)) (e.shift offset) after := by
  rw [parse] at parsed
  split at parsed
  · cases parsed
  · rename_i tokens scanned
    obtain ⟨p, read, rfl, ends⟩ := yields_of_formula parsed
    refine ⟨tokens, scanned, fun stop offset after closes => ?_⟩
    have kept := local_of_ends closes offset _ stop (tokens.length + 1) (Nat.lt_succ_self _) read
    rwa [Keeps, ends] at kept

/-- The characters that end a text inside a longer one. -/
def closers : List (Char × Sign) := [(')', .closeParen), (']', .closeBracket), (',', .comma)]

/-- A text with what ends it. -/
theorem exists_closed (parsed : parse s = .ok e) (c : Char) (sign : Sign) (mem : (c, sign) ∈ closers)
    (offset : Nat) (rest : List Char) :
    ∃ tokens span, Scans offset (s.toList ++ c :: rest) tokens (offset + s.utf8ByteSize + 1) rest ∧
      ∀ stop more,
        Yields (binary stop 1 (tokens ++ more)) (e.shift offset) (⟨.sign sign, span⟩ :: more) := by
  have all : ∀ entry ∈ closers, entry ∈ signChars ∧ entry.1 ∈ breakChars ∧
      TokenKind.sign entry.2 ∈ [TokenKind.sign .closeParen, .sign .closeBracket, .sign .comma] := by
    decide
  obtain ⟨isSign, isBreak, isEnd⟩ := all _ mem
  obtain ⟨tokens, scanned, read⟩ := exists_tokens parsed
  refine ⟨_, ⟨offset + s.utf8ByteSize, offset + s.utf8ByteSize + 1⟩,
    (scans_text scanned (breaks_cons c isBreak rest) offset).trans (scans_sign c sign isSign _ rest),
    fun stop more => ?_⟩
  rw [List.append_assoc]
  refine read stop offset _ ?_
  rintro _ _ ⟨⟩
  exact isEnd

/-- A text in parentheses is a primary expression. -/
theorem exists_group (parsed : parse s = .ok e) (offset : Nat) (rest : List Char) :
    ∃ tokens span, Scans offset ('(' :: (s.toList ++ ')' :: rest)) (⟨.sign .openParen, span⟩ :: tokens)
        (offset + 1 + s.utf8ByteSize + 1) rest ∧
      ∀ stop more, Yields (primary stop (⟨.sign .openParen, span⟩ :: (tokens ++ more)))
        (e.shift (offset + 1)) more := by
  obtain ⟨tokens, span, scans, read⟩ :=
    exists_closed parsed ')' .closeParen (by decide) (offset + 1) rest
  exact ⟨tokens, _, (scans_sign '(' .openParen (by decide) offset _).trans scans,
    fun stop more => yields_group (read stop more)⟩

theorem toList_intercalate_singleton (s : String) : (", ".intercalate [s]).toList = s.toList := by
  rw [String.toList_intercalate, List.map_cons, List.map_nil, List.intercalate_singleton]

theorem toList_intercalate_cons (s t : String) (rest : List String) :
    (", ".intercalate (s :: t :: rest)).toList =
      s.toList ++ ',' :: ' ' :: (", ".intercalate (t :: rest)).toList := by
  rw [String.toList_intercalate, List.map_cons, List.map_cons, List.intercalate_cons_cons,
    String.toList_intercalate, List.map_cons, List.append_assoc]
  rfl

/-- Texts after one another, with commas between them, are arguments up to the parenthesis after them. -/
theorem exists_someArguments (parsed : parse s = .ok e) (args : List (String × Expr Span))
    (all : ∀ arg ∈ args, parse arg.1 = .ok arg.2) (offset : Nat) (rest : List Char) :
    ∃ tokens stop,
      Scans offset ((", ".intercalate (s :: args.map Prod.fst)).toList ++ ')' :: rest) tokens
        stop rest ∧
      ∀ stop opener more, ∃ closer,
        YieldsArgs (someArguments stop opener (tokens ++ more)) (placed offset ((s, e) :: args)) closer
          more := by
  induction args generalizing s e offset with
  | nil =>
    obtain ⟨tokens, span, scans, read⟩ :=
      exists_closed parsed ')' .closeParen (by decide) offset rest
    rw [List.map_nil, toList_intercalate_singleton]
    exact ⟨tokens, _, scans, fun stop opener more => ⟨span, yieldsArgs_last (read stop more)⟩⟩
  | cons arg args ih =>
    obtain ⟨t, e'⟩ := arg
    obtain ⟨tokens', stop', scans', read'⟩ := ih (all _ List.mem_cons_self)
      (fun arg mem => all arg (List.mem_cons_of_mem _ mem)) (offset + s.utf8ByteSize + 2)
    obtain ⟨tokens, comma, scans, read⟩ := exists_closed parsed ',' .comma (by decide) offset
      (' ' :: ((", ".intercalate (t :: args.map Prod.fst)).toList ++ ')' :: rest))
    refine ⟨tokens ++ tokens', stop', ?_, fun stop opener more => ?_⟩
    · rw [List.map_cons, toList_intercalate_cons, List.append_assoc]
      exact scans.trans ((scans_blank _ _).trans scans')
    · obtain ⟨closer, others⟩ := read' stop opener more
      refine ⟨closer, ?_⟩
      rw [List.append_assoc]
      exact yieldsArgs_more (read stop _) others

theorem exists_arguments (args : List (String × Expr Span)) (all : ∀ arg ∈ args, parse arg.1 = .ok arg.2)
    (offset : Nat) (rest : List Char) :
    ∃ tokens stop, Scans offset ((", ".intercalate (args.map Prod.fst)).toList ++ ')' :: rest) tokens
        stop rest ∧
      ∀ stop opener more, ∃ closer,
        YieldsArgs (arguments stop opener (tokens ++ more)) (placed offset args) closer more := by
  cases args with
  | nil =>
    exact ⟨_, _, scans_sign ')' .closeParen (by decide) offset rest,
      fun stop opener more => ⟨_, yieldsArgs_none⟩⟩
  | cons arg args =>
    obtain ⟨s, e⟩ := arg
    obtain ⟨tokens, stop, scans, read⟩ := exists_someArguments (all _ List.mem_cons_self) args
      (fun arg mem => all arg (List.mem_cons_of_mem _ mem)) offset rest
    refine ⟨tokens, stop, scans, fun stop opener more => ?_⟩
    obtain ⟨closer, some⟩ := read stop opener more
    obtain ⟨_, _, first⟩ := exists_yields_of_args some
    exact ⟨closer, yieldsArgs_some some fun span others => (ne_closer_of_yields first span others).1⟩

/-- A name with arguments in parentheses. -/
theorem exists_call {name : String} (isName : IsName name) (args : List (String × Expr Span))
    (all : ∀ arg ∈ args, parse arg.1 = .ok arg.2) (offset : Nat) (rest : List Char) :
    ∃ tokens span opener stop,
      Scans offset
        (name.toList ++ '(' :: ((", ".intercalate (args.map Prod.fst)).toList ++ ')' :: rest))
        (⟨.ident name, span⟩ :: ⟨.sign .openParen, opener⟩ :: tokens) stop rest ∧
      ∀ stop more, ∃ closer, YieldsArgs (arguments stop opener (tokens ++ more))
        (placed (offset + name.utf8ByteSize + 1) args) closer more := by
  obtain ⟨tokens, stop, scans, read⟩ := exists_arguments args all (offset + name.utf8ByteSize + 1) rest
  have word := scans_text (scan_word isName.1) (breaks_cons '(' (by decide)
    ((", ".intercalate (args.map Prod.fst)).toList ++ ')' :: rest)) offset
  rw [wordToken_of_isName isName] at word
  exact ⟨tokens, _, _, stop, word.trans ((scans_sign '(' .openParen (by decide) _ _).trans scans),
    fun stop more => read stop _ more⟩

end Pieces

section Forms

variable {s t : String} {e e' : Expr Span}

/-- A text in parentheses and what is read as an expression of it. -/
theorem exists_whole_group (parsed : parse s = .ok e) (offset : Nat) :
    ∃ tokens span stop,
      Scans offset ('(' :: (s.toList ++ [')'])) (⟨.sign .openParen, span⟩ :: tokens) stop [] ∧
      (∀ stop, Yields (unary stop (⟨.sign .openParen, span⟩ :: tokens)) (e.shift (offset + 1)) []) ∧
      ∀ stop least,
        Yields (binary stop least (⟨.sign .openParen, span⟩ :: tokens)) (e.shift (offset + 1)) [] := by
  obtain ⟨tokens, span, scans, read⟩ := exists_group parsed offset []
  have operand (stop : Span) :
      Yields (unary stop (⟨.sign .openParen, span⟩ :: tokens)) (e.shift (offset + 1)) [] := by
    have whole := read stop []
    rw [List.append_nil] at whole
    exact yields_unary (by decide) (by decide) (yields_postfixed whole nofun nofun) nofun
  exact ⟨tokens, span, _, scans, operand, fun stop least =>
    yields_binary_of_unary (by decide) (operand stop) nofun⟩

theorem parse_group (parsed : parse s = .ok e) : parse ("(" ++ s ++ ")") = .ok (e.shift 1) := by
  obtain ⟨tokens, span, stop, scans, _, read⟩ := exists_whole_group parsed 0
  exact parse_of_scans (by simp) scans (read _ 1)

theorem parse_minus (parsed : parse s = .ok e) :
    ∃ mark, parse ("-(" ++ s ++ ")") = .ok (.unary mark .neg (e.shift 2)) := by
  obtain ⟨tokens, span, stop, scans, read, _⟩ := exists_whole_group parsed 1
  exact ⟨_, parse_of_scans (by simp) ((scans_sign '-' .minus (by decide) 0 _).trans scans)
    (yields_binary_of_unary (by decide) (yields_minus (read _)) nofun)⟩

theorem parse_bang (parsed : parse s = .ok e) :
    ∃ mark, parse ("!(" ++ s ++ ")") = .ok (.unary mark .not (e.shift 2)) := by
  obtain ⟨tokens, span, stop, scans, read, _⟩ := exists_whole_group parsed 1
  have sign := scans_text (scan_sign_text .bang) (breaks_cons '(' (by decide) (s.toList ++ [')'])) 0
  exact ⟨_, parse_of_scans (by simp; rfl) (sign.trans scans)
    (yields_binary_of_unary (by decide) (yields_bang (read _)) nofun)⟩

theorem parse_not (parsed : parse s = .ok e) :
    ∃ mark, parse ("not (" ++ s ++ ")") = .ok (.unary mark .not (e.shift 5)) := by
  obtain ⟨tokens, span, stop, scans, _, read⟩ := exists_whole_group parsed 4
  have word := scans_text (scan_keyword_text .not)
    (breaks_cons ' ' (by decide) ('(' :: (s.toList ++ [')']))) 0
  exact ⟨_, parse_of_scans (by simp; rfl) (word.trans ((scans_blank _ _).trans scans))
    (yields_binary (yields_not (by decide) (read _ notPrecedence)) nofun)⟩

theorem parse_field (parsed : parse s = .ok e) {key : String} (isKey : IsKey key) :
    ∃ mark, parse ("(" ++ s ++ ")." ++ key) = .ok (.field mark (e.shift 1) key) := by
  obtain ⟨tokens, span, scans, read⟩ := exists_group parsed 0 ('.' :: key.toList)
  have word := scans_text (scan_word isKey.1) breaks_nil (0 + 1 + s.utf8ByteSize + 1 + 1)
  rw [List.append_nil] at word
  exact ⟨_, parse_of_scans (by simp) (scans.trans ((scans_sign '.' .dot (by decide) _ _).trans word))
    (yields_binary_of_unary (by decide) (yields_unary (by decide) (by decide)
      (yields_field (read _ _) (isProperty_wordToken isKey)) nofun) nofun)⟩

theorem parse_index (left : parse s = .ok e) (right : parse t = .ok e') :
    ∃ mark, parse ("(" ++ s ++ ")[" ++ t ++ "]") =
      .ok (.index mark (e.shift 1) (e'.shift (s.utf8ByteSize + 3))) := by
  obtain ⟨tokens, span, scans, read⟩ := exists_group left 0 ('[' :: (t.toList ++ [']']))
  have offset : 0 + 1 + s.utf8ByteSize + 1 + 1 = s.utf8ByteSize + 3 := by omega
  obtain ⟨tokens', closer, scans', read'⟩ :=
    exists_closed right ']' .closeBracket (by decide) (0 + 1 + s.utf8ByteSize + 1 + 1) []
  have position (stop : Span) :
      Yields (binary stop 1 tokens') (e'.shift (s.utf8ByteSize + 3))
        [⟨.sign .closeBracket, closer⟩] := by
    have whole := read' stop []
    rwa [List.append_nil, offset] at whole
  exact ⟨_, parse_of_scans (by simp)
    (scans.trans ((scans_sign '[' .openBracket (by decide) _ _).trans scans'))
    (yields_binary_of_unary (by decide) (yields_unary (by decide) (by decide)
      (yields_index (read _ _) (position _)) nofun) nofun)⟩

theorem parse_operation (left : parse s = .ok e) (right : parse t = .ok e') {op : BinaryOp}
    {spelling : String} (mem : spelling ∈ op.spellings) :
    ∃ mark, parse ("(" ++ s ++ ") " ++ spelling ++ " (" ++ t ++ ")") =
      .ok (.binary mark op (e.shift 1) (e'.shift (s.utf8ByteSize + spelling.utf8ByteSize + 5))) := by
  obtain ⟨token, scanned, written⟩ := op.scan_spelling mem
  obtain ⟨tokens, span, scans, read⟩ :=
    exists_group left 0 (' ' :: (spelling.toList ++ ' ' :: '(' :: (t.toList ++ [')'])))
  have sign := scans_text scanned (breaks_cons ' ' (by decide) ('(' :: (t.toList ++ [')'])))
    (0 + 1 + s.utf8ByteSize + 1 + 1)
  obtain ⟨tokens', span', stop, scans', _, read'⟩ :=
    exists_whole_group right (0 + 1 + s.utf8ByteSize + 1 + 1 + spelling.utf8ByteSize + 1)
  have offset : 0 + 1 + s.utf8ByteSize + 1 + 1 + spelling.utf8ByteSize + 1 + 1 =
      s.utf8ByteSize + spelling.utf8ByteSize + 5 := by omega
  rw [offset] at read'
  have moved : (token.shift (0 + 1 + s.utf8ByteSize + 1 + 1)).kind.binaryOp? = some op := written
  refine ⟨_, parse_of_scans (by simp) (scans.trans ((scans_blank _ _).trans
    (sign.trans ((scans_blank _ _).trans scans')))) (yields_operation (by nofun) ?_ moved (read' _ _))⟩
  refine yields_unary (by nofun) (by nofun) (yields_postfixed (read _ _) ?_ ?_) ?_
  all_goals
    rintro _ _ same
    rw [(List.cons.inj same).1] at moved
    cases moved

theorem parse_call {name : String} (isName : IsName name) (args : List (String × Expr Span))
    (all : ∀ arg ∈ args, parse arg.1 = .ok arg.2) :
    ∃ mark, parse (name ++ "(" ++ ", ".intercalate (args.map Prod.fst) ++ ")") =
      .ok (.call mark name (placed (name.utf8ByteSize + 1) args)) := by
  obtain ⟨tokens, span, opener, stop, scans, read⟩ := exists_call isName args all 0 []
  obtain ⟨closer, inner⟩ := read _ []
  rw [List.append_nil, Nat.zero_add] at inner
  exact ⟨_, parse_of_scans (by simp) scans (yields_binary_of_unary (by nofun)
    (yields_unary (by nofun) (by nofun) (yields_postfixed (yields_call inner) nofun nofun) nofun) nofun)⟩

theorem parse_filter (parsed : parse s = .ok e) {name : String} (isName : IsName name)
    (args : List (String × Expr Span)) (all : ∀ arg ∈ args, parse arg.1 = .ok arg.2) :
    ∃ mark, parse ("(" ++ s ++ ") | " ++ name ++ "(" ++ ", ".intercalate (args.map Prod.fst) ++ ")") =
      .ok (.call mark name (e.shift 1 :: placed (s.utf8ByteSize + name.utf8ByteSize + 6) args)) := by
  let call := name.toList ++ '(' :: ((", ".intercalate (args.map Prod.fst)).toList ++ [')'])
  obtain ⟨tokens, span, scans, read⟩ := exists_group parsed 0 (' ' :: '|' :: ' ' :: call)
  have sign := scans_text (scan_sign_text .pipe) (breaks_cons ' ' (by decide) call)
    (0 + 1 + s.utf8ByteSize + 1 + 1)
  obtain ⟨tokens', span', opener, stop, scans', read'⟩ :=
    exists_call isName args all (0 + 1 + s.utf8ByteSize + 1 + 1 + Sign.pipe.text.utf8ByteSize + 1) []
  obtain ⟨closer, inner⟩ := read' _ []
  have offset :
      0 + 1 + s.utf8ByteSize + 1 + 1 + Sign.pipe.text.utf8ByteSize + 1 + name.utf8ByteSize + 1 =
        s.utf8ByteSize + name.utf8ByteSize + 6 := by
    have one : Sign.pipe.text.utf8ByteSize = 1 := rfl
    omega
  rw [List.append_nil, offset] at inner
  exact ⟨_, parse_of_scans (by simp [call]) (scans.trans ((scans_blank _ _).trans
    (sign.trans ((scans_blank _ _).trans scans')))) (yields_binary_of_unary (by nofun)
      (yields_filter (by nofun) (by nofun) (yields_postfixed (read _ _) (by nofun) (by nofun)) inner)
      nofun)⟩

end Forms

end Parser

/-- Texts that parse are put together to texts that parse, and what is read is the node over their trees,
with the spans of each moved to where its text stands. A filter is the call with its input first. -/
theorem parse_of_parts {s t : String} {e e' : Expr Span} (left : parse s = .ok e)
    (right : parse t = .ok e') (args : List (String × Expr Span))
    (all : ∀ arg ∈ args, parse arg.1 = .ok arg.2) {name key : String} (isName : IsName name)
    (isKey : IsKey key) {op : BinaryOp} {spelling : String} (mem : spelling ∈ op.spellings) :
    parse ("(" ++ s ++ ")") = .ok (e.shift 1) ∧
    (∃ mark, parse ("(" ++ s ++ ") " ++ spelling ++ " (" ++ t ++ ")") =
      .ok (.binary mark op (e.shift 1) (e'.shift (s.utf8ByteSize + spelling.utf8ByteSize + 5)))) ∧
    (∃ mark, parse ("-(" ++ s ++ ")") = .ok (.unary mark .neg (e.shift 2))) ∧
    (∃ mark, parse ("!(" ++ s ++ ")") = .ok (.unary mark .not (e.shift 2))) ∧
    (∃ mark, parse ("not (" ++ s ++ ")") = .ok (.unary mark .not (e.shift 5))) ∧
    (∃ mark, parse ("(" ++ s ++ ")." ++ key) = .ok (.field mark (e.shift 1) key)) ∧
    (∃ mark, parse ("(" ++ s ++ ")[" ++ t ++ "]") =
      .ok (.index mark (e.shift 1) (e'.shift (s.utf8ByteSize + 3)))) ∧
    (∃ mark, parse (name ++ "(" ++ ", ".intercalate (args.map Prod.fst) ++ ")") =
      .ok (.call mark name (placed (name.utf8ByteSize + 1) args))) ∧
    ∃ filtered called,
      parse ("(" ++ s ++ ") | " ++ name ++ "(" ++ ", ".intercalate (args.map Prod.fst) ++ ")") =
        .ok filtered ∧
      parse (name ++ "(" ++ ", ".intercalate (s :: args.map Prod.fst) ++ ")") = .ok called ∧
      filtered.bare = called.bare ∧
      ∃ mark, filtered =
        .call mark name (e.shift 1 :: placed (s.utf8ByteSize + name.utf8ByteSize + 6) args) := by
  refine ⟨Parser.parse_group left, Parser.parse_operation left right mem, Parser.parse_minus left,
    Parser.parse_bang left, Parser.parse_not left, Parser.parse_field left isKey,
    Parser.parse_index left right, Parser.parse_call isName args all, ?_⟩
  obtain ⟨mark, filtered⟩ := Parser.parse_filter left isName args all
  obtain ⟨mark', called⟩ :=
    Parser.parse_call isName ((s, e) :: args) (List.forall_mem_cons.mpr ⟨left, all⟩)
  refine ⟨_, _, filtered, called, ?_, mark, rfl⟩
  have same :
      Expr.mapAll (fun _ => ()) (e.shift 1 :: placed (s.utf8ByteSize + name.utf8ByteSize + 6) args) =
        Expr.mapAll (fun _ => ()) (placed (name.utf8ByteSize + 1) ((s, e) :: args)) := by
    rw [bare_placed, Expr.mapAll, bare_placed]
    exact congrArg (· :: _) (Expr.bare_map _ e)
  exact congrArg (Expr.call () name) same

/-- A text with a character of two bytes, and a reserved word for the property. -/
theorem parse_of_parts_bytes :
    let e : Expr Span := .literal ⟨0, 4⟩ (.string "é")
    let e' : Expr Span := .binary ⟨0, 5⟩ .mul (.ident ⟨0, 1⟩ "x") (.ident ⟨4, 5⟩ "y")
    parse "'é'" = .ok e ∧ parse "x * y" = .ok e' ∧ IsName "MAX" ∧ IsKey "null" ∧
      (∃ mark, parse "('é') || (x * y)" = .ok (.binary mark .or (e.shift 1) (e'.shift 11))) ∧
      ∃ mark, parse "('é') | MAX(x * y)" = .ok (.call mark "MAX" [e.shift 1, e'.shift 13]) := by
  intro e e'
  have left : parse "'é'" = .ok e := by cbv
  have right : parse "x * y" = .ok e' := by cbv
  have isName : IsName "MAX" := by constructor <;> decide
  have isKey : IsKey "null" := ⟨by decide, by decide, by decide⟩
  have all : ∀ arg ∈ [("x * y", e')], parse arg.1 = .ok arg.2 := by
    simp only [List.forall_mem_singleton]
    exact right
  have spelled : "||" ∈ BinaryOp.or.spellings := by decide
  obtain ⟨_, operation, _, _, _, _, _, _, _, _, filtered, _, _, mark, rfl⟩ :=
    parse_of_parts left right [("x * y", e')] all isName isKey spelled
  exact ⟨left, right, isName, isKey, operation, mark, filtered⟩

end FormulaDoc
