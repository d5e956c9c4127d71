import FormulaDoc.Proofs.Formula.Spelling
import FormulaDoc.Proofs.Text.Lines

/-!
# What syntax errors say

A syntax error may name a token, and it names one of the text or its end. Names in a text are words,
characters and strings are written with escapes, and a backslash never stands before a newline that
could be named as its escape: hence no syntax error brings a newline into its message.
-/
namespace FormulaDoc

/-- A cause that comes up among tokens, where a token that it names is of some kinds. -/
def SyntaxCause.Names (kinds : TokenKind → Prop) : SyntaxCause → Prop
  | lexical _ => False
  | wrongCloser _ _ found | noOperand found | noFilterName found | anchorAfterDot found
  | noPropertyName found | trailing found => kinds found
  | emptyFormula | missingOperand | emptyIndex | strayCloser _ | unclosed _ => True

namespace Parser

/-! ## Errors name tokens -/

/-- An outcome of reading keeps to some kinds of tokens: what is left is of these kinds, and so is a
token that an error names. -/
def KeepsTo (kinds : TokenKind → Prop) : Except SyntaxError (List Token) → Prop
  | .ok rest => ∀ token ∈ rest, kinds token.kind
  | .error e => e.cause.Names kinds

section Keeping

variable {kinds : TokenKind → Prop} {stop : Span} {tokens : List Token}

theorem keepsTo_closing (stop : Span) (all : ∀ token ∈ tokens, kinds token.kind) (closer : Sign)
    (opener : Span) :
    KeepsTo kinds ((closing stop closer opener tokens).map Closed.rest) := by
  rw [closing.eq_def]
  split
  · trivial
  · obtain ⟨first, others⟩ := List.forall_mem_cons.mp all
    split
    · exact others
    · exact first

theorem keepsTo_scopeLinks (depth : Nat) (last : Span) (all : ∀ token ∈ tokens, kinds token.kind) :
    ∀ token ∈ (scopeLinks depth last tokens).2.2, kinds token.kind := by
  fun_induction scopeLinks depth last tokens with
  | case1 depth last _ span rest ih | case2 depth last _ span rest ih =>
    exact ih (List.forall_mem_cons.mp (List.forall_mem_cons.mp all).2).2
  | case3 => exact all

theorem keepsTo_propertyName {dot : Span} {token : Token} {e : SyntaxError} (known : kinds token.kind)
    (failed : propertyName dot token = .error e) : e.cause.Names kinds := by
  rw [propertyName] at failed
  split at failed
  · cases failed
  · split at failed <;> cases failed
    exact known
  · cases failed
    exact known
  · cases failed
    exact known

theorem keepsTo_current (final : kinds .endOfText) (all : ∀ token ∈ tokens, kinds token.kind) :
    kinds (current stop tokens).kind := by
  cases tokens with
  | nil => exact final
  | cons token _ => exact all token List.mem_cons_self

/-- Expressions of fewer tokens than a number are read so that all kinds are kept to. -/
def Keeping (kinds : TokenKind → Prop) (stop : Span) (bound : Nat) : Prop :=
  ∀ ⦃tokens : List Token⦄, tokens.length < bound → (∀ token ∈ tokens, kinds token.kind) → ∀ least,
    KeepsTo kinds ((binary stop least tokens).map Parsed.rest)

variable {bound : Nat} (final : kinds .endOfText) (keeping : Keeping kinds stop bound)

include keeping

theorem keepsTo_someArguments (opener : Span) {tokens : List Token}
    (all : ∀ token ∈ tokens, kinds token.kind) (fewer : tokens.length < bound) :
    KeepsTo kinds ((someArguments stop opener tokens).map ParsedArgs.rest) := by
  have first := keeping fewer all 1
  rw [someArguments]
  split
  · rename_i failed
    rw [failed] at first
    exact first
  · rename_i p read
    rw [read] at first
    have left : ∀ token ∈ p.rest, kinds token.kind := first
    split
    · rename_i comma others next
      have shorter : others.length < tokens.length := by
        have := p.shorter
        simp only [next, List.length_cons] at this
        omega
      rw [next] at left
      have more := keepsTo_someArguments opener (List.forall_mem_cons.mp left).2
        (Nat.lt_trans shorter fewer)
      split
      · rename_i failed
        rw [failed] at more
        exact more
      · rename_i read
        rw [read] at more
        exact more
    · have last := keepsTo_closing stop left .closeParen opener
      split
      · rename_i failed
        rw [failed] at last
        exact last
      · rename_i closes
        rw [closes] at last
        exact last
termination_by tokens.length

theorem keepsTo_arguments (opener : Span) (all : ∀ token ∈ tokens, kinds token.kind)
    (fewer : tokens.length < bound) :
    KeepsTo kinds ((arguments stop opener tokens).map ParsedArgs.rest) := by
  rw [arguments.eq_def]
  split
  · exact (List.forall_mem_cons.mp all).2
  · exact keepsTo_someArguments keeping opener all fewer

theorem keepsTo_primary (all : ∀ token ∈ tokens, kinds token.kind) (fewer : tokens.length ≤ bound) :
    KeepsTo kinds ((primary stop tokens).map Parsed.rest) := by
  rw [primary.eq_def]
  split
  · trivial
  · rename_i name span opener rest
    have args := keepsTo_arguments keeping opener
      (List.forall_mem_cons.mp (List.forall_mem_cons.mp all).2).2 (by simp at fewer; omega)
    split
    · rename_i failed
      rw [failed] at args
      exact args
    · rename_i read
      rw [read] at args
      exact args
  · exact (List.forall_mem_cons.mp all).2
  · exact keepsTo_scopeLinks _ _ (List.forall_mem_cons.mp all).2
  · exact keepsTo_scopeLinks _ _ (List.forall_mem_cons.mp all).2
  · exact (List.forall_mem_cons.mp all).2
  · rename_i span rest
    have inner := keeping fewer (List.forall_mem_cons.mp all).2 1
    split
    · rename_i failed
      rw [failed] at inner
      exact inner
    · rename_i p read
      rw [read] at inner
      have last := keepsTo_closing stop inner .closeParen span
      split
      · rename_i failed
        rw [failed] at last
        exact last
      · rename_i closes
        rw [closes] at last
        exact last
  · trivial
  · trivial
  · split
    · exact (List.forall_mem_cons.mp all).2
    · exact (List.forall_mem_cons.mp all).1

include final

theorem keepsTo_accesses {receiver : Parsed tokens} (all : ∀ token ∈ receiver.rest, kinds token.kind)
    (fewer : receiver.rest.length ≤ bound) :
    KeepsTo kinds ((accesses stop receiver).map Parsed.rest) := by
  rw [accesses]
  split
  · rename_i dot rest next
    rw [next] at all
    split
    · exact final
    · rename_i token more _
      obtain ⟨known, others⟩ := List.forall_mem_cons.mp (List.forall_mem_cons.mp all).2
      split
      · rename_i failed
        exact keepsTo_propertyName known failed
      · have shorter : more.length < receiver.rest.length := by
          simp only [next, List.length_cons]
          omega
        exact keepsTo_accesses others (Nat.le_of_lt (Nat.lt_of_lt_of_le shorter fewer))
  · rename_i opener rest next
    have less : rest.length < receiver.rest.length := by rw [next]; exact Nat.lt_succ_self _
    rw [next] at all
    split
    · trivial
    · have inner := keeping (Nat.lt_of_lt_of_le less fewer) (List.forall_mem_cons.mp all).2 1
      split
      · rename_i failed
        rw [failed] at inner
        exact inner
      · rename_i p read
        rw [read] at inner
        have last := keepsTo_closing stop inner .closeBracket opener
        split
        · rename_i failed
          rw [failed] at last
          exact last
        · rename_i closed closes
          rw [closes] at last
          have shorter : closed.rest.length < receiver.rest.length := by
            have := p.shorter
            have := closed.shorter
            omega
          exact keepsTo_accesses last (Nat.le_of_lt (Nat.lt_of_lt_of_le shorter fewer))
  · exact all
termination_by receiver.rest.length

theorem keepsTo_postfixed (all : ∀ token ∈ tokens, kinds token.kind) (fewer : tokens.length ≤ bound) :
    KeepsTo kinds ((postfixed stop tokens).map Parsed.rest) := by
  have first := keepsTo_primary keeping all fewer
  rw [postfixed]
  split
  · rename_i failed
    rw [failed] at first
    exact first
  · rename_i receiver read
    rw [read] at first
    exact keepsTo_accesses final keeping first
      (Nat.le_of_lt (Nat.lt_of_lt_of_le receiver.shorter fewer))

theorem keepsTo_filters {input : Parsed tokens} (all : ∀ token ∈ input.rest, kinds token.kind)
    (fewer : input.rest.length ≤ bound) :
    KeepsTo kinds ((filters stop input).map Parsed.rest) := by
  rw [filters]
  split
  · rename_i next
    rw [next] at all
    have behind := (List.forall_mem_cons.mp all).2
    split
    · rename_i name span opener more _
      have args := keepsTo_arguments keeping opener
        (List.forall_mem_cons.mp (List.forall_mem_cons.mp behind).2).2
        (by simp only [next, List.length_cons] at fewer; omega)
      split
      · rename_i failed
        rw [failed] at args
        exact args
      · rename_i p read
        rw [read] at args
        have shorter : p.rest.length < input.rest.length := by
          have := p.shorter
          simp only [next, List.length_cons]
          omega
        exact keepsTo_filters args (Nat.le_of_lt (Nat.lt_of_lt_of_le shorter fewer))
    · rename_i name span more _ _
      have shorter : more.length < input.rest.length := by
        simp only [next, List.length_cons]
        omega
      exact keepsTo_filters (List.forall_mem_cons.mp behind).2
        (Nat.le_of_lt (Nat.lt_of_lt_of_le shorter fewer))
    · exact keepsTo_current final behind
  · exact all
termination_by input.rest.length

theorem keepsTo_unary {tokens : List Token} (all : ∀ token ∈ tokens, kinds token.kind)
    (fewer : tokens.length ≤ bound) : KeepsTo kinds ((unary stop tokens).map Parsed.rest) := by
  rw [unary.eq_def]
  split
  · have operand := keepsTo_unary (List.forall_mem_cons.mp all).2 (Nat.le_of_lt fewer)
    split
    · rename_i failed
      rw [failed] at operand
      exact operand
    · rename_i read
      rw [read] at operand
      exact operand
  · have operand := keepsTo_unary (List.forall_mem_cons.mp all).2 (Nat.le_of_lt fewer)
    split
    · rename_i failed
      rw [failed] at operand
      exact operand
    · rename_i read
      rw [read] at operand
      exact operand
  · have first := keepsTo_postfixed final keeping all fewer
    split
    · rename_i failed
      rw [failed] at first
      exact first
    · rename_i input read
      rw [read] at first
      exact keepsTo_filters final keeping first
        (Nat.le_of_lt (Nat.lt_of_lt_of_le input.shorter fewer))
termination_by tokens.length

theorem keepsTo_operand (least : Nat) (all : ∀ token ∈ tokens, kinds token.kind)
    (fewer : tokens.length ≤ bound) : KeepsTo kinds ((operand stop least tokens).map Parsed.rest) := by
  rw [operand.eq_def]
  split
  · split
    · have inner := keeping fewer (List.forall_mem_cons.mp all).2 notPrecedence
      split
      · rename_i failed
        rw [failed] at inner
        exact inner
      · rename_i read
        rw [read] at inner
        exact inner
    · exact keepsTo_unary final keeping all fewer
  · exact keepsTo_unary final keeping all fewer

omit final in
theorem keepsTo_climb {least : Nat} {left : Parsed tokens} (all : ∀ token ∈ left.rest, kinds token.kind)
    (fewer : left.rest.length ≤ bound) :
    KeepsTo kinds ((climb stop least left).map Parsed.rest) := by
  rw [climb]
  split
  · exact all
  · rename_i token rest next
    split
    · exact all
    · rename_i op written
      split
      · exact all
      · have less : rest.length < left.rest.length := by rw [next]; exact Nat.lt_succ_self _
        rw [next] at all
        have right := keeping (Nat.lt_of_lt_of_le less fewer) (List.forall_mem_cons.mp all).2
          (op.precedence + 1)
        split
        · rename_i failed
          rw [failed] at right
          exact right
        · rename_i p read
          rw [read] at right
          have shorter : p.rest.length < left.rest.length := Nat.lt_trans p.shorter less
          exact keepsTo_climb right (Nat.le_of_lt (Nat.lt_of_lt_of_le shorter fewer))
termination_by left.rest.length

theorem keepsTo_binary (least : Nat) (all : ∀ token ∈ tokens, kinds token.kind)
    (fewer : tokens.length ≤ bound) : KeepsTo kinds ((binary stop least tokens).map Parsed.rest) := by
  have first := keepsTo_operand final keeping least all fewer
  rw [binary]
  split
  · rename_i failed
    rw [failed] at first
    exact first
  · rename_i left read
    rw [read] at first
    exact keepsTo_climb keeping first (Nat.le_of_lt (Nat.lt_of_lt_of_le left.shorter fewer))

end Keeping

theorem keeping {kinds : TokenKind → Prop} (final : kinds .endOfText) (stop : Span) (bound : Nat) :
    Keeping kinds stop bound := by
  induction bound with
  | zero => exact fun _ none => absurd none (Nat.not_lt_zero _)
  | succ bound ih =>
    exact fun _ fewer all least => keepsTo_binary final ih least all (Nat.le_of_lt_succ fewer)

/-- An error that comes up among tokens names one of them or the end of the text. -/
theorem names_of_formula {kinds : TokenKind → Prop} (final : kinds .endOfText) {stop : Span}
    {tokens : List Token} (all : ∀ token ∈ tokens, kinds token.kind) {e : SyntaxError}
    (failed : formula stop tokens = .error e) : e.cause.Names kinds := by
  have read := keeping final stop _ (Nat.lt_succ_self tokens.length) all 1
  unfold formula at failed
  split at failed
  · cases failed
    trivial
  · split at failed
    · rename_i same
      rw [same] at read
      cases failed
      exact read
    · rename_i p same
      rw [same] at read
      have left : ∀ token ∈ p.rest, kinds token.kind := read
      split at failed
      · cases failed
      · cases failed
        trivial
      · cases failed
        trivial
      · rename_i next
        cases failed
        exact left _ (next ▸ List.mem_cons_self)

end Parser

/-! ## What tokens are called -/

open Text

@[simp] theorem Span.newlines_text (span : Span) : newlines span.text = 0 := by
  rw [Span.text, newlines_append_of_right (newlines_natural _), newlines_append_of_left (newlines_natural _)]
  exact newlines_ofList _

@[simp] theorem TokenKind.newlines_name (kind : TokenKind) : newlines kind.name = 0 := by
  have quoted {text : String} (none : newlines text = 0) : newlines ("`" ++ text ++ "`") = 0 := by
    rw [newlines_append_of_right, newlines_append_of_right none] <;> exact newlines_ofList _
  cases kind with
  | word w => exact quoted (by cases w <;> exact newlines_ofList _)
  | sign s => exact quoted (by cases s <;> exact newlines_ofList _)
  | number _ | string _ | ident _ | endOfText => exact newlines_ofList _

theorem TokenKind.newlines_text {kind : TokenKind} (legible : kind.Legible) : newlines kind.text = 0 := by
  cases kind with
  | number n =>
    rw [text, newlines_append_of_right (newlines_decimal n)]
    exact newlines_ofList _
  | string s =>
    rw [text, newlines_append_of_right (newlines_visibleQuoted s)]
    exact newlines_ofList _
  | ident name =>
    simp only [text, newlines_append_eq_zero, and_assoc]
    exact ⟨newlines_ofList _, newlines_of_isWord legible.1, newlines_ofList _⟩
  | word _ | sign _ | endOfText => exact newlines_name _

/-! ## Lexical errors -/

theorem eq_error_of_map {ε α β : Type} {f : α → β} {outcome : Except ε α} {e : ε}
    (failed : outcome.map f = .error e) : outcome = .error e := by
  cases outcome <;> cases failed
  rfl

namespace Lexer

open Computability

theorem newline_not_mem_number {piece : List Char} (matched : piece ∈ Pattern.number.language) :
    '\n' ∉ piece := by
  have noDigits {ds : List Char} (all : ds ∈ digits) : '\n' ∉ ds :=
    fun mem => absurd ((mem_digits.mp all).2 _ mem) (by decide)
  obtain ⟨whole, all, tail, fraction, power, exponent, rfl⟩ := mem_number.mp matched
  rw [List.mem_append, List.mem_append, not_or, not_or]
  refine ⟨noDigits all, ?_, ?_⟩
  · rcases fraction with rfl | ⟨_, rfl, part, digits, rfl⟩
    · exact List.not_mem_nil
    · simpa using noDigits digits
  · rcases exponent with rfl | ⟨_, ⟨mark, isMark, rfl⟩, _, ⟨sign, signed, part, digits, rfl⟩, rfl⟩
    · exact List.not_mem_nil
    · have noMark : '\n' ≠ mark := by rintro rfl; cases isMark
      have noSign : '\n' ∉ sign := by
        rcases signed with rfl | ⟨c, isSign, rfl⟩
        · exact List.not_mem_nil
        · rw [List.mem_singleton]
          rintro rfl
          cases isSign
      simp [noMark, noSign, noDigits digits]

/-- The escape that makes no sense in the body of a string is not of a newline. -/
theorem unescape_error_ne {quote : Char} {body : List Char} (made : body ∈ (stringUnit quote)∗)
    {c : Char} (failed : unescape body = .error c) : c ≠ '\n' := by
  obtain ⟨units, rfl, each⟩ := made
  induction units with
  | nil => cases failed
  | cons unit units ih =>
    have others := ih fun piece mem => each piece (List.mem_cons_of_mem _ mem)
    rw [List.flatten_cons] at failed
    rcases each unit List.mem_cons_self with ⟨d, plain, rfl⟩ | ⟨_, rfl, _, ⟨d, escaped, rfl⟩, rfl⟩
    · simp only [Bool.and_eq_true, bne_iff_ne] at plain
      rw [List.singleton_append, unescape] at failed
      · exact others (eq_error_of_map failed)
      · exact fun _ _ same _ => plain.2 same
    · simp only [List.cons_append, List.nil_append, unescape] at failed
      split at failed
      · cases failed
        exact bne_iff_ne.mp escaped
      · exact others (eq_error_of_map failed)

theorem newlines_of_lexeme {c : Char} {cs : List Char} {cause : LexCause}
    (failed : (lexeme c cs).1 = .error cause) : newlines cause.message = 0 := by
  generalize found : lexeme c cs = found at failed
  cases found ▸ lexes_lexeme c cs with
  | @number more _ matched =>
    simp only [numeralToken] at failed
    split at failed <;> cases failed
    have digits : newlines (String.ofList (c :: cs.take more)) = 0 := by
      rw [newlines_eq_zero_iff, String.toList_ofList]
      exact newline_not_mem_number matched
    dsimp only [LexCause.message]
    simp only [newlines_append_eq_zero, and_assoc]
    exact ⟨newlines_ofList _, digits, newlines_ofList _⟩
  | string _ made _ =>
    simp only [stringToken] at failed
    split at failed <;> cases failed
    rename_i c invalid
    have other : newlines (String.singleton c) = 0 := by
      rw [newlines_eq_zero_iff, String.toList_singleton, List.mem_singleton]
      exact (unescape_error_ne made invalid).symm
    dsimp only [LexCause.message]
    simp only [newlines_append_eq_zero, and_assoc]
    exact ⟨newlines_ofList _, other, newlines_ofList _⟩
  | openString =>
    cases failed
    exact newlines_ofList _
  | word | sign => cases failed
  | invalid =>
    cases failed
    dsimp only [LexCause.message]
    rw [newlines_append_of_right (newlines_visibleQuotedChar _)]
    exact newlines_ofList _

theorem newlines_of_scan {offset : Nat} {cs : List Char} {e : LexError}
    (failed : scan offset cs = .error e) : newlines e.cause.message = 0 := by
  induction offset, cs using scan.induct with
  | case1 =>
    rw [scan_nil] at failed
    cases failed
  | case2 offset c cs space ih => exact ih (scan_space space offset cs ▸ failed)
  | case3 offset c cs space found cause invalid =>
    rw [scan_error space (Prod.ext invalid rfl)] at failed
    cases failed
    exact newlines_of_lexeme invalid
  | case4 offset c cs space found stop kind read _ _ ih
  | case5 offset c cs space found stop kind read _ _ ih =>
    rw [scan_lexeme space (Prod.ext read rfl)] at failed
    exact ih (eq_error_of_map failed)

end Lexer

/-! ## Syntax errors -/

theorem SyntaxCause.Names.newlines_message {cause : SyntaxCause}
    (legible : cause.Names TokenKind.Legible) : newlines cause.message = 0 := by
  cases cause with
  | lexical _ => exact legible.elim
  | emptyFormula | missingOperand | emptyIndex => exact newlines_ofList _
  | strayCloser _ | unclosed _ =>
    dsimp only [message]
    rw [newlines_append_of_right (TokenKind.newlines_name _)]
    exact newlines_ofList _
  | anchorAfterDot _ =>
    dsimp only [message]
    rw [newlines_append_of_left (TokenKind.newlines_name _)]
    exact newlines_ofList _
  | wrongCloser closer opener found =>
    dsimp only [message]
    simp only [newlines_append_eq_zero, and_assoc]
    exact ⟨newlines_ofList _, TokenKind.newlines_name _, newlines_ofList _, opener.newlines_text,
      newlines_ofList _, TokenKind.newlines_text legible⟩
  | noOperand found | noFilterName found | noPropertyName found =>
    dsimp only [message]
    rw [newlines_append_of_right (TokenKind.newlines_text legible)]
    exact newlines_ofList _
  | trailing found =>
    dsimp only [message]
    simp only [newlines_append_eq_zero, and_assoc]
    exact ⟨newlines_ofList _, TokenKind.newlines_text legible, newlines_ofList _⟩

/-- The text of a syntax error is one line. -/
theorem newlines_of_parse {source : String} {e : SyntaxError} (failed : parse source = .error e) :
    newlines e.text = 0 := by
  have message : newlines e.message = 0 := by
    rw [parse] at failed
    split at failed
    · rename_i scanned
      cases failed
      exact Lexer.newlines_of_scan scanned
    · rename_i scanned
      exact (Parser.names_of_formula trivial (legible_of_scan scanned) failed).newlines_message
  rw [SyntaxError.text, newlines_append_of_right (Span.newlines_text _), newlines_append_of_left message]
  exact newlines_ofList _

end FormulaDoc
