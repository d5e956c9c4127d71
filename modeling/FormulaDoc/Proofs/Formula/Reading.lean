import Mathlib
import FormulaDoc.Proofs.Formula.Recognition

/-!
# What has a derivation is read

A phrase is read wherever what follows lets go of it, and what is read is what it means. The loop over
operators of all layers does the same as one loop for each layer, the tightest first.
-/
namespace FormulaDoc

namespace Parser

open Grammar

variable {stop : Span} {tokens : List Token}

/-! ## The loop over operators -/

theorem halts_of_pull {least : Nat} (h : pull (tokens.map Token.kind) < least) :
    Halts least tokens := by
  rintro token rest op rfl written
  obtain ⟨l, mem⟩ := exists_mem_operators written
  rw [List.map_cons, pull_operator mem, ← (Layer.of_mem_operators mem).2] at h
  exact h

theorem climb_of_halts {least : Nat} {left : Parsed tokens} (halts : Halts least left.rest) :
    climb stop least left = .ok left := by
  rw [climb]
  split
  · rfl
  · rename_i token rest next
    split
    · rfl
    · rename_i op written
      rw [if_pos (halts token rest op next written)]

/-- One round of the loop. -/
theorem exists_climb_eq {left : Parsed tokens} {token : Token} {rest : List Token} {op : BinaryOp}
    {right : Parsed rest} (next : left.rest = token :: rest)
    (written : token.kind.binaryOp? = some op)
    (read : binary stop (op.precedence + 1) rest = .ok right) :
    ∃ left' : Parsed tokens, left'.rest = right.rest ∧
      left'.expr = .binary (left.expr.mark.merge right.expr.mark) op left.expr right.expr ∧
      ∀ least ≤ op.precedence, climb stop least left = climb stop least left' := by
  obtain ⟨expr, _, shorter⟩ := left
  cases next
  refine ⟨⟨.binary (expr.mark.merge right.expr.mark) op expr right.expr, right.rest, ?_⟩, rfl, rfl, ?_⟩
  · have := right.shorter
    simp only [List.length_cons] at shorter
    omega
  · intro least tight
    rw [climb]
    simp only [written, read, if_neg (Nat.not_lt_of_le tight)]

/-- Whoever takes the looser operators may first take the tighter ones. -/
theorem climb_of_tighter {least least' : Nat} (h : least ≤ least') {left p : Parsed tokens}
    (taken : climb stop least' left = .ok p) : climb stop least left = climb stop least p := by
  have again := taken
  rw [climb] at taken
  split at taken
  · cases taken
    rfl
  · rename_i token rest next
    split at taken
    · cases taken
      rfl
    · rename_i op written
      split at taken
      · cases taken
        rfl
      · rename_i tight
        split at taken
        · cases taken
        · rename_i right read
          have tight := Nat.le_of_not_lt tight
          obtain ⟨left', ends, _, same⟩ := exists_climb_eq next written read
          have shorter : left'.rest.length < left.rest.length := by
            have := right.shorter
            simp only [ends, next, List.length_cons]
            omega
          rw [same least' tight] at again
          rw [same least (Nat.le_trans h tight), climb_of_tighter h again]
termination_by left.rest.length

theorem operand_of_head {least : Nat} {kind : TokenKind} {kinds : List TokenKind}
    (spelled : tokens.map Token.kind = kind :: kinds) (other : kind ≠ .word .not) :
    operand stop least tokens = unary stop tokens := by
  rw [operand.eq_def]
  split
  · cases spelled
    exact absurd rfl other
  · rfl

theorem operand_of_tight {least : Nat} (tight : notPrecedence < least) :
    operand stop least tokens = unary stop tokens := by
  rw [operand.eq_def]
  split
  · rw [if_neg (Nat.not_le_of_lt tight)]
  · rfl

theorem operand_congr {least least' : Nat} (h : least ≤ notPrecedence ↔ least' ≤ notPrecedence) :
    operand stop least tokens = operand stop least' tokens := by
  rw [operand.eq_def, operand.eq_def]
  split
  · simp only [h]
  · rfl

theorem binary_of_tighter {least least' : Nat} (h : least ≤ least')
    (same : operand stop least tokens = operand stop least' tokens) {p : Parsed tokens}
    (read : binary stop least' tokens = .ok p) :
    binary stop least tokens = climb stop least p := by
  rw [binary] at read ⊢
  rw [same]
  split at read
  · cases read
  · rename_i left _
    exact climb_of_tighter h read

/-- No operator binds as tightly as signs, so that the loop takes none. -/
theorem binary_unary (stop : Span) (tokens : List Token) :
    binary stop Nonterminal.unary.strength tokens = unary stop tokens := by
  rw [binary, operand_of_tight (by decide)]
  split
  · rename_i failed
    exact failed.symm
  · rename_i left read
    rw [climb_of_halts (halts_unary (show 8 ≤ Nonterminal.unary.strength from Nat.le_refl _) _), read]

/-! ## The loop over filters -/

theorem filters_of_ne {input : Parsed tokens}
    (noPipe : ∀ span rest, input.rest ≠ ⟨.sign .pipe, span⟩ :: rest) :
    filters stop input = .ok input := by
  rw [filters]
  split
  · rename_i next
    exact absurd next (noPipe _ _)
  · rfl

theorem filters_of_pull {input : Parsed tokens}
    (h : pull (input.rest.map Token.kind) < Nonterminal.filter.strength) :
    filters stop input = .ok input := by
  refine filters_of_ne fun span rest next => ?_
  rw [next] at h
  exact absurd h (Nat.lt_irrefl _)

theorem exists_filters_name {input : Parsed tokens} {pipe span : Span} {name : String}
    {more : List Token} (next : input.rest = ⟨.sign .pipe, pipe⟩ :: ⟨.ident name, span⟩ :: more)
    (bare : ∀ opener rest, more ≠ ⟨.sign .openParen, opener⟩ :: rest) :
    ∃ input' : Parsed tokens, input'.rest = more ∧
      input'.expr = .call (input.expr.mark.merge span) name [input.expr] ∧
      filters stop input = filters stop input' := by
  obtain ⟨expr, _, shorter⟩ := input
  cases next
  refine ⟨⟨.call (expr.mark.merge span) name [expr], more, ?_⟩, rfl, rfl, ?_⟩
  · simp only [List.length_cons] at shorter
    omega
  · rw [filters]
    split
    · rename_i same
      cases same
      split
      · rename_i same _
        cases same
        exact absurd rfl (bare _ _)
      · rename_i same _ _ _
        cases same
        rfl
      · rename_i other
        exact (other name span more rfl rfl HEq.rfl).elim
    · rename_i other
      exact (other _ _ rfl).elim

theorem exists_filters_call {input : Parsed tokens} {pipe span opener : Span} {name : String}
    {more : List Token} {args : ParsedArgs more}
    (next : input.rest =
      ⟨.sign .pipe, pipe⟩ :: ⟨.ident name, span⟩ :: ⟨.sign .openParen, opener⟩ :: more)
    (read : arguments stop opener more = .ok args) :
    ∃ input' : Parsed tokens, input'.rest = args.rest ∧
      input'.expr = .call (input.expr.mark.merge args.closer) name (input.expr :: args.args) ∧
      filters stop input = filters stop input' := by
  obtain ⟨expr, _, shorter⟩ := input
  cases next
  refine ⟨⟨.call (expr.mark.merge args.closer) name (expr :: args.args), args.rest, ?_⟩, rfl, rfl, ?_⟩
  · have := args.shorter
    simp only [List.length_cons] at shorter
    omega
  · rw [filters]
    simp only [read]

/-! ## The loop over properties and indices -/

theorem accesses_of_ne {receiver : Parsed tokens}
    (noDot : ∀ span rest, receiver.rest ≠ ⟨.sign .dot, span⟩ :: rest)
    (noIndex : ∀ span rest, receiver.rest ≠ ⟨.sign .openBracket, span⟩ :: rest) :
    accesses stop receiver = .ok receiver := by
  rw [accesses]
  split
  · rename_i next
    exact absurd next (noDot _ _)
  · rename_i next
    exact absurd next (noIndex _ _)
  · rfl

theorem accesses_of_pull {receiver : Parsed tokens}
    (h : pull (receiver.rest.map Token.kind) < Nonterminal.access.strength) :
    accesses stop receiver = .ok receiver := by
  have held : ∀ kinds, Nonterminal.access.strength ≤ pull (.sign .dot :: kinds) := by
    intro kinds
    unfold pull
    split <;> simp_all [Nonterminal.strength]
  refine accesses_of_ne (fun span rest next => ?_) fun span rest next => ?_
  · rw [next, List.map_cons] at h
    exact absurd h (Nat.not_lt_of_le (held _))
  · rw [next] at h
    exact absurd h (Nat.lt_irrefl _)

theorem propertyName_of_isProperty {dot : Span} {token : Token} {name : String}
    (named : IsProperty token.kind name) : propertyName dot token = .ok name := by
  obtain ⟨kind, span⟩ := token
  cases named with
  | name _ => rfl
  | @word w mem => cases w <;> first | rfl | simp at mem

theorem exists_accesses_property {receiver : Parsed tokens} {dot : Span} {token : Token}
    {name : String} {more : List Token} (next : receiver.rest = ⟨.sign .dot, dot⟩ :: token :: more)
    (named : IsProperty token.kind name) :
    ∃ receiver' : Parsed tokens, receiver'.rest = more ∧
      receiver'.expr = .field (receiver.expr.mark.merge token.span) receiver.expr name ∧
      accesses stop receiver = accesses stop receiver' := by
  obtain ⟨expr, _, shorter⟩ := receiver
  cases next
  refine ⟨⟨.field (expr.mark.merge token.span) expr name, more, ?_⟩, rfl, rfl, ?_⟩
  · simp only [List.length_cons] at shorter
    omega
  · rw [accesses]
    simp only [propertyName_of_isProperty named]

theorem closing_of_head (stop opener : Span) {closer : Sign} {kinds : List TokenKind}
    (spelled : tokens.map Token.kind = .sign closer :: kinds) :
    ∃ closed : Closed tokens, closing stop closer opener tokens = .ok closed ∧
      closed.rest.map Token.kind = kinds := by
  obtain ⟨token, rest, rfl, head, spelled⟩ := List.map_eq_cons_iff.mp spelled
  exact ⟨⟨token.span, rest, Nat.lt_succ_self _⟩, by rw [closing, if_pos head], spelled⟩

theorem exists_accesses_index {receiver : Parsed tokens} {opener : Span} {more : List Token}
    {position : Parsed more} {closed : Closed position.rest}
    (next : receiver.rest = ⟨.sign .openBracket, opener⟩ :: more)
    (some : ∀ span rest, more ≠ ⟨.sign .closeBracket, span⟩ :: rest)
    (read : binary stop 1 more = .ok position)
    (closes : closing stop .closeBracket opener position.rest = .ok closed) :
    ∃ receiver' : Parsed tokens, receiver'.rest = closed.rest ∧
      receiver'.expr =
        .index (receiver.expr.mark.merge closed.closer) receiver.expr position.expr ∧
      accesses stop receiver = accesses stop receiver' := by
  obtain ⟨expr, _, shorter⟩ := receiver
  cases next
  refine ⟨⟨.index (expr.mark.merge closed.closer) expr position.expr, closed.rest, ?_⟩, rfl, rfl, ?_⟩
  · have := position.shorter
    have := closed.shorter
    simp only [List.length_cons] at shorter
    omega
  · rw [accesses]
    split
    · rename_i same
      cases same
    · rename_i same
      cases same
      split
      · exact absurd rfl (some _ _)
      · simp only [read, closes]
    · rename_i other
      exact (other _ _ rfl).elim

/-! ## Phrases are read -/

/-- What reads a phrase that stands for an expression. -/
def reader (stop : Span) (tokens : List Token) : Nonterminal → Except SyntaxError (Parsed tokens)
  | .filter => unary stop tokens
  | .access => postfixed stop tokens
  | .primary => primary stop tokens
  | n => binary stop n.strength tokens

theorem reader_operand (l : Layer) :
    reader stop tokens l.operand = binary stop (l.strength + 1) tokens := by
  cases l <;> rfl

theorem reader_unary : reader stop tokens .unary = unary stop tokens := binary_unary stop tokens

/-- From some tokens a reader gets an expression and leaves a rest. -/
def Gets {tokens : List Token} (result : Except SyntaxError (Parsed tokens)) (e : Expr Unit)
    (rest : List TokenKind) : Prop :=
  ∃ p : Parsed tokens, result = .ok p ∧ p.rest.map Token.kind = rest ∧ p.expr.bare = e

/-- A loop goes on after something read as it stands before a phrase. -/
def Extends (loop : ∀ {tokens : List Token}, Parsed tokens → Except SyntaxError (Parsed tokens))
    (s : Symbol) (before : List TokenKind) (f : Expr Unit → Expr Unit) : Prop :=
  ∀ {tokens : List Token} (left : Parsed tokens) (kinds : List TokenKind),
    left.rest.map Token.kind = before ++ kinds → s.Stops kinds → Gets (loop left) (f left.expr.bare) kinds

/-- Arguments are read up to the parenthesis that closes them. -/
def GetsArgs {tokens : List Token} (result : Except SyntaxError (ParsedArgs tokens))
    (es : List (Expr Unit)) (rest : List TokenKind) : Prop :=
  ∃ p : ParsedArgs tokens, result = .ok p ∧ p.rest.map Token.kind = rest ∧
    Expr.mapAll (fun _ => ()) p.args = es

/-- A phrase is read wherever it stands in front of something that stops it, and what is read is what
it means. -/
def Reads : {s : Symbol} → Phrase s → Prop
  | .whole n, p => ∀ (stop : Span) (tokens : List Token) (kinds : List TokenKind),
    tokens.map Token.kind = p.tokens ++ kinds → (Symbol.whole n).Stops kinds →
      Gets (reader stop tokens n) p.meaning kinds
  | .operations l, p =>
    ∀ stop, Extends (climb stop l.strength) (.operations l) p.tokens p.meaning
  | .filters, p => ∀ stop, Extends (filters stop) .filters p.tokens p.meaning
  | .accesses, p => ∀ stop, Extends (accesses stop) .accesses p.tokens p.meaning
  | .links, p => ∀ (depth : Nat) (last : Span) (tokens : List Token) (kinds : List TokenKind),
    tokens.map Token.kind = p.tokens ++ kinds → Symbol.links.Stops kinds →
      (scopeLinks depth last tokens).1 = depth + p.meaning ∧
        (scopeLinks depth last tokens).2.2.map Token.kind = kinds
  | .arguments, p => ∀ (stop opener : Span) (tokens : List Token) (kinds : List TokenKind),
    tokens.map Token.kind = p.tokens ++ .sign .closeParen :: kinds →
      GetsArgs (arguments stop opener tokens) p.meaning kinds
  | .moreArguments, p => ∀ (stop opener : Span) (tokens : List Token) (kinds : List TokenKind)
      (first : Parsed tokens), binary stop 1 tokens = .ok first →
      first.rest.map Token.kind = p.tokens ++ .sign .closeParen :: kinds →
        GetsArgs (someArguments stop opener tokens) (first.expr.bare :: p.meaning) kinds

variable {l : Layer}

theorem reads_chain {first : Phrase (.whole l.operand)} {rest : Phrase (.operations l)}
    (operand : Reads first) (operations : Reads rest) : Reads (.chain first rest) := by
  intro stop tokens kinds spelled stops
  rw [Phrase.tokens, List.append_assoc] at spelled
  obtain ⟨left, read, ends, same⟩ := operand stop tokens _ spelled (Phrase.stops_operand rest stops)
  rw [reader_operand] at read
  change Gets (binary stop l.strength tokens) (rest.meaning first.meaning) kinds
  rw [binary_of_tighter (Nat.le_succ _) (operand_congr (by cases l <;> decide)) read, ← same]
  exact operations stop left kinds ends stops

theorem reads_noOperation : Reads (.noOperation : Phrase (.operations l)) := by
  intro stop tokens left kinds ends stops
  rw [Phrase.tokens, List.nil_append] at ends
  exact ⟨left, climb_of_halts (halts_of_pull (by rw [ends]; exact stops)), ends, rfl⟩

theorem reads_operation {kind : TokenKind} {op : BinaryOp} (mem : (kind, op) ∈ l.operators)
    {operand : Phrase (.whole l.operand)} {rest : Phrase (.operations l)} (operands : Reads operand)
    (operations : Reads rest) : Reads (.operation kind op mem operand rest) := by
  intro stop tokens left kinds spelled stops
  rw [Phrase.tokens, List.cons_append, List.append_assoc] at spelled
  obtain ⟨token, more, next, rfl, after⟩ := List.map_eq_cons_iff.mp spelled
  obtain ⟨written, precedence⟩ := Layer.of_mem_operators mem
  obtain ⟨right, read, ends, same⟩ := operands stop more _ after (Phrase.stops_operand rest stops)
  rw [reader_operand, ← precedence] at read
  obtain ⟨left', ends', expr, taken⟩ := exists_climb_eq next written read
  change Gets (climb stop l.strength left)
    (rest.meaning (.binary () op left.expr.bare operand.meaning)) kinds
  rw [taken l.strength (Nat.le_of_eq precedence.symm), ← same]
  have further := operations stop left' kinds (ends' ▸ ends) stops
  rwa [expr] at further

theorem reads_not {phrase : Phrase (.whole .negation)} (operands : Reads phrase) :
    Reads (.not phrase) := by
  intro stop tokens kinds spelled stops
  obtain ⟨⟨_, span⟩, rest, rfl, rfl, after⟩ := List.map_eq_cons_iff.mp spelled
  obtain ⟨inner, read, ends, same⟩ := operands stop rest kinds after stops
  refine ⟨⟨.unary (span.merge inner.expr.mark) .not inner.expr, inner.rest,
    Nat.lt_succ_of_lt inner.shorter⟩, ?_, ends, congrArg (Expr.unary () .not) same⟩
  change binary stop notPrecedence rest = .ok inner at read
  change binary stop notPrecedence _ = _
  rw [binary, operand.eq_def]
  simp only [Nat.le_refl, if_true, read]
  exact climb_of_halts (halts_of_pull (by rw [ends]; exact stops))

theorem reads_equality {phrase : Phrase (.whole (.layer .equality))} (operands : Reads phrase) :
    Reads (.equality phrase) := by
  intro stop tokens kinds spelled stops
  obtain ⟨kind, more, begun, begins⟩ := phrase.exists_begins
  obtain ⟨p, read, ends, same⟩ :=
    operands stop tokens kinds spelled (Nat.lt_trans stops (by decide))
  have head : tokens.map Token.kind = kind :: (more ++ kinds) := by
    rw [spelled, Phrase.tokens, begun, List.cons_append]
  have other : kind ≠ .word .not := begins.2.2.1 (by decide)
  refine ⟨p, ?_, ends, same⟩
  change binary stop notPrecedence tokens = _
  rw [binary_of_tighter (show notPrecedence ≤ Layer.equality.strength by decide)
    ((operand_of_head head other).trans (operand_of_head head other).symm) read]
  exact climb_of_halts (halts_of_pull (by rw [ends]; exact stops))

theorem reads_minus {operand : Phrase (.whole .unary)} (operands : Reads operand) :
    Reads (.minus operand) := by
  intro stop tokens kinds spelled stops
  obtain ⟨⟨_, span⟩, rest, rfl, rfl, after⟩ := List.map_eq_cons_iff.mp spelled
  obtain ⟨inner, read, ends, same⟩ := operands stop rest kinds after stops
  refine ⟨⟨.unary (span.merge inner.expr.mark) .neg inner.expr, inner.rest,
    Nat.lt_succ_of_lt inner.shorter⟩, ?_, ends, congrArg (Expr.unary () .neg) same⟩
  rw [reader_unary] at read ⊢
  rw [unary.eq_def]
  simp only [read]

theorem reads_bang {operand : Phrase (.whole .unary)} (operands : Reads operand) :
    Reads (.bang operand) := by
  intro stop tokens kinds spelled stops
  obtain ⟨⟨_, span⟩, rest, rfl, rfl, after⟩ := List.map_eq_cons_iff.mp spelled
  obtain ⟨inner, read, ends, same⟩ := operands stop rest kinds after stops
  refine ⟨⟨.unary (span.merge inner.expr.mark) .not inner.expr, inner.rest,
    Nat.lt_succ_of_lt inner.shorter⟩, ?_, ends, congrArg (Expr.unary () .not) same⟩
  rw [reader_unary] at read ⊢
  rw [unary.eq_def]
  simp only [read]

theorem reads_unsigned {operand : Phrase (.whole .filter)} (operands : Reads operand) :
    Reads (.unsigned operand) := by
  intro stop tokens kinds spelled stops
  rw [reader_unary]
  exact operands stop tokens kinds spelled (Nat.lt_succ_of_lt stops)

theorem unary_of_head {kind : TokenKind} {kinds : List TokenKind}
    (spelled : tokens.map Token.kind = kind :: kinds) (notMinus : kind ≠ .sign .minus)
    (notBang : kind ≠ .sign .bang) {input : Parsed tokens} (read : postfixed stop tokens = .ok input) :
    unary stop tokens = filters stop input := by
  rw [unary.eq_def]
  split
  · cases spelled
    exact absurd rfl notMinus
  · cases spelled
    exact absurd rfl notBang
  · simp only [read]

theorem reads_filter {input : Phrase (.whole .access)} {rest : Phrase .filters} (inputs : Reads input)
    (more : Reads rest) : Reads (.filter input rest) := by
  intro stop tokens kinds spelled stops
  rw [Phrase.tokens, List.append_assoc] at spelled
  obtain ⟨left, read, ends, same⟩ := inputs stop tokens _ spelled
    (Nat.lt_succ_of_le (Phrase.pull_filters rest (Nat.le_of_lt stops)))
  obtain ⟨kind, others, begun, begins⟩ := input.exists_begins
  obtain ⟨notMinus, notBang⟩ := begins.2.2.2 (by decide)
  change Gets (unary stop tokens) (rest.meaning input.meaning) kinds
  rw [unary_of_head (by rw [spelled, begun, List.cons_append]) notMinus notBang read, ← same]
  exact more stop left kinds ends stops

theorem reads_noFilter : Reads .noFilter := by
  intro stop tokens left kinds ends stops
  rw [Phrase.tokens, List.nil_append] at ends
  exact ⟨left, filters_of_pull (by rw [ends]; exact stops), ends, rfl⟩

theorem reads_filterName (name : String) {rest : Phrase .filters} (more : Reads rest) :
    Reads (.filterName name rest) := by
  intro stop tokens left kinds spelled stops
  obtain ⟨⟨_, pipe⟩, _, next, rfl, after⟩ := List.map_eq_cons_iff.mp spelled
  obtain ⟨⟨_, span⟩, others, rfl, rfl, behind⟩ := List.map_eq_cons_iff.mp after
  have bare : ∀ opener more, others ≠ ⟨.sign .openParen, opener⟩ :: more := by
    rintro opener more rfl
    have held : pull (rest.tokens ++ kinds) ≤ Nonterminal.filter.strength :=
      Phrase.pull_filters rest (Nat.le_of_lt stops)
    have begun : rest.tokens ++ kinds = .sign .openParen :: more.map Token.kind := behind.symm
    rw [begun] at held
    exact absurd held (show ¬ 11 ≤ 9 by decide)
  obtain ⟨left', ends, expr, taken⟩ := exists_filters_name next bare
  change Gets (filters stop left) (rest.meaning (.call () name [left.expr.bare])) kinds
  rw [taken]
  have further := more stop left' kinds (ends ▸ behind) stops
  rwa [expr] at further

theorem reads_filterCall (name : String) {args : Phrase .arguments} {rest : Phrase .filters}
    (inner : Reads args) (more : Reads rest) : Reads (.filterCall name args rest) := by
  intro stop tokens left kinds spelled stops
  simp only [Phrase.tokens, List.cons_append, List.append_assoc] at spelled
  obtain ⟨⟨_, pipe⟩, _, next, rfl, after⟩ := List.map_eq_cons_iff.mp spelled
  obtain ⟨⟨_, span⟩, _, rfl, rfl, behind⟩ := List.map_eq_cons_iff.mp after
  obtain ⟨⟨_, opener⟩, others, rfl, rfl, inside⟩ := List.map_eq_cons_iff.mp behind
  obtain ⟨p, read, ends, same⟩ := inner stop opener others _ inside
  obtain ⟨left', ends', expr, taken⟩ := exists_filters_call next read
  change Gets (filters stop left)
    (rest.meaning (.call () name (left.expr.bare :: args.meaning))) kinds
  rw [taken, ← same]
  have further := more stop left' kinds (ends' ▸ ends) stops
  rwa [expr] at further

theorem reads_access {receiver : Phrase (.whole .primary)} {rest : Phrase .accesses}
    (receivers : Reads receiver) (more : Reads rest) : Reads (.access receiver rest) := by
  intro stop tokens kinds spelled stops
  rw [Phrase.tokens, List.append_assoc] at spelled
  obtain ⟨left, read, ends, same⟩ := receivers stop tokens _ spelled
    (Nat.lt_succ_of_le (Phrase.pull_accesses rest (Nat.le_of_lt stops)))
  change primary stop tokens = .ok left at read
  change Gets (postfixed stop tokens) (rest.meaning receiver.meaning) kinds
  rw [postfixed, read, ← same]
  exact more stop left kinds ends stops

theorem reads_noAccess : Reads .noAccess := by
  intro stop tokens left kinds ends stops
  rw [Phrase.tokens, List.nil_append] at ends
  exact ⟨left, accesses_of_pull (by rw [ends]; exact stops), ends, rfl⟩

theorem reads_property {kind : TokenKind} {name : String} (named : IsProperty kind name)
    {rest : Phrase .accesses} (more : Reads rest) : Reads (.property kind name named rest) := by
  intro stop tokens left kinds spelled stops
  obtain ⟨⟨_, dot⟩, _, next, rfl, after⟩ := List.map_eq_cons_iff.mp spelled
  obtain ⟨token, others, rfl, rfl, behind⟩ := List.map_eq_cons_iff.mp after
  obtain ⟨left', ends, expr, taken⟩ := exists_accesses_property next named
  change Gets (accesses stop left) (rest.meaning (.field () left.expr.bare name)) kinds
  rw [taken]
  have further := more stop left' kinds (ends ▸ behind) stops
  rwa [expr] at further

theorem reads_index {position : Phrase (.whole expression)} {rest : Phrase .accesses}
    (positions : Reads position) (more : Reads rest) : Reads (.index position rest) := by
  intro stop tokens left kinds spelled stops
  simp only [Phrase.tokens, List.cons_append, List.append_assoc] at spelled
  obtain ⟨⟨_, opener⟩, others, next, rfl, after⟩ := List.map_eq_cons_iff.mp spelled
  obtain ⟨p, read, ends, same⟩ := positions stop others _ after Nat.one_pos
  obtain ⟨closed, closes, ends⟩ := closing_of_head stop opener ends
  obtain ⟨kind, begun, spelled', begins⟩ := position.exists_begins
  have some : ∀ span rest, others ≠ ⟨.sign .closeBracket, span⟩ :: rest := by
    rintro span rest rfl
    rw [spelled', List.cons_append, List.map_cons, List.cons.injEq] at after
    exact begins.2.1 after.1.symm
  obtain ⟨left', ends', expr, taken⟩ := exists_accesses_index next some read closes
  change Gets (accesses stop left)
    (rest.meaning (.index () left.expr.bare position.meaning)) kinds
  rw [taken, ← same]
  have further := more stop left' kinds (ends' ▸ ends) stops
  rwa [expr] at further

/-! ## Primary expressions -/

theorem reads_literal {kind : TokenKind} {value : Value} (literal : IsLiteral kind value) :
    Reads (.literal kind value literal) := by
  intro stop tokens kinds spelled _
  obtain ⟨⟨_, span⟩, rest, rfl, rfl, after⟩ := List.map_eq_cons_iff.mp spelled
  refine ⟨⟨.literal span value, rest, Nat.lt_succ_self _⟩, ?_, after, rfl⟩
  change primary stop _ = _
  rw [primary.eq_def]
  cases literal <;> rfl

theorem reads_call (name : String) {args : Phrase .arguments} (inner : Reads args) :
    Reads (.call name args) := by
  intro stop tokens kinds spelled _
  simp only [Phrase.tokens, List.cons_append, List.append_assoc, List.nil_append] at spelled
  obtain ⟨⟨_, span⟩, _, rfl, rfl, after⟩ := List.map_eq_cons_iff.mp spelled
  obtain ⟨⟨_, opener⟩, rest, rfl, rfl, inside⟩ := List.map_eq_cons_iff.mp after
  obtain ⟨p, read, ends, same⟩ := inner stop opener rest _ inside
  refine ⟨⟨.call (span.merge p.closer) name p.args, p.rest,
    Nat.lt_succ_of_lt (Nat.lt_succ_of_lt p.shorter)⟩, ?_, ends, congrArg (Expr.call () name) same⟩
  change primary stop _ = _
  rw [primary.eq_def]
  simp only [read]

theorem reads_ident (name : String) : Reads (.ident name) := by
  intro stop tokens kinds spelled stops
  obtain ⟨⟨_, span⟩, rest, rfl, rfl, after⟩ := List.map_eq_cons_iff.mp spelled
  refine ⟨⟨.ident span name, rest, Nat.lt_succ_self _⟩, ?_, after, rfl⟩
  change primary stop _ = _
  rw [primary]
  rintro opener more rfl
  obtain rfl : _ = kinds := after
  exact absurd stops (Nat.lt_irrefl _)

theorem reads_this {rest : Phrase .links} (links : Reads rest) : Reads (.this rest) := by
  intro stop tokens kinds spelled stops
  obtain ⟨⟨_, span⟩, others, rfl, rfl, after⟩ := List.map_eq_cons_iff.mp spelled
  obtain ⟨depth, ends⟩ := links 0 span others kinds after stops
  refine ⟨⟨.scope (span.merge (scopeLinks 0 span others).2.1) (scopeLinks 0 span others).1,
    (scopeLinks 0 span others).2.2, Nat.lt_succ_of_le (length_scopeLinks_le _ _ _)⟩, ?_, ends, ?_⟩
  · change primary stop _ = _
    rw [primary.eq_def]
  · exact congrArg (Expr.scope ()) (depth.trans (Nat.zero_add _))

theorem reads_super {rest : Phrase .links} (links : Reads rest) : Reads (.super rest) := by
  intro stop tokens kinds spelled stops
  obtain ⟨⟨_, span⟩, others, rfl, rfl, after⟩ := List.map_eq_cons_iff.mp spelled
  obtain ⟨depth, ends⟩ := links 1 span others kinds after stops
  refine ⟨⟨.scope (span.merge (scopeLinks 1 span others).2.1) (scopeLinks 1 span others).1,
    (scopeLinks 1 span others).2.2, Nat.lt_succ_of_le (length_scopeLinks_le _ _ _)⟩, ?_, ends, ?_⟩
  · change primary stop _ = _
    rw [primary.eq_def]
  · exact congrArg (Expr.scope ()) (depth.trans (Nat.add_comm 1 _))

theorem reads_root : Reads .root := by
  intro stop tokens kinds spelled _
  obtain ⟨⟨_, span⟩, rest, rfl, rfl, after⟩ := List.map_eq_cons_iff.mp spelled
  refine ⟨⟨.root span, rest, Nat.lt_succ_self _⟩, ?_, after, rfl⟩
  change primary stop _ = _
  rw [primary.eq_def]

theorem reads_group {inner : Phrase (.whole expression)} (inners : Reads inner) :
    Reads (.group inner) := by
  intro stop tokens kinds spelled _
  simp only [Phrase.tokens, List.cons_append, List.append_assoc, List.nil_append] at spelled
  obtain ⟨⟨_, span⟩, rest, rfl, rfl, after⟩ := List.map_eq_cons_iff.mp spelled
  obtain ⟨p, read, ends, same⟩ := inners stop rest _ after Nat.one_pos
  obtain ⟨closed, closes, ends⟩ := closing_of_head stop span ends
  refine ⟨⟨p.expr, closed.rest, Nat.lt_succ_of_lt (Nat.lt_trans closed.shorter p.shorter)⟩, ?_, ends,
    same⟩
  change binary stop 1 rest = .ok p at read
  change primary stop _ = _
  rw [primary.eq_def]
  simp only [read, closes]

/-! ## Scope chains and arguments -/

theorem reads_noLink : Reads .noLink := by
  intro depth last tokens kinds spelled stops
  have held : pull (tokens.map Token.kind) < Nonterminal.primary.strength := by
    rw [spelled]
    exact stops
  unfold scopeLinks
  split
  · exact absurd held (Nat.lt_irrefl _)
  · exact absurd held (Nat.lt_irrefl _)
  · exact ⟨rfl, spelled⟩

theorem reads_linkThis {rest : Phrase .links} (links : Reads rest) : Reads (.linkThis rest) := by
  intro depth last tokens kinds spelled stops
  obtain ⟨⟨_, dot⟩, _, rfl, rfl, after⟩ := List.map_eq_cons_iff.mp spelled
  obtain ⟨⟨_, span⟩, others, rfl, rfl, behind⟩ := List.map_eq_cons_iff.mp after
  exact links depth span others kinds behind stops

theorem reads_linkSuper {rest : Phrase .links} (links : Reads rest) : Reads (.linkSuper rest) := by
  intro depth last tokens kinds spelled stops
  obtain ⟨⟨_, dot⟩, _, rfl, rfl, after⟩ := List.map_eq_cons_iff.mp spelled
  obtain ⟨⟨_, span⟩, others, rfl, rfl, behind⟩ := List.map_eq_cons_iff.mp after
  obtain ⟨levels, ends⟩ := links (depth + 1) span others kinds behind stops
  exact ⟨levels.trans (Nat.succ_add_eq_add_succ depth rest.meaning), ends⟩

theorem reads_noArguments : Reads .noArguments := by
  intro stop opener tokens kinds spelled
  obtain ⟨⟨_, closer⟩, rest, rfl, rfl, after⟩ := List.map_eq_cons_iff.mp spelled
  exact ⟨⟨[], closer, rest, Nat.lt_succ_self _⟩, by rw [arguments.eq_def], after, rfl⟩

theorem reads_someArguments {first : Phrase (.whole expression)} {rest : Phrase .moreArguments}
    (firsts : Reads first) (others : Reads rest) : Reads (.someArguments first rest) := by
  intro stop opener tokens kinds spelled
  simp only [Phrase.tokens, List.append_assoc] at spelled
  obtain ⟨p, read, ends, same⟩ := firsts stop tokens _ spelled
    (Phrase.stops_argument rest ⟨kinds, rfl⟩)
  obtain ⟨kind, begun, spelled', begins⟩ := first.exists_begins
  have unfolded : arguments stop opener tokens = someArguments stop opener tokens := by
    rw [arguments.eq_def]
    split
    · rw [spelled', List.cons_append, List.map_cons, List.cons.injEq] at spelled
      exact absurd spelled.1.symm begins.1
    · rfl
  change GetsArgs _ (List.cons first.meaning rest.meaning) kinds
  rw [unfolded, ← same]
  exact others stop opener tokens kinds p read ends

theorem reads_noMore : Reads .noMore := by
  intro stop opener tokens kinds first read spelled
  obtain ⟨closed, closes, ends⟩ := closing_of_head stop opener spelled
  refine ⟨⟨[first.expr], closed.closer, closed.rest, Nat.lt_trans closed.shorter first.shorter⟩,
    ?_, ends, rfl⟩
  rw [someArguments]
  simp only [read]
  split
  · rename_i next
    rw [next] at spelled
    cases spelled
  · simp only [closes]

theorem reads_more {next : Phrase (.whole expression)} {rest : Phrase .moreArguments}
    (nexts : Reads next) (others : Reads rest) : Reads (.more next rest) := by
  intro stop opener tokens kinds first read spelled
  simp only [Phrase.tokens, List.cons_append, List.append_assoc] at spelled
  obtain ⟨⟨_, comma⟩, after, same, rfl, behind⟩ := List.map_eq_cons_iff.mp spelled
  obtain ⟨second, read', ends, same'⟩ := nexts stop after _ behind
    (Phrase.stops_argument rest ⟨kinds, rfl⟩)
  obtain ⟨p, reads, ends', args⟩ := others stop opener after kinds second read' ends
  have shorter : p.rest.length < tokens.length := by
    have := first.shorter
    have := p.shorter
    simp only [same, List.length_cons] at *
    omega
  refine ⟨⟨first.expr :: p.args, p.closer, p.rest, shorter⟩, ?_, ends', ?_⟩
  · rw [someArguments]
    simp only [read]
    split
    · rename_i same'
      cases same.symm.trans same'
      simp only [reads]
    · rename_i other
      exact absurd same (other _ _)
  · change _ = first.expr.bare :: List.cons next.meaning rest.meaning
    rw [← same', ← args]
    rfl

/-- Every phrase is read as what it means. -/
theorem reads {s : Symbol} (p : Phrase s) : Reads p := by
  induction p with
  | chain _ _ operand operations => exact reads_chain operand operations
  | noOperation => exact reads_noOperation
  | operation _ _ mem _ _ operand operations => exact reads_operation mem operand operations
  | not _ operand => exact reads_not operand
  | equality _ operand => exact reads_equality operand
  | minus _ operand => exact reads_minus operand
  | bang _ operand => exact reads_bang operand
  | unsigned _ operand => exact reads_unsigned operand
  | filter _ _ input filters => exact reads_filter input filters
  | noFilter => exact reads_noFilter
  | filterName name _ filters => exact reads_filterName name filters
  | filterCall name _ _ arguments filters => exact reads_filterCall name arguments filters
  | access _ _ receiver accesses => exact reads_access receiver accesses
  | noAccess => exact reads_noAccess
  | property _ _ named _ accesses => exact reads_property named accesses
  | index _ _ position accesses => exact reads_index position accesses
  | literal _ _ literal => exact reads_literal literal
  | call name _ arguments => exact reads_call name arguments
  | ident name => exact reads_ident name
  | this _ links => exact reads_this links
  | super _ links => exact reads_super links
  | root => exact reads_root
  | group _ inner => exact reads_group inner
  | noLink => exact reads_noLink
  | linkThis _ links => exact reads_linkThis links
  | linkSuper _ links => exact reads_linkSuper links
  | noArguments => exact reads_noArguments
  | someArguments _ _ first others => exact reads_someArguments first others
  | noMore => exact reads_noMore
  | more _ _ next others => exact reads_more next others

/-- Tokens that spell a formula are read as it. -/
theorem formula_of_phrase (stop : Span) (p : Phrase (.whole expression))
    (spelled : p.tokens = tokens.map Token.kind) :
    ∃ e, formula stop tokens = .ok e ∧ e.bare = p.meaning := by
  obtain ⟨r, read, ends, same⟩ :=
    reads p stop tokens [] (by rw [spelled, List.append_nil]) Nat.one_pos
  change binary stop 1 tokens = .ok r at read
  refine ⟨r.expr, ?_, same⟩
  unfold formula
  split
  · exact absurd r.shorter (Nat.not_lt_zero _)
  · simp only [read, List.map_eq_nil_iff.mp ends]

end Parser

open Grammar

theorem parse_eq_formula {source : String} {tokens : List Token} (lexed : scan source = .ok tokens) :
    parse source = Parser.formula (endToken source).span tokens := by
  rw [parse, lexed]

/-- A tree that is read is what a derivation of its tokens means. -/
theorem exists_phrase_of_parse {source : String} {e : Expr Span} (parsed : parse source = .ok e) :
    ∃ (tokens : List Token) (p : Phrase (.whole expression)), scan source = .ok tokens ∧
      p.tokens = tokens.map Token.kind ∧ e.bare = p.meaning := by
  rw [parse] at parsed
  split at parsed
  · cases parsed
  · rename_i tokens scanned
    obtain ⟨p, spelled⟩ := Parser.exists_phrase_of_formula parsed
    obtain ⟨e', read, same⟩ := Parser.formula_of_phrase (endToken source).span p spelled
    rw [parsed] at read
    cases read
    exact ⟨tokens, p, scanned, spelled, same⟩

/-- Reading accepts what the grammar derives and nothing else, and its tree is what the derivation
means, of which there is one. -/
theorem parse_iff_derivable (source : String) (tokens : List Token) (lexed : scan source = .ok tokens) :
    ((∃ e, parse source = .ok e) ↔
      ∃ p : Phrase (.whole expression), p.tokens = tokens.map Token.kind) ∧
    ∀ p : Phrase (.whole expression), p.tokens = tokens.map Token.kind →
      (∀ p' : Phrase (.whole expression), p'.tokens = tokens.map Token.kind → p' = p) ∧
      ∃ e, parse source = .ok e ∧ e.bare = p.meaning := by
  have read := parse_eq_formula lexed
  refine ⟨⟨fun ⟨e, accepted⟩ => ?_, fun ⟨p, spelled⟩ => ?_⟩, fun p spelled => ⟨fun p' spelled' => ?_, ?_⟩⟩
  · exact Parser.exists_phrase_of_formula (read ▸ accepted)
  · obtain ⟨e, accepted, _⟩ := Parser.formula_of_phrase (endToken source).span p spelled
    exact ⟨e, read ▸ accepted⟩
  · exact Phrase.eq_of_tokens_eq (spelled'.trans spelled.symm)
  · rw [read]
    exact Parser.formula_of_phrase (endToken source).span p spelled

/-- A filter under `not`, which is the left operand of a conjunction. -/
theorem parse_iff_derivable_filter :
    let tokens : List Token := [⟨.word .not, ⟨0, 3⟩⟩, ⟨.ident "a", ⟨4, 5⟩⟩, ⟨.sign .pipe, ⟨5, 6⟩⟩,
      ⟨.ident "F", ⟨6, 7⟩⟩, ⟨.sign .openParen, ⟨7, 8⟩⟩, ⟨.sign .closeParen, ⟨8, 9⟩⟩,
      ⟨.word .and, ⟨10, 13⟩⟩, ⟨.ident "b", ⟨14, 15⟩⟩]
    scan "not a|F() and b" = .ok tokens ∧
    ∃ e, parse "not a|F() and b" = .ok e ∧
      e.bare = .binary () .and (.unary () .not (.call () "F" [.ident () "a"])) (.ident () "b") := by
  intro tokens
  have lexed : scan "not a|F() and b" = .ok tokens := by cbv
  let operand (input : Phrase (.whole .filter)) : Phrase (.whole .negation) :=
    .equality (.chain (.chain (.chain (.chain (.unsigned input)
      .noOperation) .noOperation) .noOperation) .noOperation)
  let name (name : String) : Phrase (.whole .access) := .access (.ident name) .noAccess
  let p : Phrase (.whole expression) :=
    .chain (.chain (.not (operand (.filter (name "a") (.filterCall "F" .noArguments .noFilter))))
      (.operation (.word .and) .and (by decide) (operand (.filter (name "b") .noFilter))
        .noOperation)) .noOperation
  exact ⟨lexed, ((parse_iff_derivable "not a|F() and b" tokens lexed).2 p rfl).2⟩

end FormulaDoc
