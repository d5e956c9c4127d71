import FormulaDoc.Proofs.Formula.Lexing
import FormulaDoc.Proofs.Formula.Reading

/-!
# Expressions in a longer text

What is read from some tokens is read from them in a longer text too, when no more tokens follow or one
that ends every phrase: a closing parenthesis or bracket, or a comma. Spans move with the tokens.
-/
namespace FormulaDoc

namespace Expr

mutual

theorem bare_map {α β : Type} (f : α → β) (e : Expr α) : (e.map f).bare = e.bare := by
  match e with
  | literal _ _ | ident _ _ | scope _ _ | root _ => rfl
  | field _ receiver name => exact congrArg (field () · name) (bare_map f receiver)
  | index _ receiver position =>
    exact congrArg₂ (index ()) (bare_map f receiver) (bare_map f position)
  | unary _ op operand => exact congrArg (unary () op) (bare_map f operand)
  | binary _ op left right => exact congrArg₂ (binary () op) (bare_map f left) (bare_map f right)
  | call _ name args => exact congrArg (call () name) (bare_mapAll f args)

theorem bare_mapAll {α β : Type} (f : α → β) (es : List (Expr α)) :
    mapAll (fun _ => ()) (mapAll f es) = mapAll (fun _ => ()) es := by
  match es with
  | [] => rfl
  | e :: es => exact congrArg₂ List.cons (bare_map f e) (bare_mapAll f es)

end

@[simp]
theorem mark_map {α β : Type} (f : α → β) (e : Expr α) : (e.map f).mark = f e.mark := by
  cases e <;> rfl

/-- An expression whose text stands at a later offset. -/
def shift (offset : Nat) (e : Expr Span) : Expr Span := e.map (Span.shift offset)

def shiftAll (offset : Nat) (es : List (Expr Span)) : List (Expr Span) := mapAll (Span.shift offset) es

@[simp]
theorem mark_shift (offset : Nat) (e : Expr Span) : (e.shift offset).mark = e.mark.shift offset :=
  mark_map _ e

variable (offset : Nat) (mark : Span) (name : String) (e e' : Expr Span) (es : List (Expr Span))

@[simp]
theorem shift_field :
    (field mark e name).shift offset = field (mark.shift offset) (e.shift offset) name := rfl

@[simp]
theorem shift_index :
    (index mark e e').shift offset = index (mark.shift offset) (e.shift offset) (e'.shift offset) := rfl

@[simp]
theorem shift_unary (op : UnaryOp) :
    (unary mark op e).shift offset = unary (mark.shift offset) op (e.shift offset) := rfl

@[simp]
theorem shift_binary (op : BinaryOp) :
    (binary mark op e e').shift offset =
      binary (mark.shift offset) op (e.shift offset) (e'.shift offset) := rfl

@[simp]
theorem shift_call :
    (call mark name es).shift offset = call (mark.shift offset) name (shiftAll offset es) := rfl

@[simp]
theorem shiftAll_cons : shiftAll offset (e :: es) = e.shift offset :: shiftAll offset es := rfl

@[simp]
theorem shiftAll_nil : shiftAll offset [] = [] := rfl

end Expr

namespace Parser

open Grammar

/-- Whether no phrase goes on with some tokens. -/
def Ends (tokens : List Token) : Prop :=
  ∀ token rest, tokens = token :: rest →
    token.kind ∈ [.sign .closeParen, .sign .closeBracket, .sign .comma]

/-- Tokens at a later offset, in front of others. -/
def within (offset : Nat) (after tokens : List Token) : List Token :=
  tokens.map (Token.shift offset) ++ after

/-- From some tokens a reader gets an expression, with its spans, and leaves a rest. -/
def Yields {tokens : List Token} (result : Except SyntaxError (Parsed tokens)) (e : Expr Span)
    (rest : List Token) : Prop :=
  ∃ p, result = .ok p ∧ p.expr = e ∧ p.rest = rest

def YieldsArgs {tokens : List Token} (result : Except SyntaxError (ParsedArgs tokens))
    (es : List (Expr Span)) (closer : Span) (rest : List Token) : Prop :=
  ∃ p, result = .ok p ∧ p.args = es ∧ p.closer = closer ∧ p.rest = rest

/-! ## What the readers get -/

section Yields

variable {stop : Span} {tokens rest : List Token} {e : Expr Span} {es : List (Expr Span)}

theorem closing_cons (stop opener : Span) (closer : Sign) (span : Span) (rest : List Token) :
    closing stop closer opener (⟨.sign closer, span⟩ :: rest) =
      .ok ⟨span, rest, Nat.lt_succ_self _⟩ := by
  rw [closing, if_pos rfl]

theorem yields_group {opener closer : Span}
    (inner : Yields (binary stop 1 tokens) e (⟨.sign .closeParen, closer⟩ :: rest)) :
    Yields (primary stop (⟨.sign .openParen, opener⟩ :: tokens)) e rest := by
  obtain ⟨⟨_, _, shorter⟩, read, rfl, rfl⟩ := inner
  refine ⟨⟨_, rest, ?_⟩, ?_, rfl, rfl⟩
  · rw [List.length_cons] at *
    omega
  · rw [primary.eq_def]
    simp only [read, closing_cons]

theorem yields_ident {name : String} {span : Span}
    (noCall : ∀ opener more, rest ≠ ⟨.sign .openParen, opener⟩ :: more) :
    Yields (primary stop (⟨.ident name, span⟩ :: rest)) (.ident span name) rest := by
  refine ⟨⟨.ident span name, rest, Nat.lt_succ_self _⟩, ?_, rfl, rfl⟩
  rw [primary]
  exact noCall

theorem yields_literal {kind : TokenKind} {value : Value} (literal : literal? kind = some value)
    {span : Span} : Yields (primary stop (⟨kind, span⟩ :: rest)) (.literal span value) rest := by
  refine ⟨⟨.literal span value, rest, Nat.lt_succ_self _⟩, ?_, rfl, rfl⟩
  rw [primary.eq_def]
  cases of_literal? literal <;> rfl

theorem yields_root {span : Span} :
    Yields (primary stop (⟨.sign .dollar, span⟩ :: rest)) (.root span) rest :=
  ⟨⟨.root span, rest, Nat.lt_succ_self _⟩, by rw [primary.eq_def], rfl, rfl⟩

theorem yields_this (stop span : Span) (tokens : List Token) :
    Yields (primary stop (⟨.word .this, span⟩ :: tokens))
      (.scope (span.merge (scopeLinks 0 span tokens).2.1) (scopeLinks 0 span tokens).1)
      (scopeLinks 0 span tokens).2.2 :=
  ⟨⟨_, _, Nat.lt_succ_of_le (length_scopeLinks_le _ _ _)⟩, by rw [primary.eq_def], rfl, rfl⟩

theorem yields_super (stop span : Span) (tokens : List Token) :
    Yields (primary stop (⟨.word .super, span⟩ :: tokens))
      (.scope (span.merge (scopeLinks 1 span tokens).2.1) (scopeLinks 1 span tokens).1)
      (scopeLinks 1 span tokens).2.2 :=
  ⟨⟨_, _, Nat.lt_succ_of_le (length_scopeLinks_le _ _ _)⟩, by rw [primary.eq_def], rfl, rfl⟩

theorem yields_call {name : String} {span opener closer : Span}
    (args : YieldsArgs (arguments stop opener tokens) es closer rest) :
    Yields (primary stop (⟨.ident name, span⟩ :: ⟨.sign .openParen, opener⟩ :: tokens))
      (.call (span.merge closer) name es) rest := by
  obtain ⟨p, read, rfl, rfl, rfl⟩ := args
  refine ⟨⟨.call (span.merge p.closer) name p.args, p.rest,
    Nat.lt_succ_of_lt (Nat.lt_succ_of_lt p.shorter)⟩, ?_, rfl, rfl⟩
  rw [primary.eq_def]
  simp only [read]

theorem yieldsArgs_none {stop opener closer : Span} :
    YieldsArgs (arguments stop opener (⟨.sign .closeParen, closer⟩ :: rest)) [] closer rest :=
  ⟨⟨[], closer, rest, Nat.lt_succ_self _⟩, by rw [arguments.eq_def], rfl, rfl, rfl⟩

theorem yieldsArgs_some {opener closer : Span}
    (args : YieldsArgs (someArguments stop opener tokens) es closer rest)
    (some : ∀ span rest, tokens ≠ ⟨.sign .closeParen, span⟩ :: rest) :
    YieldsArgs (arguments stop opener tokens) es closer rest := by
  rw [arguments]
  · exact args
  · exact fun span rest => some span rest

theorem yieldsArgs_last {opener closer : Span}
    (last : Yields (binary stop 1 tokens) e (⟨.sign .closeParen, closer⟩ :: rest)) :
    YieldsArgs (someArguments stop opener tokens) [e] closer rest := by
  obtain ⟨⟨_, _, shorter⟩, read, rfl, rfl⟩ := last
  refine ⟨⟨[_], closer, rest, ?_⟩, ?_, rfl, rfl, rfl⟩
  · simp only [List.length_cons] at shorter
    omega
  · rw [someArguments]
    simp only [read, closing_cons]

theorem yieldsArgs_more {opener closer comma : Span} {more : List Token}
    (first : Yields (binary stop 1 tokens) e (⟨.sign .comma, comma⟩ :: more))
    (others : YieldsArgs (someArguments stop opener more) es closer rest) :
    YieldsArgs (someArguments stop opener tokens) (e :: es) closer rest := by
  obtain ⟨⟨_, _, shorter⟩, read, rfl, rfl⟩ := first
  obtain ⟨p, read', rfl, rfl, rfl⟩ := others
  refine ⟨⟨_ :: p.args, p.closer, p.rest, ?_⟩, ?_, rfl, rfl, rfl⟩
  · have := p.shorter
    simp only [List.length_cons] at shorter
    omega
  · rw [someArguments]
    simp only [read, read']

theorem yields_minus {span : Span} (operand : Yields (unary stop tokens) e rest) :
    Yields (unary stop (⟨.sign .minus, span⟩ :: tokens)) (.unary (span.merge e.mark) .neg e) rest := by
  obtain ⟨p, read, rfl, rfl⟩ := operand
  refine ⟨⟨.unary (span.merge p.expr.mark) .neg p.expr, p.rest, Nat.lt_succ_of_lt p.shorter⟩, ?_,
    rfl, rfl⟩
  rw [unary.eq_def]
  simp only [read]

theorem yields_bang {span : Span} (operand : Yields (unary stop tokens) e rest) :
    Yields (unary stop (⟨.sign .bang, span⟩ :: tokens)) (.unary (span.merge e.mark) .not e) rest := by
  obtain ⟨p, read, rfl, rfl⟩ := operand
  refine ⟨⟨.unary (span.merge p.expr.mark) .not p.expr, p.rest, Nat.lt_succ_of_lt p.shorter⟩, ?_,
    rfl, rfl⟩
  rw [unary.eq_def]
  simp only [read]

theorem yields_not {span : Span} {least : Nat} (loose : least ≤ notPrecedence)
    (inner : Yields (binary stop notPrecedence tokens) e rest) :
    Yields (operand stop least (⟨.word .not, span⟩ :: tokens)) (.unary (span.merge e.mark) .not e)
      rest := by
  obtain ⟨p, read, rfl, rfl⟩ := inner
  refine ⟨⟨.unary (span.merge p.expr.mark) .not p.expr, p.rest, Nat.lt_succ_of_lt p.shorter⟩, ?_,
    rfl, rfl⟩
  rw [operand.eq_def]
  simp only [if_pos loose, read]

theorem accesses_of_nil {receiver : Parsed tokens} (ends : receiver.rest = []) :
    accesses stop receiver = .ok receiver := accesses_of_ne (by simp [ends]) (by simp [ends])

theorem exists_accesses_position {receiver : Parsed tokens} {opener closer : Span} {more : List Token}
    (next : receiver.rest = ⟨.sign .openBracket, opener⟩ :: more)
    (inner : Yields (binary stop 1 more) e (⟨.sign .closeBracket, closer⟩ :: rest))
    (some : ∀ span rest, more ≠ ⟨.sign .closeBracket, span⟩ :: rest) :
    ∃ receiver' : Parsed tokens, receiver'.rest = rest ∧
      receiver'.expr = .index (receiver.expr.mark.merge closer) receiver.expr e ∧
      accesses stop receiver = accesses stop receiver' := by
  obtain ⟨⟨_, _, _⟩, read, rfl, rfl⟩ := inner
  exact exists_accesses_index next some read (closing_cons stop opener .closeBracket closer rest)

theorem filters_of_nil {input : Parsed tokens} (ends : input.rest = []) :
    filters stop input = .ok input := filters_of_ne (by simp [ends])

theorem halts_of_nil {least : Nat} {tokens : List Token} (ends : tokens = []) :
    Halts least tokens := by
  intro token rest op same
  rw [ends] at same
  cases same

end Yields

/-! ## Readers in a longer text -/

section Locality

variable {offset : Nat} {after : List Token}

@[simp]
theorem within_nil : within offset after [] = after := rfl

@[simp]
theorem within_cons (token : Token) (tokens : List Token) :
    within offset after (token :: tokens) = token.shift offset :: within offset after tokens := rfl

theorem within_ne_of_pos {kind : TokenKind} {tokens : List Token} (some : 0 < tokens.length)
    (none : ∀ span rest, tokens ≠ ⟨kind, span⟩ :: rest) (span : Span) (rest : List Token) :
    within offset after tokens ≠ ⟨kind, span⟩ :: rest := by
  cases tokens with
  | nil => exact absurd some (Nat.lt_irrefl 0)
  | cons token tokens =>
    obtain ⟨_, span'⟩ := token
    rintro ⟨⟩
    exact none span' tokens rfl

/-- A token that ends no phrase is in front only if it was in front before. -/
theorem exists_of_within_eq (ends : Ends after) {kind : TokenKind}
    (other : kind ∉ [TokenKind.sign .closeParen, .sign .closeBracket, .sign .comma])
    {tokens rest : List Token} {span : Span} (same : within offset after tokens = ⟨kind, span⟩ :: rest) :
    ∃ span rest, tokens = ⟨kind, span⟩ :: rest := by
  cases tokens with
  | nil => exact absurd (ends _ rest same) other
  | cons token tokens =>
    obtain ⟨_, span'⟩ := token
    cases same
    exact ⟨span', tokens, rfl⟩

theorem halts_within (ends : Ends after) {least : Nat} {tokens : List Token}
    (halts : Halts least tokens) :
    Halts least (within offset after tokens) := by
  intro token rest op begun written
  cases tokens with
  | nil =>
    have other : ∀ kind ∈ [TokenKind.sign .closeParen, .sign .closeBracket, .sign .comma],
        kind.binaryOp? = none := by decide
    rw [other _ (ends token rest begun)] at written
    cases written
  | cons token tokens =>
    cases begun
    exact halts token tokens op rfl written

theorem within_ne (ends : Ends after) {kind : TokenKind}
    (other : kind ∉ [TokenKind.sign .closeParen, .sign .closeBracket, .sign .comma])
    {tokens : List Token} (none : ∀ span rest, tokens ≠ ⟨kind, span⟩ :: rest) (span : Span)
    (rest : List Token) : within offset after tokens ≠ ⟨kind, span⟩ :: rest := by
  intro same
  obtain ⟨span, rest, begun⟩ := exists_of_within_eq ends other same
  exact none span rest begun

/-- A result in a longer text is what was read, with its spans moved. -/
def Keeps (offset : Nat) (after : List Token) {tokens tokens' : List Token} (p : Parsed tokens)
    (result : Except SyntaxError (Parsed tokens')) : Prop :=
  Yields result (p.expr.shift offset) (within offset after p.rest)

def KeepsArgs (offset : Nat) (after : List Token) {tokens tokens' : List Token} (p : ParsedArgs tokens)
    (result : Except SyntaxError (ParsedArgs tokens')) : Prop :=
  YieldsArgs result (Expr.shiftAll offset p.args) (p.closer.shift offset) (within offset after p.rest)

/-- Of fewer tokens than a number, what is read as an expression is read in a longer text too. -/
def Local (offset : Nat) (after : List Token) (stop stop' : Span) (bound : Nat) : Prop :=
  ∀ ⦃tokens : List Token⦄, tokens.length < bound → ∀ ⦃least : Nat⦄ ⦃p : Parsed tokens⦄,
    binary stop least tokens = .ok p →
      Keeps offset after p (binary stop' least (within offset after tokens))

variable {stop stop' : Span}

theorem tokens_of_closing {closer : Sign} {opener : Span} {tokens : List Token} {closed : Closed tokens}
    (h : closing stop closer opener tokens = .ok closed) :
    tokens = ⟨.sign closer, closed.closer⟩ :: closed.rest := by
  unfold closing at h
  split at h
  · cases h
  · rename_i token rest
    obtain ⟨kind, span⟩ := token
    split at h
    · rename_i same
      cases h
      cases same
      rfl
    · cases h

variable (ends : Ends after)

include ends

/-- A chain of scopes goes on in a longer text only where it went on before. -/
theorem exists_of_within_link {w : Keyword} {tokens rest : List Token} {dot span : Span}
    (same : within offset after tokens = ⟨.sign .dot, dot⟩ :: ⟨.word w, span⟩ :: rest) :
    ∃ dot span rest, tokens = ⟨.sign .dot, dot⟩ :: ⟨.word w, span⟩ :: rest := by
  obtain ⟨dot, others, rfl⟩ := exists_of_within_eq ends (by decide) same
  rw [within_cons, List.cons.injEq] at same
  obtain ⟨span, rest, rfl⟩ := exists_of_within_eq ends (by simp) same.2
  exact ⟨dot, span, rest, rfl⟩

theorem scopeLinks_within (depth : Nat) (last : Span) (tokens : List Token) :
    scopeLinks depth (last.shift offset) (within offset after tokens) =
      ((scopeLinks depth last tokens).1, (scopeLinks depth last tokens).2.1.shift offset,
        within offset after (scopeLinks depth last tokens).2.2) := by
  fun_induction scopeLinks depth last tokens with
  | case1 depth last _ span rest ih => exact ih
  | case2 depth last _ span rest ih => exact ih
  | case3 depth last tokens noSuper noThis =>
    rw [scopeLinks]
    · rintro dot span rest same
      obtain ⟨dot, span, rest, rfl⟩ := exists_of_within_link ends same
      exact noSuper dot span rest rfl
    · rintro dot span rest same
      obtain ⟨dot, span, rest, rfl⟩ := exists_of_within_link ends same
      exact noThis dot span rest rfl

section Readers

variable {bound : Nat} (kept : Local offset after stop stop' bound)

include kept

omit ends in
theorem keepsArgs_someArguments {opener : Span} (opener' : Span) {tokens : List Token}
    {p : ParsedArgs tokens} (fewer : tokens.length < bound)
    (h : someArguments stop opener tokens = .ok p) :
    KeepsArgs offset after p (someArguments stop' opener' (within offset after tokens)) := by
  rw [someArguments] at h
  split at h
  · cases h
  · rename_i first read
    have firsts := kept fewer read
    split at h
    · rename_i comma rest next
      split at h
      · cases h
      · rename_i others more
        cases h
        have shorter : rest.length < tokens.length := by
          have := first.shorter
          simp only [next, List.length_cons] at this
          omega
        rw [Keeps, next] at firsts
        exact yieldsArgs_more firsts
          (keepsArgs_someArguments opener' (Nat.lt_trans shorter fewer) more)
    · split at h
      · cases h
      · rename_i closed closes
        cases h
        rw [Keeps, tokens_of_closing closes] at firsts
        exact yieldsArgs_last firsts
termination_by tokens.length

omit ends in
theorem keepsArgs_arguments {opener : Span} (opener' : Span) {tokens : List Token}
    {p : ParsedArgs tokens} (fewer : tokens.length < bound) (h : arguments stop opener tokens = .ok p) :
    KeepsArgs offset after p (arguments stop' opener' (within offset after tokens)) := by
  rw [arguments.eq_def] at h
  split at h
  · cases h
    exact yieldsArgs_none
  · rename_i other
    exact yieldsArgs_some (keepsArgs_someArguments kept opener' fewer h)
      (within_ne_of_pos (Nat.zero_lt_of_lt p.shorter) other)

theorem keeps_primary {tokens : List Token} {p : Parsed tokens} (fewer : tokens.length ≤ bound)
    (h : primary stop tokens = .ok p) :
    Keeps offset after p (primary stop' (within offset after tokens)) := by
  rw [primary.eq_def] at h
  split at h
  · cases h
  · rename_i name span opener rest
    split at h
    · cases h
    · rename_i args read
      cases h
      have kept' := keepsArgs_arguments kept (opener.shift offset) (by simp at fewer; omega) read
      rw [Keeps, Expr.shift, Expr.map, Span.shift_merge]
      exact yields_call kept'
  · rename_i name span rest noCall
    cases h
    exact yields_ident (within_ne ends (by decide) noCall)
  · rename_i span rest
    cases h
    have scope := yields_this stop' (span.shift offset) (within offset after rest)
    rw [scopeLinks_within ends, ← Span.shift_merge] at scope
    exact scope
  · rename_i span rest
    cases h
    have scope := yields_super stop' (span.shift offset) (within offset after rest)
    rw [scopeLinks_within ends, ← Span.shift_merge] at scope
    exact scope
  · cases h
    exact yields_root
  · rename_i span rest
    split at h
    · cases h
    · rename_i inner read
      split at h
      · cases h
      · rename_i closed closes
        cases h
        have inners := kept fewer read
        rw [Keeps, tokens_of_closing closes] at inners
        exact yields_group inners
  · cases h
  · cases h
  · split at h
    · rename_i value literal
      cases h
      exact yields_literal literal
    · cases h

theorem keeps_accesses {tokens tokens' : List Token} {receiver p : Parsed tokens}
    {receiver' : Parsed tokens'} (fewer : receiver.rest.length ≤ bound)
    (same : receiver'.expr = receiver.expr.shift offset)
    (follows : receiver'.rest = within offset after receiver.rest)
    (h : accesses stop receiver = .ok p) : Keeps offset after p (accesses stop' receiver') := by
  rw [accesses] at h
  split at h
  · split at h
    · cases h
    · rename_i token more next _
      split at h
      · cases h
      · rename_i name named
        have shorter : more.length < receiver.rest.length := by
          simp only [next, List.length_cons]
          omega
        rw [next] at follows
        have property : IsProperty token.kind name := of_propertyName named
        obtain ⟨receiver'', left, expr, taken⟩ := exists_accesses_property follows property
        rw [taken]
        refine keeps_accesses (Nat.le_of_lt (Nat.lt_of_lt_of_le shorter fewer)) ?_ ?_ h
        · simp [expr, same, Span.shift_merge]
        · exact left
  · rename_i opener rest next
    split at h
    · cases h
    · rename_i some
      split at h
      · cases h
      · rename_i position read
        split at h
        · cases h
        · rename_i closed closes
          have shorter : closed.rest.length < receiver.rest.length := by
            have := position.shorter
            have := closed.shorter
            simp only [next, List.length_cons]
            omega
          have inner := kept (by simp only [next, List.length_cons] at fewer; omega) read
          rw [Keeps, tokens_of_closing closes] at inner
          rw [next] at follows
          have some' : ∀ span more, rest ≠ ⟨.sign .closeBracket, span⟩ :: more := by
            rintro span more rfl
            exact some span more next rfl HEq.rfl
          obtain ⟨receiver'', left, expr, taken⟩ := exists_accesses_position follows inner
            (within_ne_of_pos (Nat.zero_lt_of_lt position.shorter) some')
          rw [taken]
          refine keeps_accesses (Nat.le_of_lt (Nat.lt_of_lt_of_le shorter fewer)) ?_ ?_ h
          · simp [expr, same, Span.shift_merge]
          · exact left
  · rename_i noDot noIndex
    cases h
    refine ⟨receiver', accesses_of_ne ?_ ?_, same, follows⟩
    · rw [follows]
      exact within_ne ends (by decide) noDot
    · rw [follows]
      exact within_ne ends (by decide) noIndex
termination_by receiver.rest.length

theorem keeps_postfixed {tokens : List Token} {p : Parsed tokens} (fewer : tokens.length ≤ bound)
    (h : postfixed stop tokens = .ok p) :
    Keeps offset after p (postfixed stop' (within offset after tokens)) := by
  rw [postfixed] at h
  split at h
  · cases h
  · rename_i receiver read
    obtain ⟨receiver', read', same, follows⟩ := keeps_primary ends kept fewer read
    rw [postfixed, read']
    exact keeps_accesses ends kept (Nat.le_of_lt (Nat.lt_of_lt_of_le receiver.shorter fewer)) same
      follows h

theorem keeps_filters {tokens tokens' : List Token} {input p : Parsed tokens} {input' : Parsed tokens'}
    (fewer : input.rest.length ≤ bound) (same : input'.expr = input.expr.shift offset)
    (follows : input'.rest = within offset after input.rest) (h : filters stop input = .ok p) :
    Keeps offset after p (filters stop' input') := by
  rw [filters] at h
  split at h
  · split at h
    · rename_i name span opener more next _
      split at h
      · cases h
      · rename_i args read
        have shorter : args.rest.length < input.rest.length := by
          have := args.shorter
          simp only [next, List.length_cons]
          omega
        obtain ⟨args', read', es, closer, left⟩ := keepsArgs_arguments kept (opener.shift offset)
          (by simp only [next, List.length_cons] at fewer; omega) read
        rw [next] at follows
        obtain ⟨input'', left', expr, taken⟩ := exists_filters_call follows read'
        rw [taken]
        refine keeps_filters (Nat.le_of_lt (Nat.lt_of_lt_of_le shorter fewer)) ?_ ?_ h
        · simp [expr, same, es, closer, Span.shift_merge]
        · exact left'.trans left
    · rename_i name span more next noCall _
      have shorter : more.length < input.rest.length := by
        simp only [next, List.length_cons]
        omega
      rw [next] at follows
      have bare : ∀ opener others, more ≠ ⟨.sign .openParen, opener⟩ :: others := by
        rintro opener others rfl
        exact noCall opener others next rfl HEq.rfl
      obtain ⟨input'', left, expr, taken⟩ := exists_filters_name follows
        (within_ne ends (by decide) bare)
      rw [taken]
      refine keeps_filters (Nat.le_of_lt (Nat.lt_of_lt_of_le shorter fewer)) ?_ ?_ h
      · simp [expr, same, Span.shift_merge]
      · exact left
    · cases h
  · rename_i noPipe
    cases h
    refine ⟨input', filters_of_ne ?_, same, follows⟩
    rw [follows]
    exact within_ne ends (by decide) noPipe
termination_by input.rest.length

theorem keeps_unary {tokens : List Token} {p : Parsed tokens} (fewer : tokens.length ≤ bound)
    (h : unary stop tokens = .ok p) :
    Keeps offset after p (unary stop' (within offset after tokens)) := by
  rw [unary.eq_def] at h
  split at h
  · rename_i span rest
    split at h
    · cases h
    · rename_i inner read
      cases h
      have operand := keeps_unary (Nat.le_of_lt fewer) read
      rw [Keeps, Expr.shift_unary, Span.shift_merge, ← Expr.mark_shift]
      exact yields_minus operand
  · rename_i span rest
    split at h
    · cases h
    · rename_i inner read
      cases h
      have operand := keeps_unary (Nat.le_of_lt fewer) read
      rw [Keeps, Expr.shift_unary, Span.shift_merge, ← Expr.mark_shift]
      exact yields_bang operand
  · rename_i noMinus noBang
    split at h
    · cases h
    · rename_i input read
      obtain ⟨input', read', same, follows⟩ := keeps_postfixed ends kept fewer read
      have unfolded : unary stop' (within offset after tokens) = filters stop' input' := by
        rw [unary]
        · rw [read']
        · exact within_ne ends (by decide) noMinus
        · exact within_ne ends (by decide) noBang
      rw [unfolded]
      exact keeps_filters ends kept (Nat.le_of_lt (Nat.lt_of_lt_of_le input.shorter fewer)) same
        follows h
termination_by tokens.length

theorem keeps_operand {least : Nat} {tokens : List Token} {p : Parsed tokens}
    (fewer : tokens.length ≤ bound) (h : operand stop least tokens = .ok p) :
    Keeps offset after p (operand stop' least (within offset after tokens)) := by
  rw [operand.eq_def] at h
  split at h
  · rename_i span rest
    split at h
    · rename_i loose
      split at h
      · cases h
      · rename_i inner read
        cases h
        rw [Keeps, Expr.shift_unary, Span.shift_merge, ← Expr.mark_shift]
        exact yields_not loose (kept fewer read)
    · rename_i tight
      rw [operand_of_tight (Nat.lt_of_not_le tight)]
      exact keeps_unary ends kept fewer h
  · rename_i noNot
    rw [operand]
    · exact keeps_unary ends kept fewer h
    · exact within_ne ends (by decide) noNot

theorem keeps_climb {least : Nat} {tokens tokens' : List Token} {left p : Parsed tokens}
    {left' : Parsed tokens'} (fewer : left.rest.length ≤ bound)
    (same : left'.expr = left.expr.shift offset)
    (follows : left'.rest = within offset after left.rest) (h : climb stop least left = .ok p) :
    Keeps offset after p (climb stop' least left') := by
  have halted (halts : Halts least left.rest) (done : left = p) :
      Keeps offset after p (climb stop' least left') :=
    ⟨left', climb_of_halts (follows ▸ halts_within ends halts), done ▸ same, done ▸ follows⟩
  rw [climb] at h
  split at h
  · rename_i none
    exact halted (by rw [none]; nofun) (Except.ok.inj h)
  · rename_i token rest next
    split at h
    · rename_i other
      refine halted ?_ (Except.ok.inj h)
      rw [next]
      rintro _ _ op ⟨⟩ written
      rw [other] at written
      cases written
    · rename_i op written
      split at h
      · rename_i loose
        refine halted ?_ (Except.ok.inj h)
        rw [next]
        rintro _ _ op' ⟨⟩ written'
        cases written.symm.trans written'
        exact loose
      · rename_i taken
        split at h
        · cases h
        · rename_i right read
          have shorter : right.rest.length < left.rest.length := by
            have := right.shorter
            simp only [next, List.length_cons]
            omega
          rw [next] at follows
          obtain ⟨right', read', same', follows'⟩ := kept
            (by simp only [next, List.length_cons] at fewer; omega) read
          obtain ⟨left'', ends', expr, taken'⟩ := exists_climb_eq follows written read'
          rw [taken' least (Nat.le_of_not_lt taken)]
          refine keeps_climb (Nat.le_of_lt (Nat.lt_of_lt_of_le shorter fewer)) ?_ ?_ h
          · simp [expr, same, same', Span.shift_merge]
          · exact ends'.trans follows'
termination_by left.rest.length

theorem keeps_binary {least : Nat} {tokens : List Token} {p : Parsed tokens}
    (fewer : tokens.length ≤ bound) (h : binary stop least tokens = .ok p) :
    Keeps offset after p (binary stop' least (within offset after tokens)) := by
  rw [binary] at h
  split at h
  · cases h
  · rename_i left read
    obtain ⟨left', read', same, follows⟩ := keeps_operand ends kept fewer read
    rw [binary, read']
    exact keeps_climb ends kept (Nat.le_of_lt (Nat.lt_of_lt_of_le left.shorter fewer)) same follows h

end Readers

theorem local_of_ends (offset : Nat) (stop stop' : Span) (bound : Nat) :
    Local offset after stop stop' bound := by
  induction bound with
  | zero => exact fun _ none => absurd none (Nat.not_lt_zero _)
  | succ bound ih => exact fun _ fewer _ _ h => keeps_binary ends ih (Nat.le_of_lt_succ fewer) h

end Locality

end Parser

end FormulaDoc
