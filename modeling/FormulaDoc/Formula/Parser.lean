import FormulaDoc.Formula.Expr
import FormulaDoc.Formula.SyntaxError

/-!
# Reading expressions

Tokens are read from the left, each production leaving the tokens that it did not use. What it leaves
is shorter than what it got, and that is why reading ends. Binary operators group to the left and by
precedence; the word `not` takes an equality but no conjunction; filters are calls with their input
first; parentheses leave no node.
-/
namespace FormulaDoc

/-- An expression read from the front of some tokens. -/
structure Parsed (tokens : List Token) where
  expr : Expr Span
  rest : List Token
  shorter : rest.length < tokens.length

structure ParsedArgs (tokens : List Token) where
  args : List (Expr Span)
  closer : Span
  rest : List Token
  shorter : rest.length < tokens.length

structure Closed (tokens : List Token) where
  closer : Span
  rest : List Token
  shorter : rest.length < tokens.length

namespace Parser

/-- The first of some tokens, the end of the text after the last one. -/
def current (stop : Span) : List Token → Token
  | [] => ⟨.endOfText, stop⟩
  | token :: _ => token

def closing (stop : Span) (closer : Sign) (opener : Span) (tokens : List Token) :
    Except SyntaxError (Closed tokens) :=
  match tokens with
  | [] => .error ⟨.unclosed closer, opener.merge stop⟩
  | token :: rest =>
    if token.kind = .sign closer then .ok ⟨token.span, rest, Nat.lt_succ_self _⟩
    else .error ⟨.wrongCloser closer opener token.kind, opener.merge token.span⟩

/-- Extends a scope by links: each `super` goes up one more level and `this` none. -/
def scopeLinks (depth : Nat) (last : Span) : List Token → Nat × Span × List Token
  | ⟨.sign .dot, _⟩ :: ⟨.word .super, span⟩ :: rest => scopeLinks (depth + 1) span rest
  | ⟨.sign .dot, _⟩ :: ⟨.word .this, span⟩ :: rest => scopeLinks depth span rest
  | tokens => (depth, last, tokens)

theorem length_scopeLinks_le (depth : Nat) (last : Span) (tokens : List Token) :
    (scopeLinks depth last tokens).2.2.length ≤ tokens.length := by
  fun_induction scopeLinks depth last tokens with
  | case1 => simp only [List.length_cons]; omega
  | case2 => simp only [List.length_cons]; omega
  | case3 => exact Nat.le_refl _

/-- The name of the property that a token gives after a dot, or why it gives none. -/
def propertyName (dot : Span) (token : Token) : Except SyntaxError String :=
  match token.kind with
  | .ident name => .ok name
  | .word w => if w.isPropertyName then .ok w.text else .error ⟨.anchorAfterDot token.kind, token.span⟩
  | .sign .dollar => .error ⟨.anchorAfterDot token.kind, token.span⟩
  | _ => .error ⟨.noPropertyName token.kind, dot.merge token.span⟩

def literal? : TokenKind → Option Value
  | .number n => some (.number n)
  | .string s => some (.string s)
  | .word .true => some (.bool true)
  | .word .false => some (.bool false)
  | .word .null => some .null
  | _ => none

mutual

/-- An operand followed by binary operators that bind at least as tightly as `least`. -/
def binary (stop : Span) (least : Nat) (tokens : List Token) : Except SyntaxError (Parsed tokens) :=
  match operand stop least tokens with
  | .error e => .error e
  | .ok left => climb stop least left
termination_by 10 * tokens.length + 7
decreasing_by
  · omega
  · have := left.shorter
    omega

/-- An operand of a binary operator; where the word `not` may stand, it takes a whole operand. -/
def operand (stop : Span) (least : Nat) (tokens : List Token) : Except SyntaxError (Parsed tokens) :=
  match tokens with
  | ⟨.word .not, span⟩ :: rest =>
    if least ≤ notPrecedence then
      match binary stop notPrecedence rest with
      | .error e => .error e
      | .ok p =>
        .ok ⟨.unary (span.merge p.expr.mark) .not p.expr, p.rest, Nat.lt_succ_of_lt p.shorter⟩
    else unary stop (⟨.word .not, span⟩ :: rest)
  | tokens => unary stop tokens
termination_by 10 * tokens.length + 6
decreasing_by
  · simp only [List.length_cons]
    omega
  · omega
  · omega

/-- Takes further operators and their right operands as long as they bind tightly enough. -/
def climb (stop : Span) (least : Nat) {tokens : List Token} (left : Parsed tokens) :
    Except SyntaxError (Parsed tokens) :=
  match h : left.rest with
  | [] => .ok left
  | token :: rest =>
    match token.kind.binaryOp? with
    | none => .ok left
    | some op =>
      if op.precedence < least then .ok left
      else
        match binary stop (op.precedence + 1) rest with
        | .error e => .error e
        | .ok right =>
          climb stop least
            { expr := .binary (left.expr.mark.merge right.expr.mark) op left.expr right.expr
              rest := right.rest
              shorter := by
                have := left.shorter
                have := right.shorter
                simp only [h, List.length_cons] at *
                omega }
termination_by 10 * left.rest.length
decreasing_by
  · simp only [h, List.length_cons]
    omega
  · have := right.shorter
    simp only [h, List.length_cons]
    omega

/-- Signs before an operand, or a chain of filters. -/
def unary (stop : Span) (tokens : List Token) : Except SyntaxError (Parsed tokens) :=
  match tokens with
  | ⟨.sign .minus, span⟩ :: rest =>
    match unary stop rest with
    | .error e => .error e
    | .ok p =>
      .ok ⟨.unary (span.merge p.expr.mark) .neg p.expr, p.rest, Nat.lt_succ_of_lt p.shorter⟩
  | ⟨.sign .bang, span⟩ :: rest =>
    match unary stop rest with
    | .error e => .error e
    | .ok p =>
      .ok ⟨.unary (span.merge p.expr.mark) .not p.expr, p.rest, Nat.lt_succ_of_lt p.shorter⟩
  | tokens =>
    match postfixed stop tokens with
    | .error e => .error e
    | .ok input => filters stop input
termination_by 10 * tokens.length + 5
decreasing_by
  · simp only [List.length_cons]
    omega
  · simp only [List.length_cons]
    omega
  · omega
  · have := input.shorter
    omega

/-- Takes further filters: a name after `|`, perhaps with more arguments, called on the input. -/
def filters (stop : Span) {tokens : List Token} (input : Parsed tokens) :
    Except SyntaxError (Parsed tokens) :=
  match h : input.rest with
  | ⟨.sign .pipe, _⟩ :: rest =>
    match rest with
    | ⟨.ident name, span⟩ :: ⟨.sign .openParen, opener⟩ :: more =>
      match arguments stop opener more with
      | .error e => .error e
      | .ok p =>
        filters stop
          { expr := .call (input.expr.mark.merge p.closer) name (input.expr :: p.args)
            rest := p.rest
            shorter := by
              have := input.shorter
              have := p.shorter
              simp only [h, List.length_cons] at *
              omega }
    | ⟨.ident name, span⟩ :: more =>
      filters stop
        { expr := .call (input.expr.mark.merge span) name [input.expr]
          rest := more
          shorter := by
            have := input.shorter
            simp only [h, List.length_cons] at *
            omega }
    | rest =>
      let found := current stop rest
      .error ⟨.noFilterName found.kind, found.span⟩
  | _ => .ok input
termination_by 10 * input.rest.length
decreasing_by
  · simp only [h, List.length_cons]
    omega
  · have := p.shorter
    simp only [h, List.length_cons]
    omega
  · simp only [h, List.length_cons]
    omega

/-- A primary expression followed by properties and indices. -/
def postfixed (stop : Span) (tokens : List Token) : Except SyntaxError (Parsed tokens) :=
  match primary stop tokens with
  | .error e => .error e
  | .ok receiver => accesses stop receiver
termination_by 10 * tokens.length + 4
decreasing_by
  · omega
  · have := receiver.shorter
    omega

def accesses (stop : Span) {tokens : List Token} (receiver : Parsed tokens) :
    Except SyntaxError (Parsed tokens) :=
  match h : receiver.rest with
  | ⟨.sign .dot, dot⟩ :: rest =>
    match rest with
    | [] => .error ⟨.noPropertyName .endOfText, dot.merge stop⟩
    | token :: more =>
      match propertyName dot token with
      | .error e => .error e
      | .ok name =>
        accesses stop
          { expr := .field (receiver.expr.mark.merge token.span) receiver.expr name
            rest := more
            shorter := by
              have := receiver.shorter
              simp only [h, List.length_cons] at *
              omega }
  | ⟨.sign .openBracket, opener⟩ :: rest =>
    match rest with
    | ⟨.sign .closeBracket, closer⟩ :: _ => .error ⟨.emptyIndex, opener.merge closer⟩
    | rest =>
      match binary stop 1 rest with
      | .error e => .error e
      | .ok position =>
        match closing stop .closeBracket opener position.rest with
        | .error e => .error e
        | .ok closed =>
          accesses stop
            { expr := .index (receiver.expr.mark.merge closed.closer) receiver.expr position.expr
              rest := closed.rest
              shorter := by
                have := receiver.shorter
                have := position.shorter
                have := closed.shorter
                simp only [h, List.length_cons] at *
                omega }
  | _ => .ok receiver
termination_by 10 * receiver.rest.length
decreasing_by
  · simp only [h, List.length_cons]
    omega
  · simp only [h, List.length_cons]
    omega
  · have := position.shorter
    have := closed.shorter
    simp only [h, List.length_cons]
    omega

/-- A literal, a name, a call, a scope, the root or a group in parentheses. -/
def primary (stop : Span) (tokens : List Token) : Except SyntaxError (Parsed tokens) :=
  match tokens with
  | [] => .error ⟨.missingOperand, stop⟩
  | ⟨.ident name, span⟩ :: ⟨.sign .openParen, opener⟩ :: rest =>
    match arguments stop opener rest with
    | .error e => .error e
    | .ok p =>
      .ok ⟨.call (span.merge p.closer) name p.args, p.rest,
        Nat.lt_succ_of_lt (Nat.lt_succ_of_lt p.shorter)⟩
  | ⟨.ident name, span⟩ :: rest => .ok ⟨.ident span name, rest, Nat.lt_succ_self _⟩
  | ⟨.word .this, span⟩ :: rest =>
    let links := scopeLinks 0 span rest
    .ok ⟨.scope (span.merge links.2.1) links.1, links.2.2,
      Nat.lt_succ_of_le (length_scopeLinks_le _ _ _)⟩
  | ⟨.word .super, span⟩ :: rest =>
    let links := scopeLinks 1 span rest
    .ok ⟨.scope (span.merge links.2.1) links.1, links.2.2,
      Nat.lt_succ_of_le (length_scopeLinks_le _ _ _)⟩
  | ⟨.sign .dollar, span⟩ :: rest => .ok ⟨.root span, rest, Nat.lt_succ_self _⟩
  | ⟨.sign .openParen, span⟩ :: rest =>
    match binary stop 1 rest with
    | .error e => .error e
    | .ok inner =>
      match closing stop .closeParen span inner.rest with
      | .error e => .error e
      | .ok closed =>
        .ok ⟨inner.expr, closed.rest,
          Nat.lt_succ_of_lt (Nat.lt_trans closed.shorter inner.shorter)⟩
  | ⟨.sign .closeParen, span⟩ :: _ => .error ⟨.strayCloser .closeParen, span⟩
  | ⟨.sign .closeBracket, span⟩ :: _ => .error ⟨.strayCloser .closeBracket, span⟩
  | ⟨kind, span⟩ :: rest =>
    match literal? kind with
    | some value => .ok ⟨.literal span value, rest, Nat.lt_succ_self _⟩
    | none => .error ⟨.noOperand kind, span⟩
termination_by 10 * tokens.length + 3
decreasing_by all_goals simp only [List.length_cons]; omega

def arguments (stop opener : Span) (tokens : List Token) :
    Except SyntaxError (ParsedArgs tokens) :=
  match tokens with
  | ⟨.sign .closeParen, closer⟩ :: rest => .ok ⟨[], closer, rest, Nat.lt_succ_self _⟩
  | tokens => someArguments stop opener tokens
termination_by 10 * tokens.length + 9
decreasing_by omega

def someArguments (stop opener : Span) (tokens : List Token) :
    Except SyntaxError (ParsedArgs tokens) :=
  match binary stop 1 tokens with
  | .error e => .error e
  | .ok first =>
    match h : first.rest with
    | ⟨.sign .comma, _⟩ :: rest =>
      match someArguments stop opener rest with
      | .error e => .error e
      | .ok others =>
        .ok ⟨first.expr :: others.args, others.closer, others.rest, by
          have := first.shorter
          have := others.shorter
          simp only [h, List.length_cons] at *
          omega⟩
    | _ =>
      match closing stop .closeParen opener first.rest with
      | .error e => .error e
      | .ok closed =>
        .ok ⟨[first.expr], closed.closer, closed.rest, Nat.lt_trans closed.shorter first.shorter⟩
termination_by 10 * tokens.length + 8
decreasing_by
  · omega
  · have := first.shorter
    simp only [h, List.length_cons] at *
    omega

end

def formula (stop : Span) (tokens : List Token) : Except SyntaxError (Expr Span) :=
  match tokens with
  | [] => .error ⟨.emptyFormula, stop⟩
  | tokens =>
    match binary stop 1 tokens with
    | .error e => .error e
    | .ok p =>
      match p.rest with
      | [] => .ok p.expr
      | ⟨.sign .closeParen, span⟩ :: _ => .error ⟨.strayCloser .closeParen, span⟩
      | ⟨.sign .closeBracket, span⟩ :: _ => .error ⟨.strayCloser .closeBracket, span⟩
      | ⟨kind, span⟩ :: _ => .error ⟨.trailing kind, span⟩

end Parser

def parse (source : String) : Except SyntaxError (Expr Span) :=
  match scan source with
  | .error e => .error (.ofLexError e)
  | .ok tokens => Parser.formula (endToken source).span tokens

end FormulaDoc
