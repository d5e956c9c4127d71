import FormulaDoc.Formula.Arena
import FormulaDoc.Formula.Parser

/-!
# Reading into an arena

The grammar once more, with the expressions stored in an arena as they are read: each production adds
its own entry after those of its parts, gives the number of the entry, and looks spans up by number.
Groups add nothing. A filter takes the number of its input for an argument.
-/
namespace FormulaDoc

namespace Arena

theorem size_add (arena : Arena) (entry : Entry) (span : Span) :
    (arena.add entry span).size = arena.size + 1 := Array.size_push _

def spanAt (arena : Arena) (number : Nat) (inside : number < arena.size) : Span :=
  have : number < arena.entries.size := inside
  arena.entries[number].2

end Arena

/-- An expression read from the front of some tokens and stored in an arena that others were stored in
before. -/
structure Stored (start : Arena) (tokens : List Token) where
  arena : Arena
  number : Nat
  inside : number < arena.size
  grows : start.size ≤ arena.size
  rest : List Token
  shorter : rest.length < tokens.length

structure StoredArgs (start : Arena) (tokens : List Token) where
  arena : Arena
  numbers : List Nat
  closer : Span
  grows : start.size ≤ arena.size
  rest : List Token
  shorter : rest.length < tokens.length

/-- What is left after more tokens are read is still shorter than all tokens. -/
theorem Stored.shorter_of_next {start : Arena} {tokens : List Token} (stored : Stored start tokens)
    {token : Token} {rest more : List Token} (next : stored.rest = token :: rest)
    (less : more.length < rest.length) : more.length < tokens.length :=
  calc
    more.length < (token :: rest).length := Nat.lt_succ_of_lt less
    _ = stored.rest.length := by rw [next]
    _ < tokens.length := stored.shorter

/-- Adds the entry of an expression whose parts are stored already. -/
def Stored.push {start : Arena} {tokens : List Token} (arena : Arena) (grows : start.size ≤ arena.size)
    (entry : Entry) (span : Span) (rest : List Token) (shorter : rest.length < tokens.length) :
    Stored start tokens where
  arena := arena.add entry span
  number := arena.size
  inside := by
    rw [Arena.size_add]
    exact Nat.lt_succ_self _
  grows := by
    rw [Arena.size_add]
    exact Nat.le_succ_of_le grows
  rest := rest
  shorter := shorter

namespace ArenaParser

open FormulaDoc.Parser (current closing scopeLinks length_scopeLinks_le propertyName literal?)

mutual

/-- An operand followed by binary operators that bind at least as tightly as `least`. -/
def binary (stop : Span) (least : Nat) (arena : Arena) (tokens : List Token) :
    Except SyntaxError (Stored arena tokens) :=
  match operand stop least arena tokens with
  | .error e => .error e
  | .ok left => climb stop least left
termination_by 10 * tokens.length + 7
decreasing_by
  · omega
  · have := left.shorter
    omega

def operand (stop : Span) (least : Nat) (arena : Arena) (tokens : List Token) :
    Except SyntaxError (Stored arena tokens) :=
  match tokens with
  | ⟨.word .not, span⟩ :: rest =>
    if least ≤ notPrecedence then
      match binary stop notPrecedence arena rest with
      | .error e => .error e
      | .ok p =>
        .ok (.push p.arena p.grows (.unary .not p.number)
          (span.merge (p.arena.spanAt p.number p.inside)) p.rest (Nat.lt_succ_of_lt p.shorter))
    else unary stop arena (⟨.word .not, span⟩ :: rest)
  | tokens => unary stop arena tokens
termination_by 10 * tokens.length + 6
decreasing_by
  · simp only [List.length_cons]
    omega
  · omega
  · omega

/-- Takes further operators and their right operands as long as they bind tightly enough. -/
def climb (stop : Span) (least : Nat) {start : Arena} {tokens : List Token}
    (left : Stored start tokens) : Except SyntaxError (Stored start tokens) :=
  match h : left.rest with
  | [] => .ok left
  | token :: rest =>
    match token.kind.binaryOp? with
    | none => .ok left
    | some op =>
      if op.precedence < least then .ok left
      else
        match binary stop (op.precedence + 1) left.arena rest with
        | .error e => .error e
        | .ok right =>
          climb stop least
            (.push right.arena (Nat.le_trans left.grows right.grows)
              (.binary op left.number right.number)
              ((right.arena.spanAt left.number (Nat.lt_of_lt_of_le left.inside right.grows)).merge
                (right.arena.spanAt right.number right.inside))
              right.rest (left.shorter_of_next h right.shorter))
termination_by 10 * left.rest.length
decreasing_by
  · simp only [h, List.length_cons]
    omega
  · have := right.shorter
    simp only [Stored.push, h, List.length_cons]
    omega

/-- Signs before an operand, or a chain of filters. -/
def unary (stop : Span) (arena : Arena) (tokens : List Token) :
    Except SyntaxError (Stored arena tokens) :=
  match tokens with
  | ⟨.sign .minus, span⟩ :: rest =>
    match unary stop arena rest with
    | .error e => .error e
    | .ok p =>
      .ok (.push p.arena p.grows (.unary .neg p.number)
        (span.merge (p.arena.spanAt p.number p.inside)) p.rest (Nat.lt_succ_of_lt p.shorter))
  | ⟨.sign .bang, span⟩ :: rest =>
    match unary stop arena rest with
    | .error e => .error e
    | .ok p =>
      .ok (.push p.arena p.grows (.unary .not p.number)
        (span.merge (p.arena.spanAt p.number p.inside)) p.rest (Nat.lt_succ_of_lt p.shorter))
  | tokens =>
    match postfixed stop arena tokens with
    | .error e => .error e
    | .ok input => filters stop input
termination_by 10 * tokens.length + 5
decreasing_by
  · simp only [List.length_cons]
    omega
  · simp only [List.length_cons]
    omega
  · omega
  · have := input.shorter
    omega

/-- Takes further filters: a name after `|`, perhaps with more arguments, called on the input. -/
def filters (stop : Span) {start : Arena} {tokens : List Token} (input : Stored start tokens) :
    Except SyntaxError (Stored start tokens) :=
  match h : input.rest with
  | ⟨.sign .pipe, _⟩ :: rest =>
    match rest with
    | ⟨.ident name, span⟩ :: ⟨.sign .openParen, opener⟩ :: more =>
      match arguments stop opener input.arena more with
      | .error e => .error e
      | .ok p =>
        filters stop
          (.push p.arena (Nat.le_trans input.grows p.grows) (.call name (input.number :: p.numbers))
            ((p.arena.spanAt input.number (Nat.lt_of_lt_of_le input.inside p.grows)).merge p.closer)
            p.rest
            (input.shorter_of_next h (Nat.lt_succ_of_lt (Nat.lt_succ_of_lt p.shorter))))
    | ⟨.ident name, span⟩ :: more =>
      filters stop
        (.push input.arena input.grows (.call name [input.number])
          ((input.arena.spanAt input.number input.inside).merge span) more
          (input.shorter_of_next h (Nat.lt_succ_self _)))
    | rest =>
      let found := current stop rest
      .error ⟨.noFilterName found.kind, found.span⟩
  | _ => .ok input
termination_by 10 * input.rest.length
decreasing_by
  · simp only [h, List.length_cons]
    omega
  · have := p.shorter
    simp only [Stored.push, h, List.length_cons]
    omega
  · simp only [Stored.push, h, List.length_cons]
    omega

/-- A primary expression followed by properties and indices. -/
def postfixed (stop : Span) (arena : Arena) (tokens : List Token) :
    Except SyntaxError (Stored arena tokens) :=
  match primary stop arena tokens with
  | .error e => .error e
  | .ok receiver => accesses stop receiver
termination_by 10 * tokens.length + 4
decreasing_by
  · omega
  · have := receiver.shorter
    omega

def accesses (stop : Span) {start : Arena} {tokens : List Token} (receiver : Stored start tokens) :
    Except SyntaxError (Stored start tokens) :=
  match h : receiver.rest with
  | ⟨.sign .dot, dot⟩ :: rest =>
    match rest with
    | [] => .error ⟨.noPropertyName .endOfText, dot.merge stop⟩
    | token :: more =>
      match propertyName dot token with
      | .error e => .error e
      | .ok name =>
        accesses stop
          (.push receiver.arena receiver.grows (.field receiver.number name)
            ((receiver.arena.spanAt receiver.number receiver.inside).merge token.span) more
            (receiver.shorter_of_next h (Nat.lt_succ_self _)))
  | ⟨.sign .openBracket, opener⟩ :: rest =>
    match rest with
    | ⟨.sign .closeBracket, closer⟩ :: _ => .error ⟨.emptyIndex, opener.merge closer⟩
    | rest =>
      match binary stop 1 receiver.arena rest with
      | .error e => .error e
      | .ok position =>
        match closing stop .closeBracket opener position.rest with
        | .error e => .error e
        | .ok closed =>
          accesses stop
            (.push position.arena (Nat.le_trans receiver.grows position.grows)
              (.index receiver.number position.number)
              ((position.arena.spanAt receiver.number
                (Nat.lt_of_lt_of_le receiver.inside position.grows)).merge closed.closer)
              closed.rest
              (receiver.shorter_of_next h (Nat.lt_trans closed.shorter position.shorter)))
  | _ => .ok receiver
termination_by 10 * receiver.rest.length
decreasing_by
  · simp only [Stored.push, h, List.length_cons]
    omega
  · simp only [h, List.length_cons]
    omega
  · have := position.shorter
    have := closed.shorter
    simp only [Stored.push, h, List.length_cons]
    omega

/-- A literal, a name, a call, a scope, the root or a group in parentheses. -/
def primary (stop : Span) (arena : Arena) (tokens : List Token) :
    Except SyntaxError (Stored arena tokens) :=
  match tokens with
  | [] => .error ⟨.missingOperand, stop⟩
  | ⟨.ident name, span⟩ :: ⟨.sign .openParen, opener⟩ :: rest =>
    match arguments stop opener arena rest with
    | .error e => .error e
    | .ok p =>
      .ok (.push p.arena p.grows (.call name p.numbers) (span.merge p.closer) p.rest
        (Nat.lt_succ_of_lt (Nat.lt_succ_of_lt p.shorter)))
  | ⟨.ident name, span⟩ :: rest =>
    .ok (.push arena (Nat.le_refl _) (.ident name) span rest (Nat.lt_succ_self _))
  | ⟨.word .this, span⟩ :: rest =>
    let links := scopeLinks 0 span rest
    .ok (.push arena (Nat.le_refl _) (.scope links.1) (span.merge links.2.1) links.2.2
      (Nat.lt_succ_of_le (length_scopeLinks_le _ _ _)))
  | ⟨.word .super, span⟩ :: rest =>
    let links := scopeLinks 1 span rest
    .ok (.push arena (Nat.le_refl _) (.scope links.1) (span.merge links.2.1) links.2.2
      (Nat.lt_succ_of_le (length_scopeLinks_le _ _ _)))
  | ⟨.sign .dollar, span⟩ :: rest =>
    .ok (.push arena (Nat.le_refl _) .root span rest (Nat.lt_succ_self _))
  | ⟨.sign .openParen, span⟩ :: rest =>
    match binary stop 1 arena rest with
    | .error e => .error e
    | .ok inner =>
      match closing stop .closeParen span inner.rest with
      | .error e => .error e
      | .ok closed =>
        .ok { inner with
          rest := closed.rest
          shorter := Nat.lt_succ_of_lt (Nat.lt_trans closed.shorter inner.shorter) }
  | ⟨.sign .closeParen, span⟩ :: _ => .error ⟨.strayCloser .closeParen, span⟩
  | ⟨.sign .closeBracket, span⟩ :: _ => .error ⟨.strayCloser .closeBracket, span⟩
  | ⟨kind, span⟩ :: rest =>
    match literal? kind with
    | some value => .ok (.push arena (Nat.le_refl _) (.literal value) span rest (Nat.lt_succ_self _))
    | none => .error ⟨.noOperand kind, span⟩
termination_by 10 * tokens.length + 3
decreasing_by all_goals simp only [List.length_cons]; omega

def arguments (stop opener : Span) (arena : Arena) (tokens : List Token) :
    Except SyntaxError (StoredArgs arena tokens) :=
  match tokens with
  | ⟨.sign .closeParen, closer⟩ :: rest =>
    .ok ⟨arena, [], closer, Nat.le_refl _, rest, Nat.lt_succ_self _⟩
  | tokens => someArguments stop opener arena tokens
termination_by 10 * tokens.length + 9
decreasing_by omega

def someArguments (stop opener : Span) (arena : Arena) (tokens : List Token) :
    Except SyntaxError (StoredArgs arena tokens) :=
  match binary stop 1 arena tokens with
  | .error e => .error e
  | .ok first =>
    match h : first.rest with
    | ⟨.sign .comma, _⟩ :: rest =>
      match someArguments stop opener first.arena rest with
      | .error e => .error e
      | .ok others =>
        .ok
          { others with
            numbers := first.number :: others.numbers
            grows := Nat.le_trans first.grows others.grows
            shorter := first.shorter_of_next h others.shorter }
    | _ =>
      match closing stop .closeParen opener first.rest with
      | .error e => .error e
      | .ok closed =>
        .ok ⟨first.arena, [first.number], closed.closer, first.grows, closed.rest,
          Nat.lt_trans closed.shorter first.shorter⟩
termination_by 10 * tokens.length + 8
decreasing_by
  · omega
  · have := first.shorter
    simp only [h, List.length_cons] at *
    omega

end

/-- The arena of a whole formula and the number of its root. -/
def formula (stop : Span) (tokens : List Token) : Except SyntaxError (Arena × Nat) :=
  match tokens with
  | [] => .error ⟨.emptyFormula, stop⟩
  | tokens =>
    match binary stop 1 Arena.empty tokens with
    | .error e => .error e
    | .ok p =>
      match p.rest with
      | [] => .ok (p.arena, p.number)
      | ⟨.sign .closeParen, span⟩ :: _ => .error ⟨.strayCloser .closeParen, span⟩
      | ⟨.sign .closeBracket, span⟩ :: _ => .error ⟨.strayCloser .closeBracket, span⟩
      | ⟨kind, span⟩ :: _ => .error ⟨.trailing kind, span⟩

end ArenaParser

/-- Reads a formula into an arena of its own. -/
def parseArena (source : String) : Except SyntaxError (Arena × Nat) :=
  match scan source with
  | .error e => .error (.ofLexError e)
  | .ok tokens => ArenaParser.formula (endToken source).span tokens

end FormulaDoc
