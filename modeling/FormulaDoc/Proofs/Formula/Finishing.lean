import FormulaDoc.Proofs.Formula.Following
import FormulaDoc.Proofs.Formula.Spacing

/-!
# Reading ends

A move takes a token or asks for less than the goal that it replaces, so reading cannot go round in
circles, not even at the end of the text, where the cursor stays. How many moves are left is bounded by
what is still to be read.
-/
namespace FormulaDoc.Parser

open Progress

/-! ## Levels and weights -/

/-- The levels of the grammar. Further operators, filters, accesses, links and arguments, which readers
take in loops, are at the bottom: they go on only behind a token. -/
def Goal.level : Goal → Nat
  | formula => 7
  | position | arguments => 6
  | binary _ => 5
  | operand _ => 4
  | unary => 3
  | postfixed => 2
  | primary | filterArguments => 1
  | _ => 0

/-- The most moves that a goal takes part in as long as no token is taken. -/
def Goal.weight : Goal → Nat
  | position => 11
  | formula | arguments => 10
  | binary _ => 8
  | operand _ => 6
  | unary => 5
  | postfixed => 3
  | filterArguments => 2
  | _ => 1

def weights (goals : List Goal) : Nat := (goals.map Goal.weight).sum

@[simp]
theorem weights_cons (goal : Goal) (goals : List Goal) :
    weights (goal :: goals) = goal.weight + weights goals := List.sum_cons

theorem weights_append (goals goals' : List Goal) :
    weights (goals ++ goals') = weights goals + weights goals' := by
  rw [weights, List.map_append, List.sum_append, weights, weights]

namespace Goal

variable {goal : Goal} {here next : TokenKind} {n : Nat} {goals : List Goal}

/-- Without a token, a goal asks for what is further down in the grammar. -/
theorem level_lt_of_expand (found : goal.expand here next = some (0, goals)) :
    ∀ goal' ∈ goals, goal'.level < goal.level := by
  unfold expand at found
  split at found
  all_goals
    repeat' split at found
    all_goals cases found
    all_goals simp [level]

/-- A goal outweighs what it asks for, if it takes no token. One token makes up for all else. -/
theorem weights_lt_of_expand (found : goal.expand here next = some (n, goals)) :
    weights goals < goal.weight + 11 * n := by
  unfold expand at found
  split at found
  all_goals
    repeat' split at found
    all_goals cases found
    all_goals simp [weights, weight]

end Goal

namespace Progress

variable {p p' : Progress}

/-- The most moves that are left. -/
def potential (p : Progress) : Nat := 11 * p.left.length + weights p.goals

theorem potential_lt_of_move (move : p.move? = some p') : p'.potential < p.potential := by
  obtain ⟨goal, waiting, passed, goals, same, found, same', left, -, -⟩ := move_cases move
  have lighter := Goal.weights_lt_of_expand found
  have shorter : p.left.length = passed.length + p'.left.length := by rw [left, List.length_append]
  simp only [potential, same, same', weights_append, weights_cons]
  omega

/-- A move takes a token, or the innermost goal gives way to goals further down in the grammar. -/
def Onward (p p' : Progress) : Prop :=
  p'.left.length < p.left.length ∨
    ∃ goal waiting goals, p.goals = goal :: waiting ∧ p'.goals = goals ++ waiting ∧
      ∀ goal' ∈ goals, goal'.level < goal.level

theorem onward_of_move (move : p.move? = some p') : Onward p p' := by
  obtain ⟨goal, waiting, passed, goals, same, found, same', left, -, -⟩ := move_cases move
  rcases passed with - | ⟨kind, passed⟩
  · exact .inr ⟨goal, waiting, goals, same, same', Goal.level_lt_of_expand found⟩
  · refine .inl ?_
    rw [left, List.length_append, List.length_cons]
    omega

/-- At least one move. -/
def MovesOn : Progress → Progress → Prop := Relation.TransGen fun p p' => p.move? = some p'

theorem potential_lt_of_movesOn (h : MovesOn p p') : p'.potential < p.potential := by
  induction h with
  | single move => exact potential_lt_of_move move
  | tail _ move ih => exact Nat.lt_trans (potential_lt_of_move move) ih

/-- Where a goal comes up again with all that waits behind it, as in the next round of a loop, a token
has been taken. -/
theorem shorter_of_movesOn (h : MovesOn p p') (again : p.goals <:+ p'.goals) :
    p'.left.length < p.left.length := by
  obtain ⟨goals, same⟩ := again
  have less := potential_lt_of_movesOn h
  simp only [potential, ← same, weights_append] at less
  omega

/-- Moves up to a number of times, as long as it is possible. -/
def run : Nat → Progress → Progress
  | 0, p => p
  | n + 1, p =>
    match p.move? with
    | some p' => run n p'
    | none => p

theorem moves_run (n : Nat) (p : Progress) : Moves p (run n p) := by
  induction n generalizing p with
  | zero => exact .refl
  | succ n ih =>
    unfold run
    split
    · rename_i p' move
      exact .head move (ih p')
    · exact .refl

/-- Enough moves come to an end. -/
theorem run_ends {n : Nat} (enough : p.potential ≤ n) : (run n p).move? = none := by
  induction n generalizing p with
  | zero =>
    cases move : p.move? with
    | none => exact move
    | some p' =>
      have less := potential_lt_of_move move
      omega
  | succ n ih =>
    unfold run
    split
    · rename_i p' move
      have less := potential_lt_of_move move
      exact ih (by omega)
    · rename_i move
      exact move

end Progress

/-- Tokens that tile a part of a text are no more than its bytes. -/
theorem length_le_of_tiling {text : List Char} {start stop : Nat} {tokens : List Token}
    (tiling : Lexer.Tiling text start stop tokens) : tokens.length + start ≤ stop := by
  obtain ⟨forward, -, nonempty, inside, ordered, -⟩ := tiling
  induction tokens generalizing start with
  | nil =>
    rw [List.length_nil]
    omega
  | cons token tokens ih =>
    have some := nonempty token List.mem_cons_self
    have within := inside token List.mem_cons_self
    obtain ⟨behind, ordered⟩ := List.pairwise_cons.mp ordered
    have rest := ih within.2 (fun other mem => nonempty other (List.mem_cons_of_mem _ mem))
      (fun other mem => ⟨behind other mem, (inside other (List.mem_cons_of_mem _ mem)).2⟩) ordered
    rw [List.length_cons]
    omega

end FormulaDoc.Parser

namespace FormulaDoc

open FormulaDoc.Parser FormulaDoc.Parser.Progress

theorem map_kind_of_lex {source : String} {inner : List Token} :
    (inner ++ [endToken source]).map Token.kind = kindsToEnd inner := by
  rw [List.map_append]
  rfl

theorem parse_of_lex_error {source : String} {e : LexError} (failed : lex source = .error e) :
    parse source = .error (.ofLexError e) := by
  cases scanned : scan source with
  | ok inner =>
    simp only [lex, scanned] at failed
    cases failed
  | error e' =>
    simp only [lex, scanned] at failed
    cases failed
    simp only [parse, scanned]

/-- The cursor stays on the tokens of the text, the end included. -/
theorem on_tokens_of_moves {inner : List Token} {p : Progress}
    (moves : Moves (start (kindsToEnd inner)) p) :
    p.taken ++ p.left = kindsToEnd inner ∧ p.left ≠ [] := by
  obtain ⟨passed, left, taken, last⟩ := moves.exists_passed
  constructor
  · rw [taken]
    exact left.symm
  · intro none
    rw [none, List.append_nil] at left
    exact last (left ▸ List.mem_append_right _ (List.mem_singleton_self _))

/-- Where no more moves are possible, a text is read to its end, or the token at the cursor is not
allowed. -/
theorem ends_of_moves {source : String} {inner : List Token} {p : Progress}
    (scanned : scan source = .ok inner) (moves : Moves (start (kindsToEnd inner)) p)
    (ends : p.move? = none) :
    (∃ e, parse source = .ok e) ∧ p.goals = [] ∧ p.taken ++ [.endOfText] = kindsToEnd inner ∨
      (∃ e, parse source = .error e) ∧ p.goals ≠ [] := by
  cases parsed : parse source with
  | ok e =>
    obtain ⟨taken, moves'⟩ := moves_of_parse scanned parsed
    rw [moves.unique moves' ends rfl]
    exact .inl ⟨⟨e, rfl⟩, rfl, (on_tokens_of_moves moves').1⟩
  | error e =>
    obtain ⟨p', _, moves', stuck, _⟩ := stuck_of_parse scanned parsed
    rw [moves.unique moves' ends stuck.2]
    exact .inr ⟨⟨e, rfl⟩, stuck.1⟩

/-- Reading a text ends. There are at most as many tokens as bytes, and the end of the text; a text
without tokens fails where they end. Of a text with tokens, every move of a reader takes a token or asks
for goals further down in the grammar, a goal comes up again, as in the next round of a loop, only
behind a token that has been taken since, and the cursor stays on the tokens of the text. A number of
moves that only depends on the number of tokens comes to the end: either nothing is left to be read,
every token has been taken once and in order, and there is an expression, or what is still to be read
does not allow the token at the cursor, and there is an error. -/
theorem parse_ends (source : String) :
    (∀ e, lex source = .error e → parse source = .error (.ofLexError e)) ∧
    ∀ tokens, lex source = .ok tokens →
      tokens.length ≤ source.utf8ByteSize + 1 ∧
      (∀ p, Moves (start (tokens.map Token.kind)) p →
        p.taken ++ p.left = tokens.map Token.kind ∧ p.left ≠ [] ∧
        (∀ p', p.move? = some p' → Onward p p') ∧
        ∀ p', MovesOn p p' → p.goals <:+ p'.goals → p'.left.length < p.left.length) ∧
      ∃ p, run (11 * tokens.length + 10) (start (tokens.map Token.kind)) = p ∧ p.move? = none ∧
        ((∃ e, parse source = .ok e) ∧ p.goals = [] ∧
            p.taken ++ [.endOfText] = tokens.map Token.kind ∨
          (∃ e, parse source = .error e) ∧ p.goals ≠ []) := by
  refine ⟨fun e => parse_of_lex_error, ?_⟩
  intro tokens read
  obtain ⟨inner, scanned, rfl⟩ := lex_eq_ok_iff.mp read
  rw [map_kind_of_lex]
  refine ⟨?_, ?_, ?_⟩
  · have few := length_le_of_tiling (tiling_of_text scanned)
    rw [List.length_append, List.length_singleton]
    omega
  · intro p moves
    obtain ⟨whole, some⟩ := on_tokens_of_moves moves
    exact ⟨whole, some, fun p' => onward_of_move, fun p' => shorter_of_movesOn⟩
  · have enough : (start (kindsToEnd inner)).potential =
        11 * (inner ++ [endToken source]).length + 10 := by
      simp [potential, start, kindsToEnd, weights, Goal.weight]
    have ends := run_ends (Nat.le_of_eq enough)
    exact ⟨_, rfl, ends, ends_of_moves scanned (moves_run _ _) ends⟩

/-- A text that breaks off inside a call. What is still to be read, when no more moves are possible, is
the rest of the call. -/
theorem parse_ends_inside_call :
    let kinds : List TokenKind :=
      [.ident "f", .sign .openParen, .ident "a", .sign .comma, .endOfText]
    ∃ tokens, lex "f(a," = .ok tokens ∧ tokens.map Token.kind = kinds ∧
      tokens.length ≤ "f(a,".utf8ByteSize + 1 ∧
      ∃ p, run (11 * tokens.length + 10) (start kinds) = p ∧ p.move? = none ∧
        (∃ e, parse "f(a," = .error e) ∧ p.goals ≠ [] := by
  intro kinds
  have lexed : lex "f(a," = .ok [⟨.ident "f", ⟨0, 1⟩⟩, ⟨.sign .openParen, ⟨1, 2⟩⟩,
      ⟨.ident "a", ⟨2, 3⟩⟩, ⟨.sign .comma, ⟨3, 4⟩⟩, ⟨.endOfText, ⟨4, 4⟩⟩] := by cbv
  have failed : parse "f(a," = .error ⟨.missingOperand, ⟨4, 4⟩⟩ := by cbv
  obtain ⟨few, -, p, moves, ends, ⟨⟨e, parsed⟩, -⟩ | error⟩ := (parse_ends "f(a,").2 _ lexed
  · rw [failed] at parsed
    cases parsed
  · exact ⟨_, lexed, rfl, few, p, moves, ends, error⟩

end FormulaDoc
