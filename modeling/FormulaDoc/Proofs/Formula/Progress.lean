import Mathlib.Logic.Function.Iterate
import Mathlib.Logic.Relation
import FormulaDoc.Formula.Parser

/-!
# Reading token by token

Reading as a sequence of moves. What is still to be read are goals, the innermost one first. A move
replaces it by what it asks for next, as the token at the cursor says, and moves the cursor past the
tokens that it takes. The readers of expressions go through these moves: they come to the end of a goal
where they leave the rest of the tokens, and to a token that the innermost goal does not allow where
their error points.
-/
namespace FormulaDoc.Parser

/-! ## Goals -/

/-- What is still to be read. -/
inductive Goal where
  /-- A whole formula. -/
  | formula
  /-- The end of the text. -/
  | finish
  /-- Operands with operators that bind at least as tightly as a number. -/
  | binary (least : Nat)
  | operand (least : Nat)
  /-- Further operators. -/
  | climb (least : Nat)
  | unary
  /-- Further filters. -/
  | filters
  | filterName
  | filterArguments
  | postfixed
  /-- Further properties and indices. -/
  | accesses
  | property
  | position
  | primary
  /-- The arguments of a name, if it has some. -/
  | call
  /-- Further links of a scope chain. -/
  | links
  /-- Arguments after the opening parenthesis. -/
  | arguments
  /-- Further arguments after one. -/
  | moreArguments
  | close (closer : Sign)
  deriving DecidableEq

def isPropertyName : TokenKind → Bool
  | .ident _ => true
  | .word w => w.isPropertyName
  | _ => false

/-- What a goal asks for next, by the token at the cursor and the one behind it: how many tokens are
taken, and the goals in its place. A goal without an answer does not allow the token. -/
def Goal.expand (goal : Goal) (here next : TokenKind) : Option (Nat × List Goal) :=
  match goal with
  | formula => if here = .endOfText then none else some (0, [binary 1, finish])
  | finish => if here = .endOfText then some (0, []) else none
  | binary least => some (0, [operand least, climb least])
  | operand least =>
    if here = .word .not ∧ least ≤ notPrecedence then some (1, [binary notPrecedence])
    else some (0, [unary])
  | climb least =>
    match here.binaryOp? with
    | some op =>
      if op.precedence < least then some (0, []) else some (1, [binary (op.precedence + 1), climb least])
    | none => some (0, [])
  | unary =>
    if here = .sign .minus ∨ here = .sign .bang then some (1, [unary])
    else some (0, [postfixed, filters])
  | filters => if here = .sign .pipe then some (1, [filterName]) else some (0, [])
  | filterName =>
    match here with
    | .ident _ => some (1, [filterArguments])
    | _ => none
  | filterArguments =>
    if here = .sign .openParen then some (1, [arguments, filters]) else some (0, [filters])
  | postfixed => some (0, [primary, accesses])
  | accesses =>
    if here = .sign .dot then some (1, [property])
    else if here = .sign .openBracket then some (1, [position])
    else some (0, [])
  | property => if isPropertyName here then some (1, [accesses]) else none
  | position =>
    if here = .sign .closeBracket then none
    else some (0, [binary 1, close .closeBracket, accesses])
  | primary =>
    match here with
    | .ident _ => some (1, [call])
    | .word .this | .word .super => some (1, [links])
    | .sign .dollar => some (1, [])
    | .sign .openParen => some (1, [binary 1, close .closeParen])
    | kind => if (literal? kind).isSome then some (1, []) else none
  | call => if here = .sign .openParen then some (1, [arguments]) else some (0, [])
  | links =>
    if here = .sign .dot ∧ (next = .word .this ∨ next = .word .super) then some (2, [links])
    else some (0, [])
  | arguments =>
    if here = .sign .closeParen then some (1, []) else some (0, [binary 1, moreArguments])
  | moreArguments =>
    if here = .sign .comma then some (1, [binary 1, moreArguments])
    else if here = .sign .closeParen then some (1, [])
    else none
  | close closer => if here = .sign closer then some (1, []) else none

/-- No goal takes the end of the text. -/
theorem Goal.expand_endOfText {goal : Goal} {next : TokenKind} {n : Nat} {goals : List Goal}
    (found : goal.expand .endOfText next = some (n, goals)) : n = 0 := by
  cases goal <;> cases found <;> rfl

/-- Only a link of a scope chain takes two tokens. -/
theorem Goal.le_of_expand {goal : Goal} {here next : TokenKind} {n : Nat} {goals : List Goal}
    (found : goal.expand here next = some (n, goals)) : n ≤ 1 ∨ n = 2 ∧ next ≠ .endOfText := by
  unfold expand at found
  split at found
  all_goals grind

/-! ## Moves -/

/-- How far reading has come: the goals, the innermost one first, and the tokens before and after the
cursor. -/
structure Progress where
  goals : List Goal
  taken : List TokenKind
  left : List TokenKind

namespace Progress

/-- The token at the cursor, the end of the text if there is none. -/
def here (p : Progress) : TokenKind := p.left.headD .endOfText

def next (p : Progress) : TokenKind := p.left.tail.headD .endOfText

/-- Moves the cursor past a token, but not past the end of the text. -/
def advance (p : Progress) : Progress :=
  match p.left with
  | [] => p
  | kind :: rest => if kind = .endOfText then p else ⟨p.goals, p.taken ++ [kind], rest⟩

/-- What reading comes to by one move, if the innermost goal allows the token at the cursor. -/
def move? (p : Progress) : Option Progress :=
  match p.goals with
  | [] => none
  | goal :: waiting =>
    (goal.expand p.here p.next).map fun found =>
      advance^[found.1] ⟨found.2 ++ waiting, p.taken, p.left⟩

/-- The innermost goal does not allow the token at the cursor. -/
def Stuck (p : Progress) : Prop := p.goals ≠ [] ∧ p.move? = none

def Moves : Progress → Progress → Prop := Relation.ReflTransGen fun p p' => p.move? = some p'

/-- Before any token of a formula is read. -/
def start (kinds : List TokenKind) : Progress := ⟨[.formula], [], kinds⟩

theorem advance_cons {kind : TokenKind} (inner : kind ≠ .endOfText) (goals : List Goal)
    (taken rest : List TokenKind) :
    advance ⟨goals, taken, kind :: rest⟩ = ⟨goals, taken ++ [kind], rest⟩ := if_neg inner

/-- The tokens that a goal takes are there to be taken. -/
theorem exists_passed {p : Progress} {goal : Goal} {n : Nat} {goals : List Goal}
    (found : goal.expand p.here p.next = some (n, goals)) :
    ∃ passed rest, passed.length = n ∧ p.left = passed ++ rest ∧ .endOfText ∉ passed := by
  by_cases none : n = 0
  · exact ⟨[], p.left, none.symm, rfl, List.not_mem_nil⟩
  have inner : p.here ≠ .endOfText := by
    intro same
    rw [same] at found
    exact none (Goal.expand_endOfText found)
  obtain ⟨_, _, left⟩ := p
  rcases left with - | ⟨first, left⟩
  · exact absurd rfl inner
  rcases Goal.le_of_expand found with few | ⟨rfl, inner'⟩
  · exact ⟨[first], left, by rw [List.length_singleton]; omega, rfl, List.mem_singleton.not.mpr inner.symm⟩
  · rcases left with - | ⟨second, left⟩
    · exact absurd rfl inner'
    · exact ⟨[first, second], left, rfl, rfl, by simpa using ⟨inner.symm, inner'.symm⟩⟩

theorem advance_iterate (passed : List TokenKind) (inner : .endOfText ∉ passed) (goals : List Goal)
    (taken rest : List TokenKind) :
    advance^[passed.length] ⟨goals, taken, passed ++ rest⟩ = ⟨goals, taken ++ passed, rest⟩ := by
  induction passed generalizing taken with
  | nil => rw [List.append_nil]; rfl
  | cons kind passed ih =>
    rw [List.mem_cons, not_or] at inner
    rw [List.length_cons, Function.iterate_succ_apply, List.cons_append,
      advance_cons (Ne.symm inner.1), ih inner.2, List.append_assoc]
    rfl

/-- What a move does: the innermost goal gives way to what it asks for, and the tokens that it takes
come off the front of those that are left. None of them is the end of the text. -/
theorem move_cases {p p' : Progress} (move : p.move? = some p') :
    ∃ goal waiting passed goals, p.goals = goal :: waiting ∧
      goal.expand p.here p.next = some (passed.length, goals) ∧ p'.goals = goals ++ waiting ∧
      p.left = passed ++ p'.left ∧ p'.taken = p.taken ++ passed ∧ .endOfText ∉ passed := by
  unfold move? at move
  split at move
  · cases move
  · rename_i goal waiting same
    obtain ⟨⟨n, goals⟩, found, rfl⟩ := Option.map_eq_some_iff.mp move
    obtain ⟨passed, rest, rfl, left, inner⟩ := exists_passed found
    have moved : advance^[passed.length] ⟨goals ++ waiting, p.taken, p.left⟩ =
        ⟨goals ++ waiting, p.taken ++ passed, rest⟩ := by
      rw [left, advance_iterate passed inner]
    rw [moved]
    exact ⟨goal, waiting, passed, goals, same, found, rfl, left, rfl, inner⟩

/-- A move that takes some tokens from the front. -/
theorem move?_of_expand (passed rest : List TokenKind) {goal : Goal} {goals : List Goal}
    (found : goal.expand ((passed ++ rest).headD .endOfText) ((passed ++ rest).tail.headD .endOfText) =
      some (passed.length, goals)) (inner : .endOfText ∉ passed) (waiting : List Goal)
    (taken : List TokenKind) :
    move? ⟨goal :: waiting, taken, passed ++ rest⟩ =
      some ⟨goals ++ waiting, taken ++ passed, rest⟩ := by
  simp only [move?, here, next, found, Option.map_some]
  exact congrArg some (advance_iterate passed inner _ _ _)

/-- Moves take some tokens from the front, and keep them in order. -/
theorem Moves.exists_passed {p q : Progress} (h : Moves p q) :
    ∃ passed, p.left = passed ++ q.left ∧ q.taken = p.taken ++ passed ∧ .endOfText ∉ passed := by
  induction h with
  | refl => exact ⟨[], rfl, (List.append_nil _).symm, List.not_mem_nil⟩
  | tail _ move ih =>
    obtain ⟨before, left, taken, inner⟩ := ih
    obtain ⟨_, _, passed, _, _, _, _, left', taken', inner'⟩ := move_cases move
    refine ⟨before ++ passed, ?_, ?_, List.not_mem_append inner inner'⟩
    · rw [left, left', List.append_assoc]
    · rw [taken', taken, List.append_assoc]

/-- A run comes to one end only. -/
theorem Moves.unique {p q q' : Progress} (h : Moves p q) (h' : Moves p q') (ends : q.move? = none)
    (ends' : q'.move? = none) : q = q' := by
  have one : Relator.RightUnique fun p p' : Progress => p.move? = some p' := by
    intro p p' p'' first second
    exact Option.some.inj (first.symm.trans second)
  have last {q q' : Progress} (ends : q.move? = none) (h : Moves q q') : q = q' := by
    rcases h.cases_head with same | ⟨next, move, _⟩
    · exact same
    · rw [ends] at move
      cases move
  rcases Relation.ReflTransGen.total_of_right_unique one h h' with on | on
  · exact last ends on
  · exact (last ends' on).symm

end Progress

end FormulaDoc.Parser
