import FormulaDoc.Proofs.Formula.Finishing

/-!
# Where errors point

Reading goes on as long as what has been read can be completed. Every goal is left behind by a few
tokens in front of which it comes to its end, so the goals that are still waiting say how to complete a
formula. What comes behind a token does not matter before the token is taken, so where reading is stuck
at a token, every text with the same tokens up to there is.
-/
namespace FormulaDoc.Parser

open Progress

/-! ## Stacks of goals -/

/-- What may wait behind a goal: properties and indices behind what they are taken of, nothing behind
the end of the text. What is closed are parentheses and brackets. -/
def Goal.Fits (waiting : List Goal) : Goal → Prop
  | primary | links => ∃ rest, waiting = accesses :: rest
  | formula | finish => waiting = []
  | close closer => closer = .closeParen ∨ closer = .closeBracket
  | _ => True

/-- Every goal fits what waits behind it. -/
def Stacked : List Goal → Prop
  | [] => True
  | goal :: waiting => goal.Fits waiting ∧ Stacked waiting

theorem stacked_of_expand {goal : Goal} {here next : TokenKind} {n : Nat} {goals waiting : List Goal}
    (found : goal.expand here next = some (n, goals)) (stacked : Stacked (goal :: waiting)) :
    Stacked (goals ++ waiting) := by
  obtain ⟨fits, stacked⟩ := stacked
  unfold Goal.expand at found
  split at found
  all_goals
    repeat' split at found
    all_goals cases found
    all_goals simp_all [Stacked, Goal.Fits]

theorem Moves.stacked {p q : Progress} (h : Moves p q) (stacked : Stacked p.goals) : Stacked q.goals := by
  induction h with
  | refl => exact stacked
  | tail _ move ih =>
    obtain ⟨goal, waiting, passed, goals, same, found, same', -, -, -⟩ := move_cases move
    rw [same'] 
    rw [same] at ih
    exact stacked_of_expand found ih

/-! ## Fillers -/

/-- Tokens that bring a goal to its end. -/
def Goal.filler : Goal → List TokenKind
  | formula | binary _ | operand _ | unary | filterName | postfixed | property | primary =>
    [.ident "x"]
  | position => [.ident "x", .sign .closeBracket]
  | arguments | moreArguments => [.sign .closeParen]
  | close closer => [.sign closer]
  | _ => []

def fillers (goals : List Goal) : List TokenKind := goals.flatMap Goal.filler

/-- The kinds of tokens that fillers are made of. None of them goes on with an expression before it. -/
def fillerKinds : List TokenKind := [.ident "x", .sign .closeParen, .sign .closeBracket]

theorem exists_filler {goals : List Goal} (stacked : Stacked goals) :
    ∃ kind ∈ .endOfText :: fillerKinds, ∃ rest, fillers goals ++ [.endOfText] = kind :: rest := by
  induction goals with
  | nil => exact ⟨.endOfText, List.mem_cons_self, [], rfl⟩
  | cons goal waiting ih =>
    obtain ⟨fits, stacked⟩ := stacked
    cases goal with
    | finish | climb | filters | filterArguments | accesses | call | links => exact ih stacked
    | close closer =>
      rcases fits with rfl | rfl
      · exact ⟨_, by simp [fillerKinds], _, rfl⟩
      · exact ⟨_, by simp [fillerKinds], _, rfl⟩
    | _ => exact ⟨_, by simp [fillerKinds], _, rfl⟩

/-- Fillers can be written. -/
theorem mem_fillers {goals : List Goal} (stacked : Stacked goals) :
    ∀ kind ∈ fillers goals, kind ∈ fillerKinds := by
  induction goals with
  | nil => exact nofun
  | cons goal waiting ih =>
    obtain ⟨fits, stacked⟩ := stacked
    intro kind mem
    rw [fillers, List.flatMap_cons, List.mem_append] at mem
    rcases mem with mem | mem
    · cases goal with
      | close closer => rcases fits with rfl | rfl <;> simp_all [Goal.filler, fillerKinds]
      | position =>
        simp only [Goal.filler, List.mem_cons, List.not_mem_nil, or_false] at mem
        rcases mem with rfl | rfl <;> simp [fillerKinds]
      | _ => simp_all [Goal.filler, fillerKinds]
    · exact ih stacked kind mem

/-- In front of its fillers, a goal takes some of them and asks for goals with the others. -/
theorem exists_expand_filler {goal : Goal} {waiting : List Goal} (stacked : Stacked (goal :: waiting))
    {behind : List TokenKind} (filled : behind = fillers waiting ++ [.endOfText]) :
    ∃ passed goals, goal.filler = passed ++ fillers goals ∧ .endOfText ∉ passed ∧
      goal.expand ((goal.filler ++ behind).headD .endOfText)
        ((goal.filler ++ behind).tail.headD .endOfText) = some (passed.length, goals) := by
  obtain ⟨fits, stacked⟩ := stacked
  obtain ⟨kind, mem, rest, front⟩ := exists_filler stacked
  rw [← filled] at front
  subst front
  simp only [fillerKinds, List.mem_cons, List.not_mem_nil, or_false] at mem
  cases goal with
  | formula => exact ⟨[], [.binary 1, .finish], rfl, List.not_mem_nil, rfl⟩
  | finish =>
    cases fits
    cases filled
    exact ⟨[], [], rfl, List.not_mem_nil, rfl⟩
  | binary least => exact ⟨[], [.operand least, .climb least], rfl, List.not_mem_nil, rfl⟩
  | operand least => exact ⟨[], [.unary], rfl, List.not_mem_nil, rfl⟩
  | unary => exact ⟨[], [.postfixed, .filters], rfl, List.not_mem_nil, rfl⟩
  | postfixed => exact ⟨[], [.primary, .accesses], rfl, List.not_mem_nil, rfl⟩
  | primary => exact ⟨[.ident "x"], [.call], rfl, by simp, rfl⟩
  | filterName => exact ⟨[.ident "x"], [.filterArguments], rfl, by simp, rfl⟩
  | property => exact ⟨[.ident "x"], [.accesses], rfl, by simp, rfl⟩
  | position =>
    exact ⟨[], [.binary 1, .close .closeBracket, .accesses], rfl, List.not_mem_nil, rfl⟩
  | arguments => exact ⟨[.sign .closeParen], [], rfl, by simp, rfl⟩
  | moreArguments => exact ⟨[.sign .closeParen], [], rfl, by simp, rfl⟩
  | close closer => exact ⟨[.sign closer], [], rfl, by simp, if_pos rfl⟩
  | filterArguments =>
    refine ⟨[], [.filters], rfl, List.not_mem_nil, ?_⟩
    rcases mem with rfl | rfl | rfl | rfl <;> rfl
  | climb | filters | accesses | call | links =>
    refine ⟨[], [], rfl, List.not_mem_nil, ?_⟩
    rcases mem with rfl | rfl | rfl | rfl <;> rfl

/-- Goals in front of their fillers come to their end. -/
theorem moves_fillers (goals : List Goal) (stacked : Stacked goals) (taken : List TokenKind) :
    ∃ taken', Moves ⟨goals, taken, fillers goals ++ [.endOfText]⟩ ⟨[], taken', [.endOfText]⟩ := by
  induction most : potential ⟨goals, taken, fillers goals ++ [.endOfText]⟩ using Nat.strong_induction_on
    generalizing goals taken with
  | _ n ih =>
    cases goals with
    | nil => exact ⟨taken, .refl⟩
    | cons goal waiting =>
      obtain ⟨passed, goals, filler, inner, found⟩ := exists_expand_filler stacked rfl
      have split : fillers (goal :: waiting) ++ [.endOfText] =
          passed ++ (fillers (goals ++ waiting) ++ [.endOfText]) := by
        simp [fillers, filler]
      have same : goal.filler ++ (fillers waiting ++ [.endOfText]) =
          passed ++ (fillers (goals ++ waiting) ++ [.endOfText]) := by
        simp [fillers, filler]
      rw [same] at found
      rw [split] at most ⊢
      have move := move?_of_expand _ _ found inner waiting taken
      have less := potential_lt_of_move move
      rw [most] at less
      obtain ⟨taken', moves⟩ := ih _ less _ (stacked_of_expand found stacked) _ rfl
      exact ⟨taken', .head move moves⟩

/-! ## Other tokens ahead -/

/-- A word that goes on with a scope chain behind a dot. -/
def IsLink (kind : TokenKind) : Prop := kind = .word .this ∨ kind = .word .super

/-- A goal that takes at most one token does so whatever comes behind it, unless that makes a link. -/
theorem expand_of_next {goal : Goal} {here next next' : TokenKind} {n : Nat} {goals : List Goal}
    (found : goal.expand here next = some (n, goals)) (few : n ≤ 1)
    (other : next' = next ∨ ¬ IsLink next' ∨ goal ≠ .links ∨ here ≠ .sign .dot) :
    goal.expand here next' = some (n, goals) := by
  cases goal with
  | links =>
    unfold Goal.expand at found ⊢
    dsimp only at found ⊢
    rcases other with rfl | other | other | other
    · exact found
    · rw [if_neg fun link => other link.2]
      split at found
      · cases found
        omega
      · exact found
    · exact absurd rfl other
    · rw [if_neg fun link => other link.1]
      rw [if_neg fun link => other link.1] at found
      exact found
  | _ => exact found

theorem expand_none_of_next {goal : Goal} {here next : TokenKind} (refused : goal.expand here next = none)
    (next' : TokenKind) : goal.expand here next' = none := by
  cases goal with
  | links =>
    unfold Goal.expand at refused
    dsimp only at refused
    split at refused <;> cases refused
  | _ => exact refused

/-- Moves that take some tokens are the same with other tokens behind those, unless these make a link of
the last one. They come at some point to the first of the other tokens. -/
theorem exists_alike {p q : Progress} (h : Moves p q) :
    ∀ passed, p.left = passed ++ q.left → ∃ goals,
      Moves ⟨goals, p.taken ++ passed, q.left⟩ q ∧
      ∀ rest : List TokenKind, rest.headD .endOfText = q.left.headD .endOfText ∨
          ¬ IsLink (rest.headD .endOfText) →
        Moves ⟨p.goals, p.taken, passed ++ rest⟩ ⟨goals, p.taken ++ passed, rest⟩ := by
  induction h using Relation.ReflTransGen.head_induction_on with
  | refl =>
    intro passed same
    have none : passed = [] := by
      have length := congrArg List.length same
      rw [List.length_append] at length
      exact List.length_eq_zero_iff.mp (by omega)
    subst none
    refine ⟨q.goals, ?_, fun rest _ => ?_⟩
    · rw [List.append_nil]
      exact .refl
    · rw [List.append_nil]
      exact .refl
  | head move moves ih =>
    rename_i p p'
    intro passed same
    obtain ⟨goal, waiting, first, goals', top, found, top', left, taken, inner⟩ := move_cases move
    obtain ⟨others, left', -, -⟩ := Moves.exists_passed moves
    have parts : passed = first ++ others := by
      rw [same, left', ← List.append_assoc] at left
      exact List.append_cancel_right left
    cases passed with
    | nil =>
      refine ⟨p.goals, ?_, fun rest _ => ?_⟩
      · rw [List.append_nil, ← show p.left = q.left from same]
        exact .head move moves
      · rw [List.append_nil]
        exact .refl
    | cons kind passed =>
      obtain ⟨goals, front, alike⟩ := ih others left'
      rw [taken, List.append_assoc, ← parts] at front alike
      refine ⟨goals, front, fun rest other => .head ?_ (alike rest other)⟩
      rw [top, top', parts, List.append_assoc]
      refine move?_of_expand _ _ ?_ inner waiting p.taken
      rw [← List.append_assoc, ← parts]
      have here : p.here = kind := by rw [Progress.here, same]; rfl
      rw [here] at found
      cases passed with
      | cons kind' passed =>
        have next : p.next = kind' := by rw [Progress.next, same]; rfl
        rw [next] at found
        exact found
      | nil =>
        have next : p.next = q.left.headD .endOfText := by rw [Progress.next, same]; rfl
        rw [next] at found
        have few : first.length ≤ 1 := by
          have length := congrArg List.length parts
          rw [List.length_append, List.length_singleton] at length
          omega
        exact expand_of_next found few (other.imp_right .inl)

/-- Further properties and indices go on at a dot. -/
theorem not_stuck_of_accesses {waiting : List Goal} {taken left : List TokenKind} {q : Progress}
    (h : Moves ⟨.accesses :: waiting, taken, .sign .dot :: left⟩ q) (here : q.left = .sign .dot :: left) :
    ¬ q.Stuck := by
  have found (next : TokenKind) : Goal.accesses.expand (.sign .dot) next = some (1, [.property]) := rfl
  have move := move?_of_expand [.sign .dot] left (found _) (by simp) waiting taken
  rintro ⟨-, stuck⟩
  rcases h.cases_head with rfl | ⟨p, move', moves⟩
  · exact absurd (move.symm.trans stuck) nofun
  · cases move.symm.trans move'
    obtain ⟨passed, left', -⟩ := Moves.exists_passed moves
    rw [here] at left'
    have length : left.length = _ := congrArg List.length left'
    rw [List.length_append, List.length_cons] at length
    omega

/-- Links end where none is read, and then the same dot is left to properties. -/
theorem not_stuck_of_links {waiting goals : List Goal} {taken left : List TokenKind} {next : TokenKind}
    {q : Progress} (stacked : Stacked (.links :: waiting))
    (found : Goal.links.expand (.sign .dot) next = some (0, goals))
    (h : Moves ⟨goals ++ waiting, taken, .sign .dot :: left⟩ q) (here : q.left = .sign .dot :: left) :
    ¬ q.Stuck := by
  obtain ⟨waiting, rfl⟩ := stacked.1
  have none : goals = [] := by
    unfold Goal.expand at found
    dsimp only at found
    split at found <;> cases found
    rfl
  subst none
  exact not_stuck_of_accesses h here

/-- Where reading is stuck at a token, it is with other tokens behind that. -/
theorem exists_stuck_alike {p q : Progress} (h : Moves p q) (stacked : Stacked p.goals)
    {kind : TokenKind} {left : List TokenKind} (first : p.left = kind :: left)
    (here : q.left = kind :: left) (stuck : q.Stuck) (rest : List TokenKind) :
    ∃ q', Moves ⟨p.goals, p.taken, kind :: rest⟩ q' ∧ q'.Stuck := by
  induction h using Relation.ReflTransGen.head_induction_on with
  | refl =>
    refine ⟨_, .refl, stuck.1, ?_⟩
    obtain ⟨some, none⟩ := stuck
    cases goals : q.goals with
    | nil => exact absurd goals some
    | cons goal waiting =>
      simp only [move?, goals, Option.map_eq_none_iff] at none ⊢
      rw [Progress.here, here] at none
      exact expand_none_of_next none _
  | head move moves ih =>
    rename_i p p'
    obtain ⟨goal, waiting, passed, goals, top, found, top', left', taken, -⟩ := move_cases move
    obtain ⟨others, left'', -, -⟩ := Moves.exists_passed moves
    -- no token is taken on the way
    have nothing : passed = [] ∧ others = [] := by
      rw [left'', here, first, ← List.append_assoc] at left'
      have length := congrArg List.length left'
      rw [List.length_append, List.length_append] at length
      constructor <;> apply List.length_eq_zero_iff.mp <;> omega
    obtain ⟨rfl, rfl⟩ := nothing
    rw [top] at stacked
    rw [Progress.here, first] at found
    have found' : goal.expand kind (rest.headD .endOfText) = some (0, goals) := by
      refine expand_of_next found (Nat.zero_le 1) (.inr (.inr ?_))
      by_contra dot
      obtain ⟨rfl, rfl⟩ : goal = .links ∧ kind = .sign .dot := by
        rw [not_or, not_not, not_not] at dot
        exact dot
      have same : p' = ⟨goals ++ waiting, p'.taken, .sign .dot :: left⟩ := by
        rw [← top', ← here, ← List.nil_append q.left, ← left'']
      rw [same] at moves
      exact not_stuck_of_links stacked found moves here stuck
    have move' := move?_of_expand [] (kind :: rest) found' List.not_mem_nil waiting p.taken
    have stacked' : Stacked p'.goals := by
      rw [top']
      exact stacked_of_expand found stacked
    obtain ⟨q', moves', stuck'⟩ := ih stacked' (left''.trans here)
    rw [top', taken] at moves'
    rw [top]
    exact ⟨q', .head move' moves', stuck'⟩

/-- Where reading is stuck, the tokens before could be completed, and with the one there nothing can. -/
theorem completable_of_stuck {front left : List TokenKind} {kind : TokenKind} {q : Progress}
    (h : Moves (start (front ++ kind :: left)) q) (here : q.left = kind :: left) (stuck : q.Stuck) :
    (∃ more, (∀ kind ∈ more, kind ∈ fillerKinds) ∧
      ∃ taken, Moves (start (front ++ (more ++ [.endOfText]))) ⟨[], taken, [.endOfText]⟩) ∧
    ∀ rest, ∃ q', Moves (start (front ++ kind :: rest)) q' ∧ q'.Stuck := by
  obtain ⟨goals, behind, alike⟩ := exists_alike h front (by rw [here]; rfl)
  have stacked : Stacked goals :=
    Moves.stacked (alike q.left (.inl rfl)) ⟨rfl, trivial⟩
  constructor
  · obtain ⟨first, mem, others, same⟩ := exists_filler stacked
    have noLink : ¬ IsLink first := by
      simp only [fillerKinds, List.mem_cons, List.not_mem_nil, or_false] at mem
      rcases mem with rfl | rfl | rfl | rfl <;> simp [IsLink]
    obtain ⟨taken, moves⟩ := moves_fillers goals stacked ([] ++ front)
    refine ⟨fillers goals, mem_fillers stacked, taken, .trans (alike _ (.inr ?_)) moves⟩
    rw [same]
    exact noLink
  · intro rest
    obtain ⟨q', moves, stuck'⟩ := exists_stuck_alike behind stacked here here stuck rest
    exact ⟨q', .trans (alike _ (.inl (by rw [here]; rfl))) moves, stuck'⟩

end FormulaDoc.Parser

namespace FormulaDoc

open FormulaDoc.Parser FormulaDoc.Parser.Progress

/-! ## Texts -/

theorem exists_scan_append {a b : String} {tokens tokens' : List Token} (scanned : scan a = .ok tokens)
    (scanned' : scan b = .ok tokens') :
    ∃ all, scan (a ++ (" " ++ b)) = .ok all ∧
      all.map Token.kind = tokens.map Token.kind ++ tokens'.map Token.kind := by
  have spaces : ∀ c ∈ [' '], Lexer.isSpacing c = true := List.forall_mem_singleton.mpr rfl
  have joined := Lexer.scan_join spaces scanned
    (.inr (Lexer.breaks_of_spaces spaces (List.cons_ne_nil _ _) b.toList))
  rw [scan] at scanned'
  rw [scanned'] at joined
  have whole : scan (a ++ (" " ++ b)) = .ok (tokens ++ tokens'.map
      (Token.shift (Lexer.byteLength a.toList + Lexer.byteLength [' ']))) := by
    rw [scan, String.toList_append, String.toList_append]
    exact joined
  exact ⟨_, whole, by simp [Function.comp_def]⟩

/-- A text goes on with tokens of some kinds, if each of them can be written. -/
theorem exists_scan_fillers {a : String} {tokens : List Token} (scanned : scan a = .ok tokens)
    (kinds : List TokenKind) (mem : ∀ kind ∈ kinds, kind ∈ fillerKinds) :
    ∃ b all, scan (a ++ b) = .ok all ∧ all.map Token.kind = tokens.map Token.kind ++ kinds := by
  induction kinds generalizing a tokens with
  | nil => exact ⟨"", tokens, by rw [String.append_empty]; exact scanned, (List.append_nil _).symm⟩
  | cons kind kinds ih =>
    have written : ∃ t one, scan t = .ok one ∧ one.map Token.kind = [kind] := by
      have first := mem kind List.mem_cons_self
      simp only [fillerKinds, List.mem_cons, List.not_mem_nil, or_false] at first
      rcases first with rfl | rfl | rfl
      · exact ⟨"x", _, Lexer.scan_word (by decide), by decide⟩
      · exact ⟨_, _, Lexer.scan_sign_text .closeParen, rfl⟩
      · exact ⟨_, _, Lexer.scan_sign_text .closeBracket, rfl⟩
    obtain ⟨t, one, scanned', same⟩ := written
    obtain ⟨all, appended, kinds'⟩ := exists_scan_append scanned scanned'
    obtain ⟨b, all', appended', kinds''⟩ := ih appended fun kind later => mem kind (List.mem_cons_of_mem _ later)
    refine ⟨" " ++ t ++ b, all', ?_, ?_⟩
    · rw [← String.append_assoc]
      exact appended'
    · rw [kinds'', kinds', same, List.append_assoc]
      rfl

/-- Tokens up to an offset and tokens from there on come apart in one way only. -/
theorem eq_of_apart {offset : Nat} {before after before' after' : List Token}
    (same : before ++ after = before' ++ after')
    (nonempty : ∀ token ∈ before ++ after, token.span.start < token.span.stop)
    (ends : ∀ token ∈ before, token.span.stop ≤ offset) (ends' : ∀ token ∈ before', token.span.stop ≤ offset)
    (begins : ∀ token ∈ after, offset ≤ token.span.start)
    (begins' : ∀ token ∈ after', offset ≤ token.span.start) : before = before' := by
  have cut {before after : List Token} (ends : ∀ token ∈ before, token.span.stop ≤ offset)
      (begins : ∀ token ∈ after, offset ≤ token.span.start)
      (nonempty : ∀ token ∈ before ++ after, token.span.start < token.span.stop) :
      (before ++ after).filter (fun token => token.span.stop ≤ offset) = before := by
    rw [List.filter_append, List.filter_eq_self.mpr fun token mem => decide_eq_true (ends token mem),
      List.filter_eq_nil_iff.mpr, List.append_nil]
    intro token mem
    have some := nonempty token (List.mem_append_right _ mem)
    have late := begins token mem
    simp only [decide_eq_true_eq]
    omega
  rw [← cut ends begins nonempty, same, cut ends' begins' (same ▸ nonempty)]

/-- The tokens before one are those of the text before it. -/
theorem exists_front {source : String} {before after : List Token} {token : Token}
    (scanned : scan source = .ok (before ++ token :: after)) :
    ∃ text rest, source = text ++ rest ∧ text.utf8ByteSize = token.span.start ∧
      scan text = .ok before := by
  have tiling := tiling_of_text scanned
  have mem : token ∈ before ++ token :: after := List.mem_append_right _ List.mem_cons_self
  obtain ⟨piece, rest, ⟨front, whole, span⟩, -⟩ := tiling.pieces token mem
  have start : token.span.start = Lexer.byteLength front := by rw [span]
  obtain ⟨-, behind, apart⟩ := List.pairwise_append.mp tiling.ordered
  have ends : ∀ other ∈ before, other.span.stop ≤ token.span.start :=
    fun other mem => apart other mem token List.mem_cons_self
  have begins : ∀ other ∈ token :: after, token.span.start ≤ other.span.start := by
    intro other mem'
    rcases List.mem_cons.mp mem' with rfl | later
    · exact Nat.le_refl _
    · exact Nat.le_trans (Nat.le_of_lt (tiling.nonempty token mem))
        ((List.pairwise_cons.mp behind).1 other later)
  rw [scan, whole] at scanned
  obtain ⟨before', after', scanned', scanned'', same⟩ := Lexer.scan_split scanned (by
    intro other mem'
    rw [Nat.zero_add, ← start]
    rcases List.mem_append.mp mem' with early | late
    · exact .inl (ends other early)
    · exact .inr (begins other late))
  have tiling' := Lexer.tiling_of_scan (List.nil_append front).symm scanned'
  rw [Nat.zero_add] at scanned''
  have tiling'' := Lexer.tiling_of_scan whole scanned''
  have front' : before = before' :=
    eq_of_apart same tiling.nonempty ends (fun other mem => start ▸ (tiling'.inside other mem).2) begins
      fun other mem => start ▸ (tiling''.inside other mem).1
  refine ⟨String.ofList front, String.ofList (piece ++ rest), ?_, ?_, ?_⟩
  · rw [← String.toList_inj, whole, String.toList_append, String.toList_ofList, String.toList_ofList]
  · rw [← Lexer.byteLength_toList, String.toList_ofList, start]
  · rw [scan, String.toList_ofList, front']
    exact scanned'

end FormulaDoc

namespace FormulaDoc

open FormulaDoc.Parser FormulaDoc.Parser.Progress

/-- The tokens of some formula, with the end of its text, begin with tokens of some kinds. -/
def BeginsFormula (kinds : List TokenKind) : Prop :=
  ∃ source tokens e, lex source = .ok tokens ∧ parse source = .ok e ∧ kinds <+: tokens.map Token.kind

theorem BeginsFormula.of_prefix {kinds kinds' : List TokenKind} (h : BeginsFormula kinds)
    (front : kinds' <+: kinds) : BeginsFormula kinds' := by
  obtain ⟨source, tokens, e, lexed, parsed, before⟩ := h
  exact ⟨source, tokens, e, lexed, parsed, front.trans before⟩

/-- Tokens in front of which reading is stuck, whatever comes behind them, begin no formula. -/
theorem not_beginsFormula {kinds : List TokenKind}
    (blocked : ∀ rest, ∃ q, Moves (start (kinds ++ rest)) q ∧ q.Stuck) : ¬ BeginsFormula kinds := by
  rintro ⟨source, tokens, e, lexed, parsed, rest, same⟩
  obtain ⟨inner, scanned, rfl⟩ := lex_eq_ok_iff.mp lexed
  obtain ⟨taken, moves⟩ := moves_of_parse scanned parsed
  obtain ⟨q, moves', some, stuck⟩ := blocked rest
  rw [same, map_kind_of_lex] at moves'
  rw [← moves.unique moves' rfl stuck] at some
  exact absurd rfl some

/-- Before a token that an error points at stands a text with the tokens before it. -/
theorem exists_text_before {source : String} {before rest : List Token}
    (scanned : scan source = .ok (before ++ rest)) :
    ∃ text others, source = text ++ others ∧
      text.utf8ByteSize = (current (endToken source).span rest).span.start ∧ scan text = .ok before := by
  cases rest with
  | nil =>
    rw [List.append_nil] at scanned
    exact ⟨source, "", (String.append_empty).symm, rfl, scanned⟩
  | cons token after => exact exists_front scanned

theorem exists_current (source : String) (rest : List Token) :
    ∃ after, rest ++ [endToken source] = current (endToken source).span rest :: after := by
  cases rest with
  | nil => exact ⟨[], rfl⟩
  | cons token rest => exact ⟨rest ++ [endToken source], rfl⟩

/-- Tokens that begin a formula do not go on past an impossible one. -/
theorem length_le_of_begins {before after : List Token} {token : Token} {n : Nat}
    (impossible : ¬ BeginsFormula (before.map Token.kind ++ [token.kind]))
    (begins : BeginsFormula (((before ++ token :: after).take n).map Token.kind)) :
    n ≤ before.length := by
  by_contra far
  apply impossible (begins.of_prefix _)
  obtain ⟨more, rfl⟩ : ∃ more, n = before.length + (more + 1) := ⟨n - before.length - 1, by omega⟩
  rw [List.take_length_add_append, List.take_succ_cons, List.map_append, List.map_cons]
  exact ⟨(after.take more).map Token.kind, List.append_assoc _ _ _⟩

/-- An error points at the first token that no formula goes on with. Up to any token before it the tokens
begin the tokens of a formula, and the text before it can be completed to one; up to the token, or to
any later one, they begin those of none. -/
theorem parse_error_at_first_impossible {source : String} {tokens : List Token} {e : SyntaxError}
    (lexed : lex source = .ok tokens) (failed : parse source = .error e) :
    ∃ before token after, tokens = before ++ token :: after ∧
      (∀ n, BeginsFormula ((tokens.take n).map Token.kind) ↔ n ≤ before.length) ∧
      e.span.stop = token.span.stop ∧
      ∃ text rest, source = text ++ rest ∧ text.utf8ByteSize = token.span.start ∧
        ∃ more expr, parse (text ++ more) = .ok expr := by
  obtain ⟨inner, scanned, rfl⟩ := lex_eq_ok_iff.mp lexed
  obtain ⟨q, rest, moves, stuck, ⟨before, rfl⟩, here, -, points⟩ := stuck_of_parse scanned failed
  obtain ⟨text, others, cut, start, scanned'⟩ := exists_text_before scanned
  have kinds : kindsToEnd (before ++ rest) = before.map Token.kind ++ kindsToEnd rest := by
    rw [kindsToEnd, List.map_append, List.append_assoc, kindsToEnd]
  obtain ⟨after, follow⟩ := exists_current source rest
  have ahead : kindsToEnd rest = (current (endToken source).span rest).kind :: after.map Token.kind := by
    rw [← map_kind_of_lex, follow, List.map_cons]
  rw [ahead] at here
  rw [kinds, ahead] at moves
  obtain ⟨⟨more, mem, taken, accepted⟩, blocked⟩ := completable_of_stuck moves here stuck
  obtain ⟨completion, all, appended, same⟩ := exists_scan_fillers scanned' more mem
  obtain ⟨expr, parsed⟩ : ∃ expr, parse (text ++ completion) = .ok expr := by
    apply parse_of_moves appended
    rw [kindsToEnd, same, List.append_assoc]
    exact accepted
  refine ⟨before, _, after, by rw [List.append_assoc, follow], fun n => ⟨?_, ?_⟩, points, text, others,
    cut, start, completion, expr, parsed⟩
  · intro begins
    rw [List.append_assoc, follow] at begins
    refine length_le_of_begins (not_beginsFormula fun others => ?_) begins
    rw [List.append_assoc]
    exact blocked others
  · intro few
    refine ⟨text ++ completion, _, expr, lex_eq_ok_iff.mpr ⟨all, appended, rfl⟩, parsed, ?_⟩
    rw [List.append_assoc, List.take_append_of_le_length few, map_kind_of_lex, kindsToEnd, same]
    exact (List.IsPrefix.map _ (List.take_prefix n before)).trans
      ((List.prefix_append _ _).trans (List.prefix_append _ _))

/-- Instead of a name the bracket should be closed, so the name is the first token that is impossible.
The span of the error starts at the bracket. -/
theorem parse_error_at_first_impossible_name :
    let tokens : List Token := [⟨.ident "a", ⟨0, 1⟩⟩, ⟨.sign .openBracket, ⟨1, 2⟩⟩, ⟨.ident "b", ⟨2, 3⟩⟩,
      ⟨.ident "c", ⟨4, 5⟩⟩, ⟨.sign .closeBracket, ⟨5, 6⟩⟩, ⟨.endOfText, ⟨6, 6⟩⟩]
    lex "a[b c]" = .ok tokens ∧
      parse "a[b c]" = .error ⟨.wrongCloser .closeBracket ⟨1, 2⟩ (.ident "c"), ⟨1, 5⟩⟩ ∧
      BeginsFormula ((tokens.take 3).map Token.kind) ∧
      ¬ BeginsFormula ((tokens.take 4).map Token.kind) := by
  intro tokens
  have lexed : lex "a[b c]" = .ok tokens := by cbv
  have failed : parse "a[b c]" =
      .error ⟨.wrongCloser .closeBracket ⟨1, 2⟩ (.ident "c"), ⟨1, 5⟩⟩ := by cbv
  obtain ⟨before, token, after, split, begins, ends, -⟩ := parse_error_at_first_impossible lexed failed
  have here : tokens[before.length]? = some token := by
    rw [split, List.getElem?_append_right (Nat.le_refl _), Nat.sub_self]
    rfl
  have third : before.length = 3 := by
    have few : before.length < 6 := by
      have length : 6 = _ := congrArg List.length split
      rw [List.length_append, List.length_cons] at length
      omega
    generalize before.length = n at few here
    interval_cases n <;> cases here <;> first | rfl | cases ends
  refine ⟨lexed, failed, (begins 3).mpr (by omega), fun four => ?_⟩
  have := (begins 4).mp four
  omega

end FormulaDoc
