import FormulaDoc.Proofs.Formula.Progress
import FormulaDoc.Proofs.Formula.Tiling

/-!
# Readers move token by token

The readers of expressions go through the moves of reading: where they leave a rest of the tokens they
have come to the end of a goal before it, and where they fail they have come to a token that the
innermost goal does not allow. Their error points at that token.
-/
namespace FormulaDoc.Parser

open Progress

/-! ## What readers go through -/

/-- The kinds of some tokens and of the end of the text. -/
def kindsToEnd (tokens : List Token) : List TokenKind := tokens.map Token.kind ++ [.endOfText]

/-- Some tokens and the end of the text stand one after another. -/
structure InOrder (stop : Span) (tokens : List Token) : Prop where
  ordered : (tokens ++ [(⟨.endOfText, stop⟩ : Token)]).Pairwise fun a b => a.span.stop ≤ b.span.start
  forward : ∀ token ∈ tokens ++ [(⟨.endOfText, stop⟩ : Token)], token.span.start ≤ token.span.stop

/-- From some goals before some tokens, reading comes to others before others. -/
structure Leads (goals : List Goal) (tokens : List Token) (goals' : List Goal) (rest : List Token) :
    Prop where
  suffix : rest <:+ tokens
  moves : ∀ taken, ∃ taken',
    Moves ⟨goals, taken, kindsToEnd tokens⟩ ⟨goals', taken', kindsToEnd rest⟩

/-- From some goals before some tokens, reading comes to a token that the innermost goal does not allow,
where an error points. -/
def Fails (stop : Span) (goals : List Goal) (tokens : List Token) (e : SyntaxError) : Prop :=
  ∃ goal waiting rest, Leads goals tokens (goal :: waiting) rest ∧
    goal.expand (current stop rest).kind (current stop rest.tail).kind = none ∧
    e.span.start ≤ e.span.stop ∧ e.span.stop = (current stop rest).span.stop

/-- An outcome is what some goals come to: a rest of the tokens after them, or an error. -/
def Follows (stop : Span) (goals : List Goal) (tokens : List Token) :
    Except SyntaxError (List Token) → Prop
  | .ok rest => ∀ waiting, Leads (goals ++ waiting) tokens waiting rest
  | .error e => ∀ waiting, Fails stop (goals ++ waiting) tokens e

variable {stop : Span} {goal : Goal} {goals goals' goals'' : List Goal} {token : Token}
  {tokens rest rest' : List Token} {e : SyntaxError} {outcome : Except SyntaxError (List Token)}

theorem InOrder.suffix (order : InOrder stop tokens) (suffix : rest <:+ tokens) : InOrder stop rest := by
  obtain ⟨before, rfl⟩ := suffix
  obtain ⟨ordered, forward⟩ := order
  rw [List.append_assoc] at ordered forward
  exact ⟨(List.pairwise_append.mp ordered).2.1,
    fun token mem => forward token (List.mem_append_right _ mem)⟩

theorem current_mem (stop : Span) (tokens : List Token) :
    current stop tokens ∈ tokens ++ [(⟨.endOfText, stop⟩ : Token)] := by
  cases tokens with
  | nil => exact List.mem_singleton_self _
  | cons token tokens => exact List.mem_cons_self

theorem InOrder.current (order : InOrder stop tokens) :
    (current stop tokens).span.start ≤ (current stop tokens).span.stop :=
  order.forward _ (current_mem stop tokens)

/-- A span from a token to a later one ends where the later one does. -/
theorem InOrder.merge (order : InOrder stop (token :: tokens)) (suffix : rest <:+ tokens) :
    (token.span.merge (Parser.current stop rest).span).start ≤
        (token.span.merge (Parser.current stop rest).span).stop ∧
      (token.span.merge (Parser.current stop rest).span).stop =
        (Parser.current stop rest).span.stop := by
  obtain ⟨before, rfl⟩ := suffix
  have here : Parser.current stop rest ∈ (before ++ rest) ++ [(⟨.endOfText, stop⟩ : Token)] := by
    rw [List.append_assoc]
    exact List.mem_append_right _ (current_mem stop rest)
  have behind := (List.pairwise_cons.mp order.ordered).1 _ here
  have forward := order.forward token List.mem_cons_self
  have forward' := order.forward _ (List.mem_cons_of_mem _ here)
  simp only [Span.merge]
  omega

theorem Leads.trans (h : Leads goals tokens goals' rest) (h' : Leads goals' rest goals'' rest') :
    Leads goals tokens goals'' rest' := by
  refine ⟨h'.suffix.trans h.suffix, fun taken => ?_⟩
  obtain ⟨taken', first⟩ := h.moves taken
  obtain ⟨taken'', second⟩ := h'.moves taken'
  exact ⟨taken'', Relation.ReflTransGen.trans first second⟩

theorem Leads.fails (h : Leads goals tokens goals' rest) (failed : Fails stop goals' rest e) :
    Fails stop goals tokens e := by
  obtain ⟨goal, waiting, rest', leads, refused⟩ := failed
  exact ⟨goal, waiting, rest', h.trans leads, refused⟩

namespace Follows

/-- Goals come to what the goals come to that they turn into. -/
theorem of_leads (h : ∀ waiting, Leads (goals ++ waiting) tokens (goals' ++ waiting) rest)
    (follows : Follows stop goals' rest outcome) : Follows stop goals tokens outcome := by
  cases outcome with
  | ok rest' => exact fun waiting => (h waiting).trans (follows waiting)
  | error e => exact fun waiting => (h waiting).fails (follows waiting)

/-- A goal that is read leaves the goals behind it. -/
theorem andThen (first : Follows stop [goal] tokens (.ok rest)) (follows : Follows stop goals rest outcome) :
    Follows stop (goal :: goals) tokens outcome :=
  of_leads (fun waiting => first (goals ++ waiting)) follows

theorem failing (failed : Follows stop [goal] tokens (.error e)) (goals : List Goal) :
    Follows stop (goal :: goals) tokens (.error e) :=
  fun waiting => failed (goals ++ waiting)

/-- A token that the goal does not allow, where an error points. -/
theorem refused
    (found : goal.expand (current stop tokens).kind (current stop tokens.tail).kind = none)
    (points : e.span.start ≤ e.span.stop ∧ e.span.stop = (current stop tokens).span.stop) :
    Follows stop [goal] tokens (.error e) :=
  fun waiting => ⟨goal, waiting, tokens, ⟨List.suffix_rfl, fun taken => ⟨taken, .refl⟩⟩, found, points⟩

theorem headD_kindsToEnd (stop : Span) (tokens : List Token) :
    (kindsToEnd tokens).headD .endOfText = (current stop tokens).kind := by
  cases tokens <;> rfl

theorem headD_tail_kindsToEnd (stop : Span) (tokens : List Token) :
    (kindsToEnd tokens).tail.headD .endOfText = (current stop tokens.tail).kind := by
  cases tokens with
  | nil => rfl
  | cons token tokens => exact headD_kindsToEnd stop tokens

/-- A move that takes some tokens from the front. -/
theorem step (passed : List Token) (inner : ∀ token ∈ passed, token.kind ≠ .endOfText)
    (found : goal.expand (current stop (passed ++ rest)).kind (current stop (passed ++ rest).tail).kind =
      some (passed.length, goals))
    (follows : Follows stop goals rest outcome) : Follows stop [goal] (passed ++ rest) outcome := by
  refine of_leads (fun waiting => ⟨List.suffix_append passed rest, fun taken =>
    ⟨taken ++ passed.map Token.kind, .single ?_⟩⟩) follows
  have split : kindsToEnd (passed ++ rest) = passed.map Token.kind ++ kindsToEnd rest := by
    rw [kindsToEnd, List.map_append, List.append_assoc, kindsToEnd]
  rw [split]
  refine move?_of_expand _ _ ?_ ?_ waiting taken
  · rw [← split, headD_kindsToEnd stop, headD_tail_kindsToEnd stop, found, List.length_map]
  · intro mem
    obtain ⟨token, mem, last⟩ := List.mem_map.mp mem
    exact inner token mem last

/-- A move that takes no token. -/
theorem stay
    (found : goal.expand (current stop tokens).kind (current stop tokens.tail).kind = some (0, goals))
    (follows : Follows stop goals tokens outcome) : Follows stop [goal] tokens outcome :=
  step [] (List.forall_mem_nil _) found follows

/-- A move that takes a token. -/
theorem take (follow : tokens = token :: rest)
    (found : goal.expand token.kind (current stop rest).kind = some (1, goals))
    (follows : Follows stop goals rest outcome) : Follows stop [goal] tokens outcome := by
  subst follow
  have inner : token.kind ≠ .endOfText := by
    intro same
    rw [same] at found
    exact Nat.one_ne_zero (Goal.expand_endOfText found)
  exact step [token] (by simpa using inner) found follows

/-- A move that takes two tokens. -/
theorem takeTwo {second : Token} (found : goal.expand token.kind second.kind = some (2, goals))
    (follows : Follows stop goals tokens outcome) :
    Follows stop [goal] (token :: second :: tokens) outcome := by
  have inner : token.kind ≠ .endOfText := by
    intro same
    rw [same] at found
    exact absurd (Goal.expand_endOfText found) (by decide)
  have inner' : second.kind ≠ .endOfText := by
    rcases Goal.le_of_expand found with few | ⟨-, inner'⟩
    · omega
    · exact inner'
  exact step [token, second] (by simpa using ⟨inner, inner'⟩) found follows

/-- Nothing more is to be read. -/
theorem done (stop : Span) (tokens : List Token) : Follows stop [] tokens (.ok tokens) :=
  fun _ => ⟨List.suffix_rfl, fun taken => ⟨taken, .refl⟩⟩

end Follows

theorem sign_ne_endOfText (s : Sign) : TokenKind.sign s ≠ .endOfText := nofun

theorem word_ne_endOfText (w : Keyword) : TokenKind.word w ≠ .endOfText := nofun

theorem ident_ne_endOfText (name : String) : TokenKind.ident name ≠ .endOfText := nofun

theorem current_ne {kind : TokenKind} (inner : kind ≠ .endOfText)
    (other : ∀ span rest, tokens ≠ ⟨kind, span⟩ :: rest) : (current stop tokens).kind ≠ kind := by
  cases tokens with
  | nil => exact inner.symm
  | cons token tokens =>
    rintro rfl
    exact other token.span tokens rfl

/-- A closing sign, for a goal that stands for it here. -/
theorem follows_closing {opener : Token} (order : InOrder stop (opener :: tokens))
    (suffix : rest <:+ tokens) (closer : Sign)
    (same : goal.expand (current stop rest).kind (current stop rest.tail).kind =
      (Goal.close closer).expand (current stop rest).kind (current stop rest.tail).kind) :
    Follows stop [goal] rest ((closing stop closer opener.span rest).map Closed.rest) := by
  unfold closing
  split
  · exact .refused same (order.merge suffix)
  · rename_i token rest
    split
    · rename_i closes
      exact .take rfl (same.trans (if_pos closes)) (.done stop rest)
    · rename_i other
      exact .refused (same.trans (if_neg other)) (order.merge suffix)

theorem follows_links (depth : Nat) (last : Span) (tokens : List Token) :
    Follows stop [.links] tokens (.ok (scopeLinks depth last tokens).2.2) := by
  fun_induction scopeLinks depth last tokens with
  | case1 depth last _ span rest ih => exact .takeTwo rfl ih
  | case2 depth last _ span rest ih => exact .takeTwo rfl ih
  | case3 depth last tokens noSuper noThis =>
    refine .stay (if_neg ?_) (.done stop tokens)
    rintro ⟨dot, link⟩
    rcases tokens with - | ⟨⟨_, span⟩, - | ⟨⟨_, span'⟩, rest⟩⟩
    · cases dot
    · rcases link with link | link <;> cases link
    · cases dot
      rcases link with link | link
      · cases link
        exact noThis span span' rest rfl
      · cases link
        exact noSuper span span' rest rfl

theorem refused_of_propertyName {dot : Token} (order : InOrder stop (dot :: token :: rest))
    (failed : propertyName dot.span token = .error e) :
    ¬ isPropertyName token.kind ∧ e.span.start ≤ e.span.stop ∧ e.span.stop = token.span.stop := by
  have forward := (order.suffix (List.suffix_cons dot _)).current
  unfold propertyName at failed
  split at failed
  · cases failed
  · rename_i w same
    split at failed
    · cases failed
    · rename_i anchor
      cases failed
      exact ⟨by rw [same]; exact anchor, forward, rfl⟩
  · rename_i same
    cases failed
    exact ⟨by rw [same]; exact Bool.false_ne_true, forward, rfl⟩
  · rename_i noName noWord _
    cases failed
    refine ⟨?_, order.merge (List.suffix_rfl : token :: rest <:+ _)⟩
    unfold isPropertyName
    split
    · exact (noName _ ‹_›).elim
    · exact (noWord _ ‹_›).elim
    · exact Bool.false_ne_true

theorem isPropertyName_of_propertyName {dot : Span} {name : String}
    (named : propertyName dot token = .ok name) : isPropertyName token.kind := by
  unfold propertyName at named
  split at named
  · rename_i same
    rw [same]
    rfl
  · rename_i same
    rw [same]
    split at named
    · assumption
    · cases named
  · cases named
  · cases named

/-- Of fewer tokens than a number, expressions are read in moves. -/
def Moving (stop : Span) (bound : Nat) : Prop :=
  ∀ ⦃tokens : List Token⦄, tokens.length < bound → InOrder stop tokens → ∀ least,
    Follows stop [.binary least] tokens ((binary stop least tokens).map Parsed.rest)

section Moving

variable {bound : Nat} (moving : Moving stop bound)

include moving

theorem follows_someArguments {tokens : List Token} {opener : Token} (order : InOrder stop (opener :: rest))
    (suffix : tokens <:+ rest) (fewer : tokens.length < bound) :
    Follows stop [.binary 1, .moreArguments] tokens
      ((someArguments stop opener.span tokens).map ParsedArgs.rest) := by
  have first := moving fewer ((order.suffix (List.suffix_cons opener rest)).suffix suffix) 1
  rw [someArguments]
  split
  · rename_i failed
    rw [failed] at first
    exact first.failing [.moreArguments]
  · rename_i p read
    rw [read] at first
    refine .andThen first ?_
    have left : p.rest <:+ tokens := (first []).suffix
    split
    · rename_i comma others next
      have shorter : others.length < tokens.length := by
        have := p.shorter
        simp only [next, List.length_cons] at this
        omega
      rw [next] at left
      have more := follows_someArguments order
        (((List.suffix_cons _ others).trans left).trans suffix) (Nat.lt_trans shorter fewer)
      refine .take next rfl ?_
      split
      · rename_i failed
        rw [failed] at more
        exact more
      · rename_i read
        rw [read] at more
        exact more
    · rename_i noComma
      have other : (current stop p.rest).kind ≠ .sign .comma := current_ne (sign_ne_endOfText _) noComma
      have last : Follows stop [.moreArguments] p.rest _ :=
        follows_closing order (left.trans suffix) .closeParen (if_neg other)
      split
      · rename_i failed
        rw [failed] at last
        exact last
      · rename_i closes
        rw [closes] at last
        exact last
termination_by tokens.length

theorem follows_arguments {opener : Token} (order : InOrder stop (opener :: tokens))
    (fewer : tokens.length < bound) :
    Follows stop [.arguments] tokens ((arguments stop opener.span tokens).map ParsedArgs.rest) := by
  rw [arguments.eq_def]
  split
  · exact .take rfl rfl (.done stop _)
  · rename_i noCloser
    have other : (current stop tokens).kind ≠ .sign .closeParen :=
      current_ne (sign_ne_endOfText _) fun span rest => noCloser span rest
    exact .stay (if_neg other) (follows_someArguments moving order List.suffix_rfl fewer)

theorem follows_primary (order : InOrder stop tokens) (fewer : tokens.length ≤ bound) :
    Follows stop [.primary] tokens ((primary stop tokens).map Parsed.rest) := by
  rw [primary.eq_def]
  split
  · exact .refused rfl ⟨order.current, rfl⟩
  · rename_i name span opener rest
    have args := follows_arguments moving (order.suffix (List.suffix_cons _ _))
      (by simp at fewer; omega)
    refine .take rfl rfl (.take rfl rfl ?_)
    split
    · rename_i failed
      rw [failed] at args
      exact args
    · rename_i read
      rw [read] at args
      exact args
  · rename_i name span rest noCall
    have other : (current stop rest).kind ≠ .sign .openParen := current_ne (sign_ne_endOfText _) noCall
    exact .take rfl rfl (.stay (if_neg other) (.done stop rest))
  · exact .take rfl rfl (follows_links _ _ _)
  · exact .take rfl rfl (follows_links _ _ _)
  · exact .take rfl rfl (.done stop _)
  · rename_i span rest
    have inner := moving fewer (order.suffix (List.suffix_cons _ rest)) 1
    refine .take rfl rfl ?_
    split
    · rename_i failed
      rw [failed] at inner
      exact inner.failing [.close .closeParen]
    · rename_i p read
      rw [read] at inner
      refine .andThen inner ?_
      have last := follows_closing order (inner []).suffix .closeParen rfl
      split
      · rename_i failed
        rw [failed] at last
        exact last
      · rename_i closes
        rw [closes] at last
        exact last
  · exact .refused rfl ⟨order.current, rfl⟩
  · exact .refused rfl ⟨order.current, rfl⟩
  · rename_i kind span rest noCall noName noThis noSuper noRoot noGroup noParen noBracket
    have found (next : TokenKind) : Goal.primary.expand kind next =
        if (literal? kind).isSome then some (1, []) else none := by
      unfold Goal.expand
      dsimp only
      split
      · exact (noName _ rfl).elim
      · exact (noThis rfl).elim
      · exact (noSuper rfl).elim
      · exact (noRoot rfl).elim
      · exact (noGroup rfl).elim
      · rfl
    split
    · rename_i value literal
      exact .take rfl (by rw [found, literal]; rfl) (.done stop rest)
    · rename_i none
      exact .refused ((found _).trans (by rw [none]; rfl)) ⟨order.current, rfl⟩

theorem follows_accesses {receiver : Parsed tokens} (order : InOrder stop receiver.rest)
    (fewer : receiver.rest.length ≤ bound) :
    Follows stop [.accesses] receiver.rest ((accesses stop receiver).map Parsed.rest) := by
  rw [accesses]
  split
  · rename_i dot rest next
    rw [next] at order
    refine .take next rfl ?_
    split
    · exact .refused rfl (order.merge List.suffix_rfl)
    · rename_i token more _
      split
      · rename_i failed
        obtain ⟨other, points⟩ := refused_of_propertyName order failed
        exact .refused (if_neg (Bool.not_eq_true _ ▸ other)) points
      · rename_i name named
        have shorter : more.length < receiver.rest.length := by
          simp only [next, List.length_cons]
          omega
        have is := isPropertyName_of_propertyName named
        refine .take rfl (if_pos is) ?_
        exact follows_accesses ((order.suffix (List.suffix_cons _ _)).suffix (List.suffix_cons _ _))
          (Nat.le_of_lt (Nat.lt_of_lt_of_le shorter fewer))
  · rename_i opener rest next
    have less : rest.length < receiver.rest.length := by rw [next]; exact Nat.lt_succ_self _
    have fewer' := Nat.lt_of_lt_of_le less fewer
    rw [next] at order
    refine .take next rfl ?_
    split
    · exact .refused rfl (order.merge List.suffix_rfl)
    · rename_i noCloser
      have other : (current stop rest).kind ≠ .sign .closeBracket :=
        current_ne (sign_ne_endOfText _) fun span more same =>
          noCloser span more (by rw [next, same]) same (proof_irrel_heq _ _)
      have inner := moving fewer' (order.suffix (List.suffix_cons _ rest)) 1
      refine .stay (if_neg other) ?_
      split
      · rename_i failed
        rw [failed] at inner
        exact inner.failing [.close .closeBracket, .accesses]
      · rename_i p read
        rw [read] at inner
        refine .andThen inner ?_
        have last := follows_closing order (inner []).suffix .closeBracket rfl
        split
        · rename_i failed
          rw [failed] at last
          exact last.failing [.accesses]
        · rename_i closed closes
          rw [closes] at last
          have shorter : closed.rest.length < receiver.rest.length := by
            have := p.shorter
            have := closed.shorter
            omega
          refine .andThen last ?_
          exact follows_accesses
            (order.suffix (((last []).suffix.trans (inner []).suffix).trans (List.suffix_cons _ rest)))
            (Nat.le_of_lt (Nat.lt_of_lt_of_le shorter fewer))
  · rename_i noDot noBracket
    have noDot : (current stop receiver.rest).kind ≠ .sign .dot := current_ne (sign_ne_endOfText _) noDot
    have noBracket : (current stop receiver.rest).kind ≠ .sign .openBracket :=
      current_ne (sign_ne_endOfText _) noBracket
    exact .stay ((if_neg noDot).trans (if_neg noBracket)) (.done stop _)
termination_by receiver.rest.length

theorem follows_postfixed (order : InOrder stop tokens) (fewer : tokens.length ≤ bound) :
    Follows stop [.postfixed] tokens ((postfixed stop tokens).map Parsed.rest) := by
  have first := follows_primary moving order fewer
  rw [postfixed]
  refine .stay rfl ?_
  split
  · rename_i failed
    rw [failed] at first
    exact first.failing [.accesses]
  · rename_i receiver read
    rw [read] at first
    exact .andThen first
      (follows_accesses moving (order.suffix (first []).suffix)
        (Nat.le_of_lt (Nat.lt_of_lt_of_le receiver.shorter fewer)))

theorem follows_filters {input : Parsed tokens} (order : InOrder stop input.rest)
    (fewer : input.rest.length ≤ bound) :
    Follows stop [.filters] input.rest ((filters stop input).map Parsed.rest) := by
  rw [filters]
  split
  · rename_i next
    rw [next] at order
    refine .take next rfl ?_
    split
    · rename_i name span opener more _
      have behind := (order.suffix (List.suffix_cons _ _)).suffix (List.suffix_cons _ _)
      have args := follows_arguments moving behind
        (by simp only [next, List.length_cons] at fewer; omega)
      refine .take rfl rfl (.take rfl rfl ?_)
      split
      · rename_i failed
        rw [failed] at args
        exact args.failing [.filters]
      · rename_i p read
        rw [read] at args
        have shorter : p.rest.length < input.rest.length := by
          have := p.shorter
          simp only [next, List.length_cons]
          omega
        exact .andThen args
          (follows_filters (behind.suffix ((args []).suffix.trans (List.suffix_cons _ _)))
            (Nat.le_of_lt (Nat.lt_of_lt_of_le shorter fewer)))
    · rename_i name span more _ noCall
      have shorter : more.length < input.rest.length := by
        simp only [next, List.length_cons]
        omega
      have other : (current stop more).kind ≠ .sign .openParen :=
        current_ne (sign_ne_endOfText _) fun opener args same =>
          noCall opener args (by rw [next, same]) same (proof_irrel_heq _ _)
      refine .take rfl rfl (.stay (if_neg other) ?_)
      exact follows_filters ((order.suffix (List.suffix_cons _ _)).suffix (List.suffix_cons _ _))
        (Nat.le_of_lt (Nat.lt_of_lt_of_le shorter fewer))
    · rename_i rest _ _ _ _ noName
      have other (name : String) : (current stop rest).kind ≠ .ident name :=
        current_ne (ident_ne_endOfText name) fun span more same =>
          noName name span more (by rw [next, same]) same (proof_irrel_heq _ _)
      refine .refused ?_ ⟨(order.suffix (List.suffix_cons _ _)).current, rfl⟩
      unfold Goal.expand
      dsimp only
      split
      · rename_i name named
        exact (other name named).elim
      · rfl
  · rename_i noPipe
    have noPipe : (current stop input.rest).kind ≠ .sign .pipe := current_ne (sign_ne_endOfText _) noPipe
    exact .stay (if_neg noPipe) (.done stop _)
termination_by input.rest.length

theorem follows_unary {tokens : List Token} (order : InOrder stop tokens) (fewer : tokens.length ≤ bound) :
    Follows stop [.unary] tokens ((unary stop tokens).map Parsed.rest) := by
  rw [unary.eq_def]
  split
  · rename_i span rest
    have operand := follows_unary (order.suffix (List.suffix_cons _ rest)) (Nat.le_of_lt fewer)
    refine .take rfl rfl ?_
    split
    · rename_i failed
      rw [failed] at operand
      exact operand
    · rename_i read
      rw [read] at operand
      exact operand
  · rename_i span rest
    have operand := follows_unary (order.suffix (List.suffix_cons _ rest)) (Nat.le_of_lt fewer)
    refine .take rfl rfl ?_
    split
    · rename_i failed
      rw [failed] at operand
      exact operand
    · rename_i read
      rw [read] at operand
      exact operand
  · rename_i noMinus noBang
    have first := follows_postfixed moving order fewer
    have noMinus : (current stop tokens).kind ≠ .sign .minus := current_ne (sign_ne_endOfText _) noMinus
    have noBang : (current stop tokens).kind ≠ .sign .bang := current_ne (sign_ne_endOfText _) noBang
    refine .stay (if_neg (not_or.mpr ⟨noMinus, noBang⟩)) ?_
    split
    · rename_i failed
      rw [failed] at first
      exact first.failing [.filters]
    · rename_i input read
      rw [read] at first
      exact .andThen first
        (follows_filters moving (order.suffix (first []).suffix)
          (Nat.le_of_lt (Nat.lt_of_lt_of_le input.shorter fewer)))
termination_by tokens.length

theorem follows_operand (least : Nat) (order : InOrder stop tokens) (fewer : tokens.length ≤ bound) :
    Follows stop [.operand least] tokens ((operand stop least tokens).map Parsed.rest) := by
  rw [operand.eq_def]
  split
  · rename_i span rest
    split
    · rename_i loose
      have inner := moving fewer (order.suffix (List.suffix_cons _ rest)) notPrecedence
      refine .take rfl (if_pos ⟨rfl, loose⟩) ?_
      split
      · rename_i failed
        rw [failed] at inner
        exact inner
      · rename_i read
        rw [read] at inner
        exact inner
    · rename_i tight
      exact .stay (if_neg fun loose => tight loose.2) (follows_unary moving order fewer)
  · rename_i noWord
    have noWord : (current stop tokens).kind ≠ .word .not := current_ne (word_ne_endOfText _) noWord
    exact .stay (if_neg fun word => noWord word.1) (follows_unary moving order fewer)

theorem follows_climb {least : Nat} {left : Parsed tokens} (order : InOrder stop left.rest)
    (fewer : left.rest.length ≤ bound) :
    Follows stop [.climb least] left.rest ((climb stop least left).map Parsed.rest) := by
  rw [climb]
  split
  · rename_i none
    exact .stay (by rw [none]; rfl) (.done stop _)
  · rename_i token rest next
    split
    · rename_i other
      have found (next : TokenKind) : (Goal.climb least).expand token.kind next = some (0, []) := by
        simp only [Goal.expand, other]
      exact .stay (by rw [next]; exact found _) (.done stop _)
    · rename_i op written
      split
      · rename_i loose
        have found (next : TokenKind) : (Goal.climb least).expand token.kind next = some (0, []) := by
          simp only [Goal.expand, written, if_pos loose]
        exact .stay (by rw [next]; exact found _) (.done stop _)
      · rename_i tight
        have less : rest.length < left.rest.length := by rw [next]; exact Nat.lt_succ_self _
        rw [next] at order
        have right := moving (Nat.lt_of_lt_of_le less fewer) (order.suffix (List.suffix_cons _ _))
          (op.precedence + 1)
        have found (next : TokenKind) : (Goal.climb least).expand token.kind next =
            some (1, [.binary (op.precedence + 1), .climb least]) := by
          simp only [Goal.expand, written, if_neg tight]
        refine .take next (found _) ?_
        split
        · rename_i failed
          rw [failed] at right
          exact right.failing [.climb least]
        · rename_i p read
          rw [read] at right
          have shorter : p.rest.length < left.rest.length := Nat.lt_trans p.shorter less
          refine .andThen right ?_
          exact follows_climb (order.suffix ((right []).suffix.trans (List.suffix_cons _ _)))
            (Nat.le_of_lt (Nat.lt_of_lt_of_le shorter fewer))
termination_by left.rest.length

theorem follows_binary (least : Nat) (order : InOrder stop tokens) (fewer : tokens.length ≤ bound) :
    Follows stop [.binary least] tokens ((binary stop least tokens).map Parsed.rest) := by
  have first := follows_operand moving least order fewer
  rw [binary]
  refine .stay rfl ?_
  split
  · rename_i failed
    rw [failed] at first
    exact first.failing [.climb least]
  · rename_i left read
    rw [read] at first
    exact .andThen first
      (follows_climb moving (order.suffix (first []).suffix)
        (Nat.le_of_lt (Nat.lt_of_lt_of_le left.shorter fewer)))

end Moving

theorem moving (stop : Span) (bound : Nat) : Moving stop bound := by
  induction bound with
  | zero => exact fun _ none => absurd none (Nat.not_lt_zero _)
  | succ bound ih =>
    exact fun _ fewer order least => follows_binary ih least order (Nat.le_of_lt_succ fewer)

/-- A formula is read up to the end of the text, or up to where its error points. -/
theorem follows_formula (order : InOrder stop tokens) (inner : ∀ token ∈ tokens, token.kind ≠ .endOfText) :
    Follows stop [.formula] tokens ((formula stop tokens).map fun _ => []) := by
  unfold formula
  split
  · exact .refused rfl ⟨order.current, rfl⟩
  · rename_i some
    have begun : (current stop tokens).kind ≠ .endOfText := by
      cases tokens with
      | nil => exact absurd rfl some
      | cons token rest => exact inner token List.mem_cons_self
    have read := moving stop _ (Nat.lt_succ_self tokens.length) order 1
    refine .stay (if_neg begun) ?_
    split
    · rename_i failed
      rw [failed] at read
      exact read.failing [.finish]
    · rename_i p parsed
      rw [parsed] at read
      refine .andThen read ?_
      have suffix := (read []).suffix
      have forward := (order.suffix suffix).current
      have found (token : Token) (rest : List Token) (next : p.rest = token :: rest) :
          Goal.finish.expand (current stop p.rest).kind (current stop p.rest.tail).kind = none := by
        rw [next] at suffix ⊢
        exact if_neg (inner token (suffix.mem List.mem_cons_self))
      split
      · rename_i none
        rw [none]
        exact .stay rfl (.done stop [])
      · rename_i next
        refine .refused (found _ _ next) ?_
        rw [next] at forward ⊢
        exact ⟨forward, rfl⟩
      · rename_i next
        refine .refused (found _ _ next) ?_
        rw [next] at forward ⊢
        exact ⟨forward, rfl⟩
      · rename_i next
        refine .refused (found _ _ next) ?_
        rw [next] at forward ⊢
        exact ⟨forward, rfl⟩

/-! ## Texts -/

theorem inOrder_of_tiling {text : List Char} {start : Nat} {stop : Nat}
    (tiling : Lexer.Tiling text start stop tokens) : InOrder (.point stop) tokens := by
  constructor
  · refine List.pairwise_append.mpr ⟨tiling.ordered, List.pairwise_singleton _ _, ?_⟩
    intro token mem last mem'
    rw [List.mem_singleton.mp mem']
    exact (tiling.inside token mem).2
  · intro token mem
    rcases List.mem_append.mp mem with mem | mem
    · exact Nat.le_of_lt (tiling.nonempty token mem)
    · rw [List.mem_singleton.mp mem]
      exact Nat.le_refl _

theorem tiling_of_text {source : String} (scanned : scan source = .ok tokens) :
    Lexer.Tiling source.toList 0 source.utf8ByteSize tokens := by
  rw [← Lexer.byteLength_toList]
  exact Lexer.tiling_of_scan (List.nil_append _).symm scanned

/-- A text that is read as an expression is read up to its end, with nothing left to read. -/
theorem moves_of_parse {source : String} {expr : Expr Span} (scanned : scan source = .ok tokens)
    (parsed : parse source = .ok expr) :
    ∃ taken, Moves (start (kindsToEnd tokens)) ⟨[], taken, [.endOfText]⟩ := by
  have tiling := tiling_of_text scanned
  have follows := follows_formula (inOrder_of_tiling tiling) fun token mem => tiling.ne_endOfText mem
  simp only [parse, scanned, endToken] at parsed
  rw [parsed] at follows
  exact (follows []).moves []

/-- Where reading a text as an expression fails, it is stuck at the token that the error points at. -/
theorem stuck_of_parse {source : String} (scanned : scan source = .ok tokens)
    (failed : parse source = .error e) :
    ∃ p rest, Moves (start (kindsToEnd tokens)) p ∧ p.Stuck ∧ rest <:+ tokens ∧
      p.left = kindsToEnd rest ∧ e.span.start ≤ e.span.stop ∧
      e.span.stop = (current (endToken source).span rest).span.stop := by
  have tiling := tiling_of_text scanned
  have follows := follows_formula (inOrder_of_tiling tiling) fun token mem => tiling.ne_endOfText mem
  simp only [parse, scanned, endToken] at failed
  rw [failed] at follows
  obtain ⟨goal, waiting, rest, leads, refused, points⟩ := follows []
  obtain ⟨taken, moves⟩ := leads.moves []
  refine ⟨_, rest, moves, ⟨List.cons_ne_nil _ _, ?_⟩, leads.suffix, rfl, points⟩
  simp only [move?, here, next, Follows.headD_kindsToEnd (endToken source).span,
    Follows.headD_tail_kindsToEnd (endToken source).span]
  exact congrArg _ refused

/-- A text whose tokens are read with nothing left to read is read as an expression. -/
theorem parse_of_moves {source : String} (scanned : scan source = .ok tokens)
    {taken left : List TokenKind} (h : Moves (start (kindsToEnd tokens)) ⟨[], taken, left⟩) :
    ∃ expr, parse source = .ok expr := by
  cases parsed : parse source with
  | ok expr => exact ⟨expr, rfl⟩
  | error e =>
    obtain ⟨p, _, moves, ⟨more, stuck⟩, _⟩ := stuck_of_parse scanned parsed
    rw [← h.unique moves rfl stuck] at more
    exact absurd rfl more

end FormulaDoc.Parser
