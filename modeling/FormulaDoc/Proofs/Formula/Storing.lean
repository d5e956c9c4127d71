import FormulaDoc.Proofs.Formula.PostOrder
import Mathlib

/-!
# Reading into an arena is reading a tree

Reading a formula into an arena goes as reading its tree does, and the entries that are stored on the way
are those that the tree adds: each expression is stored after its parts and before all that is read
after it.
-/
namespace FormulaDoc

namespace Arena

/-- A tree that was added keeps its place whatever is added after it. -/
theorem spanAt_addExpr {arena arena' : Arena} {e : Expr Span} {more : List (Entry × Span)}
    (added : arena'.entries.toList = (arena.addExpr e).1.entries.toList ++ more)
    (inside : (arena.addExpr e).2 < arena'.size) : arena'.spanAt (arena.addExpr e).2 inside = e.mark := by
  have holds : arena'.Holds arena.size (e.entries arena.size) := by
    refine ⟨arena.entries.toList, more, ?_, rfl⟩
    rw [added, toList_addExpr, List.append_assoc]
  have entry := holds.children.2
  rw [← addExpr_number, entry?, Array.getElem?_eq_some_iff] at entry
  obtain ⟨_, same⟩ := entry
  exact congrArg Prod.snd same

theorem addExpr_inside (arena : Arena) (e : Expr Span) : (arena.addExpr e).2 < (arena.addExpr e).1.size := by
  have := e.size_pos
  rw [size_addExpr, addExpr_number, Expr.last]
  omega

theorem addExpr_grows (arena : Arena) (e : Expr Span) : arena.size ≤ (arena.addExpr e).1.size := by
  rw [size_addExpr]
  exact Nat.le_add_right _ _

theorem toList_addAll (arena : Arena) (es : List (Expr Span)) :
    (arena.addAll es).1.entries.toList = arena.entries.toList ++ Expr.entriesAll arena.size es :=
  (added_entries.2 es arena).1

theorem addAll_grows (arena : Arena) (es : List (Expr Span)) : arena.size ≤ (arena.addAll es).1.size := by
  rw [size_of_toList (toList_addAll arena es)]
  exact Nat.le_add_right _ _

end Arena

variable {tokens : List Token}

/-- What is stored in an arena for an expression that was read. -/
def Parsed.store (start : Arena) (p : Parsed tokens) : Stored start tokens where
  arena := (start.addExpr p.expr).1
  number := (start.addExpr p.expr).2
  inside := start.addExpr_inside p.expr
  grows := start.addExpr_grows p.expr
  rest := p.rest
  shorter := p.shorter

def ParsedArgs.store (start : Arena) (p : ParsedArgs tokens) : StoredArgs start tokens where
  arena := (start.addAll p.args).1
  numbers := (start.addAll p.args).2
  closer := p.closer
  grows := start.addAll_grows p.args
  rest := p.rest
  shorter := p.shorter

namespace ArenaParser

variable {stop : Span} {start : Arena} {rest : List Token}

/-- Reading expressions of fewer tokens than a number into an arena is reading them and adding them. -/
def Stores (stop : Span) (bound : Nat) : Prop :=
  ∀ ⦃tokens : List Token⦄, tokens.length < bound → ∀ (least : Nat) (arena : Arena),
    binary stop least arena tokens = (Parser.binary stop least tokens).map (Parsed.store arena)

theorem map_ok {ε α β : Type} (f : α → β) (a : α) : (Except.ok a : Except ε α).map f = .ok (f a) := rfl

/-! ### Nodes -/

section Nodes

variable {arena arena' : Arena} {more : List (Entry × Span)}

/-- The span of what was stored is found at its number, whatever is stored after it. -/
theorem spanAt_store {p : Parsed rest}
    (added : arena'.entries.toList = (p.store arena).arena.entries.toList ++ more)
    (inside : (p.store arena).number < arena'.size) :
    arena'.spanAt (p.store arena).number inside = p.expr.mark :=
  Arena.spanAt_addExpr added inside

theorem spanAt_store_self {p : Parsed rest} :
    (p.store arena).arena.spanAt (p.store arena).number (p.store arena).inside = p.expr.mark :=
  spanAt_store (List.append_nil _).symm _

theorem push_eq_store {entry : Entry} {span : Span} {e : Expr Span} {grows : start.size ≤ arena.size}
    {shorter : rest.length < tokens.length}
    (added : start.addExpr e = (arena.add entry span, arena.size)) :
    Stored.push arena grows entry span rest shorter = Parsed.store start ⟨e, rest, shorter⟩ := by
  simp only [Stored.push, Parsed.store, added]

theorem push_unary (op : UnaryOp) (span : Span) (p : Parsed rest)
    (shorter : p.rest.length < tokens.length) :
    Stored.push (p.store start).arena (p.store start).grows (.unary op (p.store start).number)
        (span.merge ((p.store start).arena.spanAt (p.store start).number (p.store start).inside))
        (p.store start).rest shorter =
      Parsed.store start ⟨.unary (span.merge p.expr.mark) op p.expr, p.rest, shorter⟩ := by
  refine push_eq_store ?_
  rw [spanAt_store_self]
  rfl

/-- What was stored before other things keeps its span. -/
theorem spanAt_before {e : Expr Span} {p : Parsed rest}
    (inside : (start.addExpr e).2 < (p.store (start.addExpr e).1).arena.size) :
    (p.store (start.addExpr e).1).arena.spanAt (start.addExpr e).2 inside = e.mark :=
  Arena.spanAt_addExpr (Arena.toList_addExpr _ _) inside

theorem spanAt_before_args {e : Expr Span} {p : ParsedArgs rest}
    (inside : (start.addExpr e).2 < (p.store (start.addExpr e).1).arena.size) :
    (p.store (start.addExpr e).1).arena.spanAt (start.addExpr e).2 inside = e.mark :=
  Arena.spanAt_addExpr (Arena.toList_addAll _ _) inside

theorem push_binary {e : Expr Span} (op : BinaryOp) (right : Parsed rest)
    (inside : (start.addExpr e).2 < (right.store (start.addExpr e).1).arena.size)
    (grows : start.size ≤ (right.store (start.addExpr e).1).arena.size)
    (shorter : right.rest.length < tokens.length) :
    Stored.push (right.store (start.addExpr e).1).arena grows
        (.binary op (start.addExpr e).2 (right.store (start.addExpr e).1).number)
        (((right.store (start.addExpr e).1).arena.spanAt (start.addExpr e).2 inside).merge
          ((right.store (start.addExpr e).1).arena.spanAt (right.store (start.addExpr e).1).number
            (right.store (start.addExpr e).1).inside))
        right.rest shorter =
      Parsed.store start ⟨.binary (e.mark.merge right.expr.mark) op e right.expr, right.rest, shorter⟩ := by
  refine push_eq_store ?_
  rw [spanAt_store_self, spanAt_before]
  rfl

theorem push_index {e : Expr Span} (position : Parsed rest) (closer : Span) {after : List Token}
    (inside : (start.addExpr e).2 < (position.store (start.addExpr e).1).arena.size)
    (grows : start.size ≤ (position.store (start.addExpr e).1).arena.size)
    (shorter : after.length < tokens.length) :
    Stored.push (position.store (start.addExpr e).1).arena grows
        (.index (start.addExpr e).2 (position.store (start.addExpr e).1).number)
        (((position.store (start.addExpr e).1).arena.spanAt (start.addExpr e).2 inside).merge closer)
        after shorter =
      Parsed.store start ⟨.index (e.mark.merge closer) e position.expr, after, shorter⟩ := by
  refine push_eq_store ?_
  rw [spanAt_before]
  rfl

theorem push_field {e : Expr Span} (name : String) (span : Span)
    (inside : (start.addExpr e).2 < (start.addExpr e).1.size)
    (grows : start.size ≤ (start.addExpr e).1.size) (shorter : rest.length < tokens.length) :
    Stored.push (start.addExpr e).1 grows (.field (start.addExpr e).2 name)
        (((start.addExpr e).1.spanAt (start.addExpr e).2 inside).merge span) rest shorter =
      Parsed.store start ⟨.field (e.mark.merge span) e name, rest, shorter⟩ := by
  refine push_eq_store ?_
  rw [Arena.spanAt_addExpr (List.append_nil _).symm inside]
  rfl

theorem push_filterName {e : Expr Span} (name : String) (span : Span)
    (inside : (start.addExpr e).2 < (start.addExpr e).1.size)
    (grows : start.size ≤ (start.addExpr e).1.size) (shorter : rest.length < tokens.length) :
    Stored.push (start.addExpr e).1 grows (.call name [(start.addExpr e).2])
        (((start.addExpr e).1.spanAt (start.addExpr e).2 inside).merge span) rest shorter =
      Parsed.store start ⟨.call (e.mark.merge span) name [e], rest, shorter⟩ := by
  refine push_eq_store ?_
  rw [Arena.spanAt_addExpr (List.append_nil _).symm inside]
  rfl

theorem push_filterCall {e : Expr Span} (name : String) (p : ParsedArgs rest)
    (inside : (start.addExpr e).2 < (p.store (start.addExpr e).1).arena.size)
    (grows : start.size ≤ (p.store (start.addExpr e).1).arena.size)
    (shorter : p.rest.length < tokens.length) :
    Stored.push (p.store (start.addExpr e).1).arena grows
        (.call name ((start.addExpr e).2 :: (p.store (start.addExpr e).1).numbers))
        (((p.store (start.addExpr e).1).arena.spanAt (start.addExpr e).2 inside).merge p.closer)
        p.rest shorter =
      Parsed.store start ⟨.call (e.mark.merge p.closer) name (e :: p.args), p.rest, shorter⟩ := by
  refine push_eq_store ?_
  rw [spanAt_before_args]
  rfl

end Nodes

section Stores

variable {bound : Nat} (stores : Stores stop bound)

include stores

theorem someArguments_eq (opener : Span) {tokens : List Token} (fewer : tokens.length < bound)
    (arena : Arena) : someArguments stop opener arena tokens =
      (Parser.someArguments stop opener tokens).map (ParsedArgs.store arena) := by
  rw [someArguments, stores fewer]
  cases read : Parser.binary stop 1 tokens with
  | error e =>
    rw [Parser.someArguments, read]
    rfl
  | ok first =>
    obtain ⟨e, rest, shorter⟩ := first
    rw [map_ok]
    dsimp only [Parsed.store]
    split
    · rename_i span next
      have fewer' : next.length < tokens.length := Nat.lt_of_succ_lt shorter
      rw [someArguments_eq opener (Nat.lt_trans fewer' fewer),
        Parser.someArguments.eq_def stop opener tokens, read]
      dsimp only
      cases Parser.someArguments stop opener next <;> rfl
    · rename_i other
      rw [Parser.someArguments, read]
      dsimp only
      generalize Parser.closing stop .closeParen opener rest = outcome
      cases outcome with
      | error e =>
        dsimp only
        split
        · exact absurd rfl (other _ _)
        · rfl
      | ok closed =>
        dsimp only
        split
        · exact absurd rfl (other _ _)
        · rfl
termination_by tokens.length

theorem arguments_eq (opener : Span) (fewer : tokens.length < bound) (arena : Arena) :
    arguments stop opener arena tokens =
      (Parser.arguments stop opener tokens).map (ParsedArgs.store arena) := by
  rw [arguments.eq_def]
  split
  · rw [Parser.arguments]
    rfl
  · rename_i other
    rw [Parser.arguments]
    · exact someArguments_eq stores opener fewer arena
    · exact other

theorem primary_eq (fewer : tokens.length ≤ bound) (arena : Arena) :
    primary stop arena tokens = (Parser.primary stop tokens).map (Parsed.store arena) := by
  rw [Parser.primary.eq_def]
  split
  · rw [primary]
    rfl
  · rename_i name span opener rest
    simp only [List.length_cons] at fewer
    rw [primary, arguments_eq stores opener (by omega)]
    cases Parser.arguments stop opener rest <;> rfl
  · rename_i noCall
    rw [primary]
    · rfl
    · exact noCall
  · rw [primary]
    rfl
  · rw [primary]
    rfl
  · rw [primary]
    rfl
  · rename_i span rest
    rw [primary, stores fewer]
    cases Parser.binary stop 1 rest with
    | error e => rfl
    | ok inner =>
      rw [map_ok]
      dsimp only [Parsed.store]
      cases Parser.closing stop .closeParen span inner.rest <;> rfl
  · rw [primary]
    rfl
  · rw [primary]
    rfl
  · rename_i kind span rest _ _ _ _ _ _ _ _
    rw [primary]
    · cases Parser.literal? kind <;> rfl
    all_goals assumption

theorem accesses_eq {tokens : List Token} (e : Expr Span) (rest : List Token)
    (shorter : rest.length < tokens.length) (fewer : rest.length ≤ bound) :
    accesses stop (Parsed.store start ⟨e, rest, shorter⟩) =
      (Parser.accesses stop ⟨e, rest, shorter⟩).map (Parsed.store start) := by
  rw [Parser.accesses]
  dsimp only
  split
  · rename_i dot rest
    split
    · rw [accesses]
      rfl
    · rename_i token more _ _
      rw [accesses]
      dsimp only [Parsed.store]
      cases Parser.propertyName dot token with
      | error e => rfl
      | ok name =>
        simp only [List.length_cons] at fewer
        exact (congrArg (accesses stop) (push_field name token.span _ _ _)).trans
          (accesses_eq _ more _ (by omega))
  · rename_i opener rest
    split
    · rw [accesses]
      rfl
    · rename_i other
      rw [accesses]
      dsimp only [Parsed.store]
      split
      · exact (other _ _ _ rfl HEq.rfl).elim
      · rw [stores fewer]
        cases Parser.binary stop 1 rest with
        | error e => rfl
        | ok position =>
          rw [map_ok]
          dsimp only [Parsed.store]
          cases Parser.closing stop .closeBracket opener position.rest with
          | error e => rfl
          | ok closed =>
            have := position.shorter
            have := closed.shorter
            simp only [List.length_cons] at fewer
            exact (congrArg (accesses stop) (push_index position closed.closer _ _ _)).trans
              (accesses_eq _ closed.rest _ (by omega))
  · rename_i other other'
    rw [accesses]
    dsimp only [Parsed.store]
    split
    · exact absurd rfl (other _ _)
    · exact absurd rfl (other' _ _)
    · rfl
termination_by rest.length
decreasing_by
  all_goals
    subst_vars
    simp only [List.length_cons]
    omega

theorem postfixed_eq (fewer : tokens.length ≤ bound) (arena : Arena) :
    postfixed stop arena tokens = (Parser.postfixed stop tokens).map (Parsed.store arena) := by
  rw [postfixed, Parser.postfixed, primary_eq stores fewer]
  cases Parser.primary stop tokens with
  | error e => rfl
  | ok receiver =>
    have := receiver.shorter
    exact accesses_eq stores _ _ _ (by omega)

theorem filters_eq {tokens : List Token} (e : Expr Span) (rest : List Token)
    (shorter : rest.length < tokens.length) (fewer : rest.length ≤ bound) :
    filters stop (Parsed.store start ⟨e, rest, shorter⟩) =
      (Parser.filters stop ⟨e, rest, shorter⟩).map (Parsed.store start) := by
  rw [Parser.filters]
  dsimp only
  split
  · split
    · rename_i name _ opener more _ _
      rw [filters]
      dsimp only [Parsed.store]
      simp only [List.length_cons] at fewer
      rw [arguments_eq stores opener (by omega)]
      cases Parser.arguments stop opener more with
      | error e => rfl
      | ok p =>
        have := p.shorter
        exact (congrArg (filters stop) (push_filterCall name p _ _ _)).trans
          (filters_eq _ p.rest _ (by omega))
    · rename_i name span more _ _ noCall
      rw [filters]
      dsimp only [Parsed.store]
      split
      · rename_i same _
        cases same
        exact (noCall _ _ rfl rfl HEq.rfl).elim
      · rename_i same _
        cases same
        simp only [List.length_cons] at fewer
        exact (congrArg (filters stop) (push_filterName name span _ _ _)).trans
          (filters_eq _ more _ (by omega))
      · rename_i noName
        exact (noName _ _ _ rfl rfl HEq.rfl).elim
    · rename_i noCall noName
      rw [filters]
      dsimp only [Parsed.store]
      split
      · exact (noCall _ _ _ _ rfl rfl HEq.rfl).elim
      · exact (noName _ _ _ rfl rfl HEq.rfl).elim
      · rfl
  · rename_i other
    rw [filters]
    dsimp only [Parsed.store]
    split
    · exact absurd rfl (other _ _)
    · rfl
termination_by rest.length
decreasing_by
  all_goals
    subst_vars
    simp only [List.length_cons]
    omega

theorem unary_eq {tokens : List Token} (fewer : tokens.length ≤ bound) (arena : Arena) :
    unary stop arena tokens = (Parser.unary stop tokens).map (Parsed.store arena) := by
  rw [unary.eq_def]
  split
  · rename_i span rest
    rw [Parser.unary, unary_eq (Nat.le_of_lt fewer)]
    cases Parser.unary stop rest with
    | error e => rfl
    | ok p => exact congrArg Except.ok (push_unary .neg span p _)
  · rename_i span rest
    rw [Parser.unary, unary_eq (Nat.le_of_lt fewer)]
    cases Parser.unary stop rest with
    | error e => rfl
    | ok p => exact congrArg Except.ok (push_unary .not span p _)
  · rename_i other other'
    rw [Parser.unary, postfixed_eq stores fewer]
    · cases Parser.postfixed stop tokens with
      | error e => rfl
      | ok input =>
        have := input.shorter
        exact filters_eq stores _ _ _ (by omega)
    · exact other
    · exact other'
termination_by tokens.length

theorem operand_eq (least : Nat) (fewer : tokens.length ≤ bound) (arena : Arena) :
    operand stop least arena tokens = (Parser.operand stop least tokens).map (Parsed.store arena) := by
  rw [operand.eq_def]
  split
  · rename_i span rest
    rw [Parser.operand.eq_def]
    dsimp only
    split
    · rw [stores fewer]
      cases Parser.binary stop notPrecedence rest with
      | error e => rfl
      | ok p => exact congrArg Except.ok (push_unary .not span p _)
    · exact unary_eq stores fewer arena
  · rename_i other
    rw [Parser.operand.eq_def]
    split
    · exact absurd rfl (other _ _)
    · exact unary_eq stores fewer arena

theorem climb_eq (least : Nat) {tokens : List Token} (e : Expr Span) (rest : List Token)
    (shorter : rest.length < tokens.length) (fewer : rest.length ≤ bound) :
    climb stop least (Parsed.store start ⟨e, rest, shorter⟩) =
      (Parser.climb stop least ⟨e, rest, shorter⟩).map (Parsed.store start) := by
  match rest with
  | [] =>
    rw [climb, Parser.climb]
    rfl
  | token :: rest =>
    rw [climb, Parser.climb]
    dsimp only [Parsed.store]
    cases token.kind.binaryOp? with
    | none => rfl
    | some op =>
      dsimp only
      split
      · rfl
      · rw [stores fewer]
        cases Parser.binary stop (op.precedence + 1) rest with
        | error e => rfl
        | ok right =>
          have := right.shorter
          rw [List.length_cons] at fewer
          exact (congrArg (climb stop least) (push_binary op right _ _ _)).trans
            (climb_eq least _ _ _ (by omega))
termination_by rest.length

theorem binary_eq (least : Nat) (fewer : tokens.length ≤ bound) (arena : Arena) :
    binary stop least arena tokens = (Parser.binary stop least tokens).map (Parsed.store arena) := by
  rw [binary, Parser.binary, operand_eq stores least fewer]
  cases Parser.operand stop least tokens with
  | error e => rfl
  | ok left =>
    have := left.shorter
    exact climb_eq stores least _ _ _ (by omega)

end Stores

theorem stores (stop : Span) (bound : Nat) : Stores stop bound := by
  induction bound with
  | zero => exact fun _ none => absurd none (Nat.not_lt_zero _)
  | succ bound ih =>
    exact fun _ fewer least arena => binary_eq ih least (Nat.le_of_lt_succ fewer) arena

theorem formula_eq (stop : Span) (tokens : List Token) :
    formula stop tokens = (Parser.formula stop tokens).map Arena.empty.addExpr := by
  match tokens with
  | [] => rfl
  | token :: others =>
    unfold formula
    dsimp only
    rw [stores stop _ (Nat.lt_succ_self _)]
    cases read : Parser.binary stop 1 (token :: others) with
    | error e =>
      unfold Parser.formula
      dsimp only
      rw [read]
      rfl
    | ok p =>
      obtain ⟨e, rest, shorter⟩ := p
      rw [map_ok]
      dsimp only [Parsed.store]
      split <;> unfold Parser.formula <;> dsimp only <;> rw [read]
      · rfl
      · rfl
      · rfl
      · rename_i notParen notBracket
        dsimp only
        split <;> rename_i same <;> cases same
        · exact absurd rfl notParen
        · exact absurd rfl notBracket
        · rfl

end ArenaParser

/-- Reading a formula into an arena is reading its tree and adding it. -/
theorem parseArena_eq (source : String) :
    parseArena source = (parse source).map Arena.empty.addExpr := by
  rw [parseArena, parse]
  cases scan source with
  | error e => rfl
  | ok tokens => exact ArenaParser.formula_eq _ tokens

/-- A formula that is read into an arena leaves the nodes of its tree there in post-order, and no others:
the root is the last one, parts are before what they are parts of, each node but the root is named once,
and so all that follows parts from the root finds entries and comes to an end. -/
theorem inPostOrder_of_parseArena {source : String} {arena : Arena} {root : Nat}
    (parsed : parseArena source = .ok (arena, root)) :
    ∃ e, parse source = .ok e ∧ arena.InPostOrder root e ∧ arena.text? root = some e.text := by
  rw [parseArena_eq] at parsed
  cases read : parse source with
  | error e => rw [read] at parsed; cases parsed
  | ok e =>
    rw [read] at parsed
    have stored := Arena.inPostOrder_addExpr e
    rw [Except.ok.inj parsed] at stored
    exact ⟨e, rfl, stored, by rw [Arena.text?, stored.whole]; rfl⟩

/-- A group leaves no entry, and the input of a filter is stored before the other arguments. -/
theorem inPostOrder_of_parseArena_filter :
    let arena : Arena := ⟨#[(.ident "a", ⟨1, 2⟩), (.ident "b", ⟨6, 7⟩), (.field 1 "c", ⟨6, 9⟩),
      (.call "F" [0, 2], ⟨1, 10⟩)]⟩
    parseArena "(a)|F(b.c)" = .ok (arena, 3) ∧
      ∃ e, parse "(a)|F(b.c)" = .ok e ∧ arena.InPostOrder 3 e ∧ arena.text? 3 = some e.text := by
  intro arena
  have parsed : parseArena "(a)|F(b.c)" = .ok (arena, 3) := by cbv
  exact ⟨parsed, inPostOrder_of_parseArena parsed⟩

end FormulaDoc
