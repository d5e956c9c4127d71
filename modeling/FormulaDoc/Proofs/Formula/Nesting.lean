import FormulaDoc.Proofs.Formula.Following

/-!
# Spans nest like the tree

What is read from the front of some tokens stands on them: its span starts where one of them starts and
ends where one of them ends, and so do the spans of all its parts, each of them inside the span of what
it is a part of and behind the part before it.
-/
namespace FormulaDoc

/-! ## Spans on tokens -/

/-- Tokens that stand one after another. -/
structure Laid (tokens : List Token) : Prop where
  nonempty : ∀ token ∈ tokens, token.span.start < token.span.stop
  ordered : tokens.Pairwise fun earlier later => earlier.span.stop ≤ later.span.start

/-- A span that goes from one of some tokens to one of them. -/
structure Span.On (tokens : List Token) (span : Span) : Prop where
  nonempty : span.start < span.stop
  begins : ∃ token ∈ tokens, token.span.start = span.start
  ends : ∃ token ∈ tokens, token.span.stop = span.stop

section Tokens

variable {a b tokens tokens' : List Token} {token : Token} {span span' : Span}

theorem Laid.left (laid : Laid (a ++ b)) : Laid a :=
  ⟨fun token mem => laid.nonempty token (List.mem_append_left b mem),
    (List.pairwise_append.mp laid.ordered).1⟩

theorem Laid.right (laid : Laid (a ++ b)) : Laid b :=
  ⟨fun token mem => laid.nonempty token (List.mem_append_right a mem),
    (List.pairwise_append.mp laid.ordered).2.1⟩

theorem Laid.tail (laid : Laid (token :: tokens)) : Laid tokens := Laid.right (a := [token]) laid

theorem Laid.on (laid : Laid tokens) (mem : token ∈ tokens) : token.span.On tokens :=
  ⟨laid.nonempty token mem, ⟨token, mem, rfl⟩, ⟨token, mem, rfl⟩⟩

theorem Span.On.mono (on : span.On tokens) (sub : tokens ⊆ tokens') : span.On tokens' := by
  obtain ⟨nonempty, ⟨first, mem, begins⟩, ⟨last, mem', ends⟩⟩ := on
  exact ⟨nonempty, ⟨first, sub mem, begins⟩, ⟨last, sub mem', ends⟩⟩

/-- What stands on earlier tokens ends before what stands on later ones. -/
theorem Span.On.before (on : span.On a) (on' : span'.On b) (laid : Laid (a ++ b)) :
    span.stop ≤ span'.start := by
  obtain ⟨-, -, ⟨last, mem, ends⟩⟩ := on
  obtain ⟨-, ⟨first, mem', begins⟩, -⟩ := on'
  rw [← ends, ← begins]
  exact (List.pairwise_append.mp laid.ordered).2.2 last mem first mem'

end Tokens

namespace Expr

/-! ## Nodes -/

theorem preorderAllOnto_eq {α : Type} (es : List (Expr α)) (tail : List (Expr α))
    (each : ∀ e ∈ es, ∀ tail, e.preorderOnto tail = e.preorder ++ tail) :
    preorderAllOnto es tail = es.flatMap preorder ++ tail := by
  induction es generalizing tail with
  | nil => rfl
  | cons e es ih =>
    rw [preorderAllOnto, each e List.mem_cons_self,
      ih tail fun e mem => each e (List.mem_cons_of_mem _ mem), List.flatMap_cons, List.append_assoc]

theorem preorderOnto_eq {α : Type} (e : Expr α) (tail : List (Expr α)) :
    e.preorderOnto tail = e.preorder ++ tail := by
  rw [preorder]
  cases e with
  | literal | ident | scope | root => rfl
  | field _ receiver _ =>
    rw [preorderOnto, preorderOnto, preorderOnto_eq receiver, preorderOnto_eq receiver [],
      List.append_nil, List.cons_append]
  | unary _ _ operand =>
    rw [preorderOnto, preorderOnto, preorderOnto_eq operand, preorderOnto_eq operand [],
      List.append_nil, List.cons_append]
  | index _ left right | binary _ _ left right =>
    rw [preorderOnto, preorderOnto, preorderOnto_eq left, preorderOnto_eq right,
      preorderOnto_eq left (preorderOnto right []), preorderOnto_eq right [], List.append_nil,
      List.cons_append, List.append_assoc]
  | call _ _ args =>
    rw [preorderOnto, preorderOnto, preorderAllOnto_eq args tail fun e _ => preorderOnto_eq e,
      preorderAllOnto_eq args [] fun e _ => preorderOnto_eq e, List.append_nil, List.cons_append]
termination_by sizeOf e
decreasing_by
  all_goals simp_wf
  all_goals try omega
  all_goals
    have := List.sizeOf_lt_of_mem ‹_›
    omega

/-- All nodes, each before its parts. -/
theorem preorder_eq {α : Type} (e : Expr α) : e.preorder = e :: e.children.flatMap preorder := by
  cases e with
  | literal | ident | scope | root => rfl
  | field _ part _ | unary _ _ part =>
    rw [preorder, preorderOnto, preorderOnto_eq part, children, List.flatMap_singleton, List.append_nil]
  | index _ left right | binary _ _ left right =>
    rw [preorder, preorderOnto, preorderOnto_eq left, preorderOnto_eq right, children,
      List.flatMap_cons, List.flatMap_singleton, List.append_nil]
  | call _ _ args =>
    rw [preorder, preorderOnto, preorderAllOnto_eq args [] fun e _ => preorderOnto_eq e, List.append_nil]
    rfl

/-- The span of a node goes from token to token, and the spans of its children are inside of it, one
after another. -/
structure Placed (tokens : List Token) (node : Expr Span) : Prop where
  nonempty : node.mark.start < node.mark.stop
  begins : ∃ token ∈ tokens, token.span.start = node.mark.start
  ends : ∃ token ∈ tokens, token.span.stop = node.mark.stop
  inside : ∀ child ∈ node.children,
    node.mark.start ≤ child.mark.start ∧ child.mark.stop ≤ node.mark.stop
  ordered : node.children.Pairwise fun earlier later => earlier.mark.stop ≤ later.mark.start

/-- All nodes are placed on some tokens. -/
def Nested (tokens : List Token) (e : Expr Span) : Prop := ∀ node ∈ e.preorder, Placed tokens node

variable {e : Expr Span} {tokens tokens' : List Token} {first last : Span}

theorem nested_iff : Nested tokens e ↔ Placed tokens e ∧ ∀ child ∈ e.children, Nested tokens child := by
  simp only [Nested, preorder_eq e, List.forall_mem_cons, List.mem_flatMap]
  constructor
  · rintro ⟨placed, all⟩
    exact ⟨placed, fun child mem node mem' => all node ⟨child, mem, mem'⟩⟩
  · rintro ⟨placed, all⟩
    exact ⟨placed, fun node ⟨child, mem, mem'⟩ => all child mem node mem'⟩

theorem Nested.on (nested : Nested tokens e) : e.mark.On tokens := by
  obtain ⟨nonempty, begins, ends, -, -⟩ := (nested_iff.mp nested).1
  exact ⟨nonempty, begins, ends⟩

theorem Nested.mono (nested : Nested tokens e) (sub : tokens ⊆ tokens') : Nested tokens' e := by
  intro node mem
  obtain ⟨nonempty, ⟨first, mem, begins⟩, ⟨last, mem', ends⟩, inside, ordered⟩ := nested node mem
  exact ⟨nonempty, ⟨first, sub mem, begins⟩, ⟨last, sub mem', ends⟩, inside, ordered⟩

section Parts

variable {l r : Option (Expr Span)} {m : List (Expr Span)}

theorem mem_parts {x : Expr Span} : x ∈ l.toList ++ (m ++ r.toList) ↔ x ∈ l ∨ x ∈ m ∨ x ∈ r := by
  simp only [List.mem_append, Option.mem_toList, Option.mem_def]

/-- A child with the first span, children in between and a child with the last span come in order. -/
theorem ordered_of_parts (apart : first.stop ≤ last.start) (front : ∀ x ∈ l, x.mark = first)
    (between : ∀ x ∈ m, first.stop ≤ x.mark.start ∧ x.mark.stop ≤ last.start)
    (ordered : m.Pairwise fun earlier later => earlier.mark.stop ≤ later.mark.start)
    (back : ∀ x ∈ r, x.mark = last) :
    (l.toList ++ (m ++ r.toList)).Pairwise fun earlier later =>
      earlier.mark.stop ≤ later.mark.start := by
  rw [List.pairwise_append, List.pairwise_append]
  refine ⟨by cases l <;> simp, ⟨ordered, by cases r <;> simp, ?_⟩, ?_⟩
  · intro x mem y mem'
    rw [back y (Option.mem_toList.mp mem')]
    exact (between x mem).2
  · intro x mem y mem'
    rw [front x (Option.mem_toList.mp mem)]
    rcases List.mem_append.mp mem' with mem' | mem'
    · exact (between y mem').1
    · rw [back y (Option.mem_toList.mp mem')]
      exact apart

/-- A node whose span goes from one span to another. A first and a last child may have these spans, and
all other children are in between. -/
theorem nested_of_parts {a b c : List Token} (laid : Laid (a ++ (b ++ c)))
    (mark : e.mark = first.merge last) (on : first.On a) (on' : last.On c)
    (parts : e.children = l.toList ++ (m ++ r.toList))
    (front : ∀ x ∈ l, x.mark = first ∧ Nested a x) (middle : ∀ x ∈ m, Nested b x)
    (ordered : m.Pairwise fun earlier later => earlier.mark.stop ≤ later.mark.start)
    (back : ∀ x ∈ r, x.mark = last ∧ Nested c x) : Nested (a ++ (b ++ c)) e := by
  have early : a ⊆ a ++ (b ++ c) := List.subset_append_left _ _
  have amid : b ⊆ a ++ (b ++ c) :=
    List.Subset.trans (List.subset_append_left b c) (List.subset_append_right a _)
  have late : c ⊆ a ++ (b ++ c) :=
    List.Subset.trans (List.subset_append_right b c) (List.subset_append_right a _)
  have apart := on.before (on'.mono (List.subset_append_right b c)) laid
  have some := on.nonempty
  have some' := on'.nonempty
  have span : e.mark = ⟨first.start, last.stop⟩ := by
    rw [mark, Span.merge, Nat.min_eq_left (by omega), Nat.max_eq_right (by omega)]
  have between (x : Expr Span) (mem : x ∈ m) :
      first.stop ≤ x.mark.start ∧ x.mark.stop ≤ last.start := by
    have here := (middle x mem).on
    exact ⟨on.before (here.mono (List.subset_append_left b c)) laid, here.before on' laid.right⟩
  have inside (x : Expr Span) (mem : x ∈ l.toList ++ (m ++ r.toList)) :
      first.start ≤ x.mark.start ∧ x.mark.stop ≤ last.stop := by
    rcases mem_parts.mp mem with mem | mem | mem
    · rw [(front x mem).1]
      omega
    · have := between x mem
      omega
    · rw [(back x mem).1]
      omega
  rw [nested_iff, parts]
  constructor
  · constructor
    · rw [span]
      show first.start < last.stop
      omega
    · rw [span]
      exact (on.mono early).begins
    · rw [span]
      exact (on'.mono late).ends
    · rw [span, parts]
      exact inside
    · rw [parts]
      exact ordered_of_parts apart (fun x mem => (front x mem).1) between ordered
        fun x mem => (back x mem).1
  · intro x mem
    rcases mem_parts.mp mem with mem | mem | mem
    · exact (front x mem).2.mono early
    · exact (middle x mem).mono amid
    · exact (back x mem).2.mono late

end Parts

/-- A node without children. -/
theorem nested_of_leaf (on : e.mark.On tokens) (leaf : e.children = []) : Nested tokens e := by
  rw [nested_iff]
  refine ⟨⟨on.nonempty, on.begins, on.ends, ?_, ?_⟩, ?_⟩ <;> simp [leaf]

end Expr

/-! ## Reading -/

namespace Parser

variable {stop : Span} {tokens rest rest' : List Token} {token : Token} {e : Expr Span}

/-- What is read from the front of some tokens stands on those before the rest. -/
def Stands (tokens rest : List Token) (e : Expr Span) : Prop :=
  ∃ used, tokens = used ++ rest ∧ e.Nested used

theorem eq_of_closing {closer : Sign} {opener : Span} {closed : Closed tokens}
    (h : closing stop closer opener tokens = .ok closed) :
    ∃ token, tokens = token :: closed.rest ∧ closed.closer = token.span := by
  unfold closing at h
  split at h
  · cases h
  · split at h
    · cases h
      exact ⟨_, rfl, rfl⟩
    · cases h

theorem Laid.on_single (laid : Laid (token :: rest)) : token.span.On [token] :=
  (Laid.left (a := [token]) laid).on List.mem_cons_self

/-- A leaf stands on its token. -/
theorem stands_leaf (laid : Laid (token :: rest)) (mark : e.mark = token.span) (leaf : e.children = []) :
    Stands (token :: rest) rest e := by
  refine ⟨[token], rfl, Expr.nested_of_leaf ?_ leaf⟩
  rw [mark]
  exact Laid.on_single laid

theorem exists_scopeLinks (depth : Nat) (last : Span) (laid : Laid tokens) :
    ∃ used, tokens = used ++ (scopeLinks depth last tokens).2.2 ∧
      ((scopeLinks depth last tokens).2.1 = last ∨ (scopeLinks depth last tokens).2.1.On used) := by
  fun_induction scopeLinks depth last tokens with
  | case1 depth last _ span rest ih | case2 depth last _ span rest ih =>
    obtain ⟨used, same, on⟩ := ih laid.tail.tail
    refine ⟨_ :: _ :: used, congrArg (_ :: _ :: ·) same, .inr ?_⟩
    rcases on with same' | on
    · rw [same']
      exact (Laid.on_single laid.tail).mono (by simp)
    · exact on.mono (by simp)
  | case3 => exact ⟨[], rfl, .inl rfl⟩

/-- A scope stands on its word and its links. -/
theorem stands_scope (laid : Laid (token :: rest)) (depth : Nat) :
    Stands (token :: rest) (scopeLinks depth token.span rest).2.2
      (.scope (token.span.merge (scopeLinks depth token.span rest).2.1)
        (scopeLinks depth token.span rest).1) := by
  obtain ⟨used, same, on⟩ := exists_scopeLinks depth token.span laid.tail
  have here := Laid.on_single laid
  refine ⟨token :: used, congrArg (token :: ·) same, ?_⟩
  rcases on with same' | on
  · refine Expr.nested_of_leaf ?_ rfl
    have alone : token.span.merge token.span = token.span := by
      rw [Span.merge, Nat.min_self, Nat.max_self]
    rw [same', Expr.mark, alone]
    exact here.mono (by simp)
  · rw [same] at laid
    exact Expr.nested_of_parts (a := [token]) (b := []) (l := none) (m := []) (r := none)
      (Laid.left (b := (scopeLinks depth token.span rest).2.2) laid) rfl here on rfl nofun nofun .nil nofun

theorem stands_signed (laid : Laid (token :: tokens)) (operand : Stands tokens rest e) (op : UnaryOp) :
    Stands (token :: tokens) rest (.unary (token.span.merge e.mark) op e) := by
  obtain ⟨used, rfl, nested⟩ := operand
  exact ⟨token :: used, rfl, Expr.nested_of_parts (a := [token]) (b := []) (l := none) (m := [])
    (r := some e) (Laid.left (b := rest) laid) rfl (Laid.on_single laid) nested.on rfl nofun nofun .nil
    (by simpa using nested)⟩

theorem stands_operation {l r : Expr Span} (laid : Laid tokens) (left : Stands tokens (token :: rest) l)
    (right : Stands rest rest' r) (op : BinaryOp) :
    Stands tokens rest' (.binary (l.mark.merge r.mark) op l r) := by
  obtain ⟨a, rfl, nested⟩ := left
  obtain ⟨c, rfl, nested'⟩ := right
  have laid : Laid (a ++ ([token] ++ c)) := Laid.left (b := rest') (by simpa using laid)
  refine ⟨a ++ ([token] ++ c), by simp, ?_⟩
  exact Expr.nested_of_parts (l := some l) (m := []) (r := some r) laid rfl nested.on nested'.on rfl
    (by simpa using nested) nofun .nil (by simpa using nested')

theorem stands_field {dot : Token} (laid : Laid tokens) (receiver : Stands tokens (dot :: token :: rest) e)
    (name : String) : Stands tokens rest (.field (e.mark.merge token.span) e name) := by
  obtain ⟨a, rfl, nested⟩ := receiver
  have on := Laid.on_single laid.right.tail
  have laid : Laid (a ++ ([dot] ++ [token])) := Laid.left (b := rest) (by simpa using laid)
  refine ⟨a ++ ([dot] ++ [token]), by simp, ?_⟩
  exact Expr.nested_of_parts (l := some e) (m := []) (r := none) laid rfl nested.on on rfl
    (by simpa using nested) nofun .nil nofun

theorem stands_index {opener closer : Token} {e' : Expr Span} (laid : Laid tokens)
    (receiver : Stands tokens (opener :: rest) e) (position : Stands rest (closer :: rest') e') :
    Stands tokens rest' (.index (e.mark.merge closer.span) e e') := by
  obtain ⟨a, rfl, nested⟩ := receiver
  obtain ⟨b, rfl, nested'⟩ := position
  have on := Laid.on_single laid.right.tail.right
  have laid : Laid (a ++ (opener :: b ++ [closer])) := Laid.left (b := rest') (by simpa using laid)
  refine ⟨a ++ (opener :: b ++ [closer]), by simp, ?_⟩
  exact Expr.nested_of_parts (l := some e) (m := [e']) (r := none) laid rfl nested.on on rfl
    (by simpa using nested) (by simpa using nested'.mono (List.subset_cons_self _ _))
    (List.pairwise_singleton _ _) nofun

/-- A group stands on its parentheses too. -/
theorem stands_group {opener closer : Token} (inner : Stands tokens (closer :: rest) e) :
    Stands (opener :: tokens) rest e := by
  obtain ⟨a, rfl, nested⟩ := inner
  exact ⟨opener :: a ++ [closer], by simp, nested.mono (by simp)⟩

/-- Arguments stand one after another on the tokens before a closing one. -/
def ArgsStand (tokens rest : List Token) (closer : Span) (args : List (Expr Span)) : Prop :=
  ∃ used token, tokens = used ++ token :: rest ∧ token.span = closer ∧
    (∀ arg ∈ args, arg.Nested used) ∧
    args.Pairwise fun earlier later => earlier.mark.stop ≤ later.mark.start

theorem argsStand_none (token : Token) (rest : List Token) :
    ArgsStand (token :: rest) rest token.span [] := ⟨[], token, rfl, rfl, nofun, .nil⟩

theorem argsStand_last (last : Stands tokens (token :: rest) e) :
    ArgsStand tokens rest token.span [e] := by
  obtain ⟨used, rfl, nested⟩ := last
  exact ⟨used, token, rfl, rfl, by simpa using nested, List.pairwise_singleton _ _⟩

theorem argsStand_cons {closer : Span} {args : List (Expr Span)} (laid : Laid tokens)
    (first : Stands tokens (token :: rest) e) (others : ArgsStand rest rest' closer args) :
    ArgsStand tokens rest' closer (e :: args) := by
  obtain ⟨a, rfl, nested⟩ := first
  obtain ⟨b, last, rfl, same, all, ordered⟩ := others
  have all' (arg : Expr Span) (mem : arg ∈ args) : arg.Nested (token :: b ++ [last]) :=
    (all arg mem).mono (by simp)
  have laid : Laid (a ++ (token :: b ++ [last])) := Laid.left (b := rest') (by simpa using laid)
  refine ⟨a ++ token :: b, last, by simp, same, ?_, List.pairwise_cons.mpr ⟨?_, ordered⟩⟩
  · rw [List.forall_mem_cons]
    exact ⟨nested.mono (by simp), fun arg mem => (all arg mem).mono (by simp)⟩
  · exact fun arg mem => nested.on.before (all' arg mem).on laid

theorem stands_call {name opener : Token} {closer : Span} {args : List (Expr Span)}
    (laid : Laid (name :: opener :: tokens)) (called : ArgsStand tokens rest closer args) (s : String) :
    Stands (name :: opener :: tokens) rest (.call (name.span.merge closer) s args) := by
  obtain ⟨b, last, rfl, rfl, all, ordered⟩ := called
  have on := Laid.on_single laid
  have on' := Laid.on_single laid.tail.tail.right
  have laid : Laid ([name] ++ (opener :: b ++ [last])) := Laid.left (b := rest) (by simpa using laid)
  refine ⟨[name] ++ (opener :: b ++ [last]), by simp, ?_⟩
  exact Expr.nested_of_parts (l := none) (m := args) (r := none) laid rfl on on' (by simp [Expr.children])
    nofun (fun arg mem => (all arg mem).mono (List.subset_cons_self _ _)) ordered nofun

theorem stands_filterCall {pipe name opener : Token} {closer : Span} {args : List (Expr Span)}
    (laid : Laid tokens) (input : Stands tokens (pipe :: name :: opener :: rest) e)
    (called : ArgsStand rest rest' closer args) (s : String) :
    Stands tokens rest' (.call (e.mark.merge closer) s (e :: args)) := by
  obtain ⟨a, rfl, nested⟩ := input
  obtain ⟨b, last, rfl, rfl, all, ordered⟩ := called
  have on' := Laid.on_single laid.right.tail.tail.tail.right
  have laid : Laid (a ++ (pipe :: name :: opener :: b ++ [last])) :=
    Laid.left (b := rest') (by simpa using laid)
  refine ⟨a ++ (pipe :: name :: opener :: b ++ [last]), by simp, ?_⟩
  exact Expr.nested_of_parts (l := some e) (m := args) (r := none) laid rfl nested.on on'
    (by simp [Expr.children]) (by simpa using nested)
    (fun arg mem => (all arg mem).mono (List.subset_append_right [pipe, name, opener] b)) ordered nofun

theorem stands_filterName {pipe name : Token} (laid : Laid tokens)
    (input : Stands tokens (pipe :: name :: rest) e) (s : String) :
    Stands tokens rest (.call (e.mark.merge name.span) s [e]) := by
  obtain ⟨a, rfl, nested⟩ := input
  have on' := Laid.on_single laid.right.tail
  have laid : Laid (a ++ ([pipe] ++ [name])) := Laid.left (b := rest) (by simpa using laid)
  refine ⟨a ++ ([pipe] ++ [name]), by simp, ?_⟩
  exact Expr.nested_of_parts (l := some e) (m := []) (r := none) laid rfl nested.on on' rfl
    (by simpa using nested) nofun .nil nofun

/-- Of fewer tokens than a number, what is read as an expression stands on them. -/
def Standing (stop : Span) (bound : Nat) : Prop :=
  ∀ ⦃tokens : List Token⦄, tokens.length < bound → Laid tokens → ∀ ⦃least : Nat⦄ ⦃p : Parsed tokens⦄,
    binary stop least tokens = .ok p → Stands tokens p.rest p.expr

theorem laid_rest (laid : Laid tokens) (stands : Stands tokens rest e) : Laid rest := by
  obtain ⟨used, rfl, -⟩ := stands
  exact laid.right

section Standing

variable {bound : Nat} (standing : Standing stop bound)

include standing

theorem stands_someArguments {opener : Span} {tokens : List Token} {p : ParsedArgs tokens}
    (fewer : tokens.length < bound) (laid : Laid tokens)
    (h : someArguments stop opener tokens = .ok p) : ArgsStand tokens p.rest p.closer p.args := by
  rw [someArguments] at h
  split at h
  · cases h
  · rename_i first read
    have stands := standing fewer laid read
    split at h
    · rename_i span rest next
      split at h
      · cases h
      · rename_i others read'
        cases h
        have shorter : rest.length < tokens.length := by
          have := first.shorter
          simp only [next, List.length_cons] at this
          omega
        rw [next] at stands
        exact argsStand_cons laid stands
          (stands_someArguments (Nat.lt_trans shorter fewer) (laid_rest laid stands).tail read')
    · split at h
      · cases h
      · rename_i closed closes
        cases h
        obtain ⟨token, next, closer⟩ := eq_of_closing closes
        rw [next] at stands
        rw [closer]
        exact argsStand_last stands
termination_by tokens.length

theorem stands_arguments {opener : Span} {p : ParsedArgs tokens} (fewer : tokens.length < bound)
    (laid : Laid tokens) (h : arguments stop opener tokens = .ok p) :
    ArgsStand tokens p.rest p.closer p.args := by
  rw [arguments.eq_def] at h
  split at h
  · cases h
    exact argsStand_none _ _
  · exact stands_someArguments standing fewer laid h

theorem stands_primary {p : Parsed tokens} (fewer : tokens.length ≤ bound) (laid : Laid tokens)
    (h : primary stop tokens = .ok p) : Stands tokens p.rest p.expr := by
  rw [primary.eq_def] at h
  split at h
  · cases h
  · split at h
    · cases h
    · rename_i args read
      cases h
      exact stands_call laid
        (stands_arguments standing (by simp at fewer; omega) laid.tail.tail read) _
  · cases h
    exact stands_leaf laid rfl rfl
  · cases h
    exact stands_scope laid 0
  · cases h
    exact stands_scope laid 1
  · cases h
    exact stands_leaf laid rfl rfl
  · split at h
    · cases h
    · rename_i inner read
      split at h
      · cases h
      · rename_i closed closes
        cases h
        have stands := standing fewer laid.tail read
        obtain ⟨token, next, -⟩ := eq_of_closing closes
        rw [next] at stands
        exact stands_group stands
  · cases h
  · cases h
  · split at h
    · cases h
      exact stands_leaf laid rfl rfl
    · cases h

theorem stands_accesses {receiver p : Parsed tokens} (fewer : receiver.rest.length ≤ bound)
    (laid : Laid tokens) (stands : Stands tokens receiver.rest receiver.expr)
    (h : accesses stop receiver = .ok p) : Stands tokens p.rest p.expr := by
  rw [accesses] at h
  split at h
  · split at h
    · cases h
    · rename_i token more next _
      split at h
      · cases h
      · rename_i name named
        have shorter : more.length < receiver.rest.length := by
          simp only [next, List.length_cons]
          omega
        rw [next] at stands
        exact stands_accesses (Nat.le_of_lt (Nat.lt_of_lt_of_le shorter fewer)) laid
          (stands_field laid stands _) h
  · rename_i opener rest next
    split at h
    · cases h
    · split at h
      · cases h
      · rename_i position read
        split at h
        · cases h
        · rename_i closed closes
          have shorter : closed.rest.length < receiver.rest.length := by
            have := position.shorter
            have := closed.shorter
            simp only [next, List.length_cons]
            omega
          rw [next] at stands
          have stands' := standing (by simp only [next, List.length_cons] at fewer; omega)
            (laid_rest laid stands).tail read
          obtain ⟨token, next', closer⟩ := eq_of_closing closes
          rw [next'] at stands'
          refine stands_accesses (Nat.le_of_lt (Nat.lt_of_lt_of_le shorter fewer)) laid ?_ h
          rw [closer]
          exact stands_index laid stands stands'
  · cases h
    exact stands
termination_by receiver.rest.length

theorem stands_postfixed {p : Parsed tokens} (fewer : tokens.length ≤ bound) (laid : Laid tokens)
    (h : postfixed stop tokens = .ok p) : Stands tokens p.rest p.expr := by
  rw [postfixed] at h
  split at h
  · cases h
  · rename_i receiver read
    exact stands_accesses standing (Nat.le_of_lt (Nat.lt_of_lt_of_le receiver.shorter fewer)) laid
      (stands_primary standing fewer laid read) h

theorem stands_filters {input p : Parsed tokens} (fewer : input.rest.length ≤ bound)
    (laid : Laid tokens) (stands : Stands tokens input.rest input.expr)
    (h : filters stop input = .ok p) : Stands tokens p.rest p.expr := by
  rw [filters] at h
  split at h
  · split at h
    · rename_i name _ _ more next _
      split at h
      · cases h
      · rename_i args read
        have shorter : args.rest.length < input.rest.length := by
          have := args.shorter
          simp only [next, List.length_cons]
          omega
        rw [next] at stands
        have called := stands_arguments standing
          (by simp only [next, List.length_cons] at fewer; omega) (laid_rest laid stands).tail.tail.tail read
        exact stands_filters (Nat.le_of_lt (Nat.lt_of_lt_of_le shorter fewer)) laid
          (stands_filterCall laid stands called _) h
    · rename_i name _ more next _ _
      have shorter : more.length < input.rest.length := by
        simp only [next, List.length_cons]
        omega
      rw [next] at stands
      exact stands_filters (Nat.le_of_lt (Nat.lt_of_lt_of_le shorter fewer)) laid
        (stands_filterName laid stands _) h
    · cases h
  · cases h
    exact stands
termination_by input.rest.length

theorem stands_unary {tokens : List Token} {p : Parsed tokens} (fewer : tokens.length ≤ bound)
    (laid : Laid tokens) (h : unary stop tokens = .ok p) : Stands tokens p.rest p.expr := by
  rw [unary.eq_def] at h
  split at h
  · split at h
    · cases h
    · rename_i inner read
      cases h
      exact stands_signed laid (stands_unary (Nat.le_of_lt fewer) laid.tail read) _
  · split at h
    · cases h
    · rename_i inner read
      cases h
      exact stands_signed laid (stands_unary (Nat.le_of_lt fewer) laid.tail read) _
  · split at h
    · cases h
    · rename_i input read
      exact stands_filters standing (Nat.le_of_lt (Nat.lt_of_lt_of_le input.shorter fewer)) laid
        (stands_postfixed standing fewer laid read) h
termination_by tokens.length

theorem stands_operand {least : Nat} {p : Parsed tokens} (fewer : tokens.length ≤ bound)
    (laid : Laid tokens) (h : operand stop least tokens = .ok p) : Stands tokens p.rest p.expr := by
  rw [operand.eq_def] at h
  split at h
  · split at h
    · split at h
      · cases h
      · rename_i inner read
        cases h
        exact stands_signed laid (standing fewer laid.tail read) _
    · exact stands_unary standing fewer laid h
  · exact stands_unary standing fewer laid h

theorem stands_climb {least : Nat} {left p : Parsed tokens} (fewer : left.rest.length ≤ bound)
    (laid : Laid tokens) (stands : Stands tokens left.rest left.expr)
    (h : climb stop least left = .ok p) : Stands tokens p.rest p.expr := by
  rw [climb] at h
  split at h
  · cases h
    exact stands
  · rename_i token rest next
    split at h
    · cases h
      exact stands
    · split at h
      · cases h
        exact stands
      · split at h
        · cases h
        · rename_i right read
          have shorter : right.rest.length < left.rest.length := by
            have := right.shorter
            simp only [next, List.length_cons]
            omega
          rw [next] at stands
          have stands' := standing (by simp only [next, List.length_cons] at fewer; omega)
            (laid_rest laid stands).tail read
          exact stands_climb (Nat.le_of_lt (Nat.lt_of_lt_of_le shorter fewer)) laid
            (stands_operation laid stands stands' _) h
termination_by left.rest.length

theorem stands_binary {least : Nat} {p : Parsed tokens} (fewer : tokens.length ≤ bound)
    (laid : Laid tokens) (h : binary stop least tokens = .ok p) : Stands tokens p.rest p.expr := by
  rw [binary] at h
  split at h
  · cases h
  · rename_i left read
    exact stands_climb standing (Nat.le_of_lt (Nat.lt_of_lt_of_le left.shorter fewer)) laid
      (stands_operand standing fewer laid read) h

end Standing

theorem standing (stop : Span) (bound : Nat) : Standing stop bound := by
  induction bound with
  | zero => exact fun _ none => absurd none (Nat.not_lt_zero _)
  | succ bound ih => exact fun _ fewer laid _ _ h => stands_binary ih (Nat.le_of_lt_succ fewer) laid h

/-- What is read as a formula stands on its tokens. -/
theorem nested_of_formula (laid : Laid tokens) (h : formula stop tokens = .ok e) : e.Nested tokens := by
  unfold formula at h
  split at h
  · cases h
  · split at h
    · cases h
    · rename_i p read
      obtain ⟨used, same, nested⟩ := stands_binary (standing stop _) (Nat.le_refl _) laid read
      split at h
      · rename_i none
        cases h
        rw [none, List.append_nil] at same
        exact nested.mono fun token mem => same ▸ mem
      · cases h
      · cases h
      · cases h

end Parser

open FormulaDoc.Parser FormulaDoc.Lexer

/-- The spans of a formula nest like its tree: the span of every node goes from the start of a token to
the end of one, and the spans of its children are inside of it, one after another. Where a text is no
formula, the error points at a part of the text. -/
theorem parse_spans (source : String) :
    (∀ e, parse source = .ok e →
      ∃ tokens, lex source = .ok (tokens ++ [endToken source]) ∧
        ∀ node ∈ e.preorder, Expr.Placed tokens node) ∧
    ∀ err, parse source = .error err →
      err.span.start ≤ err.span.stop ∧ err.span.stop ≤ source.utf8ByteSize := by
  cases scanned : scan source with
  | error e =>
    have covers : Covers source.toList 0 (scan source) := covers_scan _ [] rfl rfl
    rw [scanned] at covers
    obtain ⟨inner, piece, after, -, ⟨before, whole, span⟩, -⟩ := covers
    simp only [parse, scanned]
    constructor
    · intro _ parsed
      cases parsed
    intro err failed
    cases failed
    have size : source.utf8ByteSize = byteLength before + (byteLength piece + byteLength after) := by
      rw [← byteLength_toList, whole, byteLength_append, byteLength_append]
    rw [show (SyntaxError.ofLexError e).span = e.span from rfl, span, size]
    show byteLength before ≤ byteLength before + byteLength piece ∧
      byteLength before + byteLength piece ≤ _
    omega
  | ok tokens =>
    have tiling := tiling_of_text scanned
    constructor
    · intro e parsed
      refine ⟨tokens, by rw [lex, scanned]; rfl, ?_⟩
      simp only [parse, scanned] at parsed
      exact nested_of_formula ⟨tiling.nonempty, tiling.ordered⟩ parsed
    · intro err failed
      obtain ⟨-, rest, -, -, suffix, -, forward, points⟩ := stuck_of_parse scanned failed
      refine ⟨forward, ?_⟩
      rw [points]
      cases rest with
      | nil => exact Nat.le_refl _
      | cons token rest => exact (tiling.inside token (suffix.mem List.mem_cons_self)).2

/-- A group in front of a filter: the call goes from the name inside the parentheses to its own closing
one. Where a bracket stays open, the error goes from the bracket to the end of the text. -/
theorem parse_spans_filter :
    let e : Expr Span := .call ⟨1, 8⟩ "F" [.ident ⟨1, 2⟩ "a", .ident ⟨6, 7⟩ "b"]
    parse "(a)|F(b)" = .ok e ∧
      (∃ tokens, lex "(a)|F(b)" = .ok (tokens ++ [endToken "(a)|F(b)"]) ∧ Expr.Placed tokens e) ∧
      parse "a[b" = .error ⟨.unclosed .closeBracket, ⟨1, 3⟩⟩ ∧ 1 ≤ 3 ∧ 3 ≤ "a[b".utf8ByteSize := by
  intro e
  have parsed : parse "(a)|F(b)" = .ok e := by cbv
  have failed : parse "a[b" = .error ⟨.unclosed .closeBracket, ⟨1, 3⟩⟩ := by cbv
  have itself : e ∈ e.preorder := by
    rw [Expr.preorder_eq]
    exact List.mem_cons_self
  obtain ⟨tokens, lexed, placed⟩ := (parse_spans "(a)|F(b)").1 e parsed
  exact ⟨parsed, ⟨tokens, lexed, placed e itself⟩, failed, (parse_spans "a[b").2 _ failed⟩

end FormulaDoc
