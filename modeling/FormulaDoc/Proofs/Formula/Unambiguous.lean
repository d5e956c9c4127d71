import FormulaDoc.Proofs.Formula.Grammar

/-!
# The grammar is unambiguous

What follows a phrase pulls at it: an operator as strongly as it binds, a filter, an access or an
argument list more strongly still. A phrase ends before what pulls less than the phrase holds together,
so that tokens have one derivation at most, from the left to where it ends.
-/
namespace FormulaDoc

namespace Grammar

/-! ## Strengths -/

def Layer.strength : Layer → Nat
  | disjunction => 1
  | conjunction => 2
  | equality => 4
  | comparison => 5
  | sum => 6
  | product => 7

/-- How strongly the parts of a phrase hold together. -/
def Nonterminal.strength : Nonterminal → Nat
  | layer l => l.strength
  | negation => 3
  | unary => 8
  | filter => 9
  | access => 10
  | primary => 11

/-- How strongly the tokens after a phrase pull at it. -/
def pull : List TokenKind → Nat
  | [] => 0
  | .sign .dot :: .word .this :: _ | .sign .dot :: .word .super :: _ => 11
  | .sign .openParen :: _ => 11
  | .sign .dot :: _ | .sign .openBracket :: _ => 10
  | .sign .pipe :: _ => 9
  | kind :: _ => (kind.binaryOp?.map BinaryOp.precedence).getD 0

/-- Whether a phrase in front of some tokens ends there. -/
def Symbol.Stops : Symbol → List TokenKind → Prop
  | whole n, kinds => pull kinds < n.strength
  | operations l, kinds => pull kinds < l.strength
  | filters, kinds => pull kinds < Nonterminal.filter.strength
  | accesses, kinds => pull kinds < Nonterminal.access.strength
  | links, kinds => pull kinds < Nonterminal.primary.strength
  | arguments, kinds | moreArguments, kinds => ∃ rest, kinds = .sign .closeParen :: rest

theorem Layer.strength_lt_operand (l : Layer) :
    (Nonterminal.layer l).strength < l.operand.strength := by
  cases l <;> decide

/-- The operators of a layer bind as strongly as the layer holds together. -/
theorem Layer.of_mem_operators {l : Layer} {kind : TokenKind} {op : BinaryOp}
    (mem : (kind, op) ∈ l.operators) : kind.binaryOp? = some op ∧ op.precedence = l.strength := by
  have all : ∀ entry ∈ l.operators,
      entry.1.binaryOp? = some entry.2 ∧ entry.2.precedence = l.strength := by
    cases l <;> decide
  exact all (kind, op) mem

/-- Every operator belongs to a layer. -/
theorem exists_mem_operators {kind : TokenKind} {op : BinaryOp} (written : kind.binaryOp? = some op) :
    ∃ l : Layer, (kind, op) ∈ l.operators := by
  have listed : ∃ l ∈ [Layer.disjunction, .conjunction, .equality, .comparison, .sum, .product],
      (kind, op) ∈ l.operators := by
    cases kind with
    | word w => cases w <;> cases written <;> decide
    | sign s => cases s <;> cases written <;> decide
    | _ => cases written
  obtain ⟨l, _, mem⟩ := listed
  exact ⟨l, mem⟩

theorem pull_operator {l : Layer} {kind : TokenKind} {op : BinaryOp}
    (mem : (kind, op) ∈ l.operators) (rest : List TokenKind) : pull (kind :: rest) = l.strength := by
  have all : ∀ entry ∈ l.operators, pull (entry.1 :: rest) = l.strength := by
    cases l <;> simp [Layer.operators, pull, TokenKind.binaryOp?, Sign.binaryOp?,
      BinaryOp.precedence, Layer.strength]
  exact all (kind, op) mem

theorem pull_property {kind : TokenKind} {name : String} (named : IsProperty kind name)
    (rest : List TokenKind) : pull (.sign .dot :: kind :: rest) = Nonterminal.access.strength := by
  cases named with
  | name _ => rfl
  | @word w mem => cases w <;> first | rfl | simp at mem

theorem IsLiteral.unique {kind : TokenKind} {value value' : Value} (h : IsLiteral kind value)
    (h' : IsLiteral kind value') : value = value' := by
  cases h <;> cases h' <;> rfl

theorem IsProperty.unique {kind : TokenKind} {name name' : String} (h : IsProperty kind name)
    (h' : IsProperty kind name') : name = name' := by
  cases h <;> cases h' <;> rfl

namespace Phrase

/-! ## Where phrases begin -/

/-- What a phrase may begin with. -/
def Begins (n : Nonterminal) (kind : TokenKind) : Prop :=
  kind ≠ .sign .closeParen ∧ kind ≠ .sign .closeBracket ∧
    (Nonterminal.negation.strength < n.strength → kind ≠ .word .not) ∧
    (Nonterminal.unary.strength < n.strength → kind ≠ .sign .minus ∧ kind ≠ .sign .bang)

theorem Begins.tighter {n m : Nonterminal} (h : n.strength < m.strength) {kind : TokenKind}
    (begins : Begins m kind) : Begins n kind :=
  ⟨begins.1, begins.2.1, fun above => begins.2.2.1 (Nat.lt_trans above h),
    fun above => begins.2.2.2 (Nat.lt_trans above h)⟩

theorem exists_begins {n : Nonterminal} (p : Phrase (.whole n)) :
    ∃ kind rest, p.tokens = kind :: rest ∧ Begins n kind := by
  generalize same : Symbol.whole n = s at p
  induction p generalizing n with
  | @chain l first rest ih _ =>
    cases same
    obtain ⟨kind, more, spelled, begins⟩ := ih rfl
    exact ⟨kind, more ++ rest.tokens, by simp [tokens, spelled], begins.tighter l.strength_lt_operand⟩
  | filter input rest ih _ =>
    cases same
    obtain ⟨kind, more, spelled, begins⟩ := ih rfl
    exact ⟨kind, more ++ rest.tokens, by simp [tokens, spelled], begins.tighter (by decide)⟩
  | access receiver rest ih _ =>
    cases same
    obtain ⟨kind, more, spelled, begins⟩ := ih rfl
    exact ⟨kind, more ++ rest.tokens, by simp [tokens, spelled], begins.tighter (by decide)⟩
  | equality operand ih =>
    cases same
    obtain ⟨kind, more, spelled, begins⟩ := ih rfl
    exact ⟨kind, more, spelled, begins.tighter (by decide)⟩
  | unsigned operand ih =>
    cases same
    obtain ⟨kind, more, spelled, begins⟩ := ih rfl
    exact ⟨kind, more, spelled, begins.tighter (by decide)⟩
  | literal kind value literal =>
    cases same
    exact ⟨kind, [], rfl, by cases literal <;> simp [Begins]⟩
  | not | minus | bang | call | ident | this | super | root | group =>
    cases same
    exact ⟨_, _, rfl, by simp [Begins, Nonterminal.strength]⟩
  | _ => cases same

/-! ## Where phrases end -/

theorem pull_operations {l : Layer} (rest : Phrase (.operations l)) {kinds : List TokenKind}
    (h : pull kinds ≤ l.strength) : pull (rest.tokens ++ kinds) ≤ l.strength := by
  cases rest with
  | noOperation => exact h
  | operation kind op mem _ _ => exact Nat.le_of_eq (pull_operator mem _)

theorem pull_filters (rest : Phrase .filters) {kinds : List TokenKind}
    (h : pull kinds ≤ Nonterminal.filter.strength) :
    pull (rest.tokens ++ kinds) ≤ Nonterminal.filter.strength := by
  cases rest with
  | noFilter => exact h
  | filterName _ _ => exact Nat.le_refl _
  | filterCall _ _ _ => exact Nat.le_refl _

theorem pull_accesses (rest : Phrase .accesses) {kinds : List TokenKind}
    (h : pull kinds ≤ Nonterminal.access.strength) :
    pull (rest.tokens ++ kinds) ≤ Nonterminal.access.strength := by
  cases rest with
  | noAccess => exact h
  | property _ _ named _ => exact Nat.le_of_eq (pull_property named _)
  | index _ _ => exact Nat.le_refl _

theorem pull_moreArguments (rest : Phrase .moreArguments) (kinds : List TokenKind) :
    pull (rest.tokens ++ .sign .closeParen :: kinds) = 0 := by
  cases rest <;> rfl

/-- An operand ends before further operators of its layer. -/
theorem stops_operand {l : Layer} (rest : Phrase (.operations l)) {kinds : List TokenKind}
    (stops : pull kinds < l.strength) : (Symbol.whole l.operand).Stops (rest.tokens ++ kinds) :=
  Nat.lt_of_le_of_lt (pull_operations rest (Nat.le_of_lt stops)) l.strength_lt_operand

theorem stops_argument (rest : Phrase .moreArguments) {kinds : List TokenKind}
    (stops : Symbol.moreArguments.Stops kinds) :
    (Symbol.whole expression).Stops (rest.tokens ++ kinds) := by
  obtain ⟨more, rfl⟩ := stops
  rw [Symbol.Stops, pull_moreArguments]
  decide

/-! ## Alternatives exclude one another -/

/-- Two derivations that no tokens have in common, wherever they end. -/
def Apart {s : Symbol} (p p' : Phrase s) : Prop :=
  ∀ kinds kinds', s.Stops kinds → s.Stops kinds' → p.tokens ++ kinds ≠ p'.tokens ++ kinds'

theorem Apart.symm {s : Symbol} {p p' : Phrase s} (h : Apart p p') : Apart p' p :=
  fun kinds kinds' stops stops' same => h kinds' kinds stops' stops same.symm

theorem apart_of_head {s : Symbol} {p p' : Phrase s} {kind kind' : TokenKind}
    {rest rest' : List TokenKind} (here : p.tokens = kind :: rest) (there : p'.tokens = kind' :: rest')
    (different : kind ≠ kind') : Apart p p' := by
  intro kinds kinds' _ _ same
  rw [here, there, List.cons_append, List.cons_append, List.cons.injEq] at same
  exact different same.1

/-- Where a repetition stops, none of its parts follows. -/
theorem apart_of_pull {s : Symbol} {empty p : Phrase s} {strength : Nat} (nothing : empty.tokens = [])
    (pulls : ∀ kinds, strength ≤ pull (p.tokens ++ kinds))
    (holds : ∀ kinds, s.Stops kinds → pull kinds < strength) : Apart empty p := by
  intro kinds kinds' stops _ same
  rw [nothing, List.nil_append] at same
  subst same
  exact Nat.not_lt_of_le (pulls kinds') (holds _ stops)

theorem apart_operation {l : Layer} {kind : TokenKind} {op : BinaryOp}
    (mem : (kind, op) ∈ l.operators) (operand : Phrase (.whole l.operand))
    (rest : Phrase (.operations l)) : Apart noOperation (operation kind op mem operand rest) :=
  apart_of_pull rfl (fun _ => Nat.le_of_eq (pull_operator mem _).symm) fun _ stops => stops

theorem apart_equality (operand : Phrase (.whole .negation))
    (operand' : Phrase (.whole (.layer .equality))) : Apart (not operand) (equality operand') := by
  obtain ⟨kind, rest, spelled, begins⟩ := operand'.exists_begins
  exact apart_of_head rfl spelled (begins.2.2.1 (by decide)).symm

theorem apart_minus (operand : Phrase (.whole .unary)) (operand' : Phrase (.whole .filter)) :
    Apart (minus operand) (unsigned operand') := by
  obtain ⟨kind, rest, spelled, begins⟩ := operand'.exists_begins
  exact apart_of_head rfl spelled (begins.2.2.2 (by decide)).1.symm

theorem apart_bang (operand : Phrase (.whole .unary)) (operand' : Phrase (.whole .filter)) :
    Apart (bang operand) (unsigned operand') := by
  obtain ⟨kind, rest, spelled, begins⟩ := operand'.exists_begins
  exact apart_of_head rfl spelled (begins.2.2.2 (by decide)).2.symm

/-- No filter follows where a chain of filters stops. -/
theorem apart_noFilter {rest : Phrase .filters} {kinds : List TokenKind}
    (spelled : rest.tokens = .sign .pipe :: kinds) : Apart noFilter rest :=
  apart_of_pull rfl (fun _ => by rw [spelled]; exact Nat.le_refl _) fun _ stops => stops

/-- Arguments belong to the filter in front of them. -/
theorem apart_filterCall (name name' : String) (args : Phrase .arguments)
    (rest rest' : Phrase .filters) : Apart (filterName name rest) (filterCall name' args rest') := by
  intro kinds kinds' stops _ same
  simp only [tokens, List.cons_append, List.cons.injEq, TokenKind.ident.injEq, true_and] at same
  have held := pull_filters rest (Nat.le_of_lt stops)
  rw [same.2] at held
  exact absurd held (show ¬ 11 ≤ 9 by decide)

theorem apart_property {kind : TokenKind} {name : String} (named : IsProperty kind name)
    (rest : Phrase .accesses) : Apart noAccess (property kind name named rest) :=
  apart_of_pull rfl (fun _ => Nat.le_of_eq (pull_property named _).symm) fun _ stops => stops

theorem apart_index (position : Phrase (.whole expression)) (rest : Phrase .accesses) :
    Apart noAccess (index position rest) :=
  apart_of_pull rfl (fun _ => Nat.le_refl _) fun _ stops => stops

theorem apart_linkThis (rest : Phrase .links) : Apart noLink (linkThis rest) :=
  apart_of_pull rfl (fun _ => Nat.le_refl _) fun _ stops => stops

theorem apart_linkSuper (rest : Phrase .links) : Apart noLink (linkSuper rest) :=
  apart_of_pull rfl (fun _ => Nat.le_refl _) fun _ stops => stops

/-- Arguments belong to the name in front of them. -/
theorem apart_call (name name' : String) (args : Phrase .arguments) :
    Apart (ident name) (call name' args) := by
  intro kinds kinds' stops _ same
  simp only [tokens, List.cons_append, List.nil_append, List.cons.injEq] at same
  rw [same.2] at stops
  exact Nat.lt_irrefl _ stops

theorem apart_literal {kind : TokenKind} {value : Value} (same : IsLiteral kind value)
    {p : Phrase (.whole .primary)} {kind' : TokenKind} {rest : List TokenKind}
    (spelled : p.tokens = kind' :: rest) (other : ∀ value, ¬ IsLiteral kind' value) :
    Apart (literal kind value same) p :=
  apart_of_head rfl spelled (by rintro rfl; exact other value same)

theorem apart_someArguments (first : Phrase (.whole expression)) (rest : Phrase .moreArguments) :
    Apart noArguments (someArguments first rest) := by
  rintro kinds kinds' ⟨more, rfl⟩ _ same
  obtain ⟨kind, spelled, begun, begins⟩ := first.exists_begins
  simp only [tokens, begun, List.nil_append, List.cons_append, List.cons.injEq] at same
  exact begins.1 same.1.symm

theorem apart_more (next : Phrase (.whole expression)) (rest : Phrase .moreArguments) :
    Apart noMore (more next rest) := by
  rintro kinds kinds' ⟨_, rfl⟩ _ same
  simp [tokens] at same

/-! ## One derivation at most -/

/-- A derivation that its tokens determine, together with where it ends. -/
def Determined {s : Symbol} (p : Phrase s) : Prop :=
  ∀ (p' : Phrase s) (kinds kinds' : List TokenKind), p.tokens ++ kinds = p'.tokens ++ kinds' →
    s.Stops kinds → s.Stops kinds' → p = p' ∧ kinds = kinds'

variable {l : Layer}

theorem determined_chain {first : Phrase (.whole l.operand)} {rest : Phrase (.operations l)}
    (operand : Determined first) (operations : Determined rest) : Determined (chain first rest) := by
  intro p' kinds kinds' same stops stops'
  cases p' with
  | chain first' rest' =>
    simp only [tokens, List.append_assoc] at same
    obtain ⟨rfl, after⟩ := operand first' _ _ same (stops_operand rest stops) (stops_operand rest' stops')
    obtain ⟨rfl, ends⟩ := operations rest' _ _ after stops stops'
    exact ⟨rfl, ends⟩

theorem determined_noOperation : Determined (noOperation : Phrase (.operations l)) := by
  intro p' kinds kinds' same stops stops'
  cases p' with
  | noOperation => exact ⟨rfl, same⟩
  | operation kind op mem operand rest =>
    exact absurd same (apart_operation mem operand rest _ _ stops stops')

theorem determined_operation {kind : TokenKind} {op : BinaryOp} (mem : (kind, op) ∈ l.operators)
    {operand : Phrase (.whole l.operand)} {rest : Phrase (.operations l)} (operands : Determined operand)
    (operations : Determined rest) : Determined (operation kind op mem operand rest) := by
  intro p' kinds kinds' same stops stops'
  cases p' with
  | noOperation => exact absurd same ((apart_operation mem operand rest).symm _ _ stops stops')
  | operation kind' op' mem' operand' rest' =>
    simp only [tokens, List.cons_append, List.cons.injEq, List.append_assoc] at same
    obtain ⟨rfl, same⟩ := same
    have written := (Layer.of_mem_operators mem).1
    rw [(Layer.of_mem_operators mem').1] at written
    cases written
    obtain ⟨rfl, after⟩ :=
      operands operand' _ _ same (stops_operand rest stops) (stops_operand rest' stops')
    obtain ⟨rfl, ends⟩ := operations rest' _ _ after stops stops'
    exact ⟨rfl, ends⟩

theorem determined_not {operand : Phrase (.whole .negation)} (operands : Determined operand) :
    Determined (not operand) := by
  intro p' kinds kinds' same stops stops'
  cases p' with
  | not operand' =>
    simp only [tokens, List.cons_append, List.cons.injEq, true_and] at same
    obtain ⟨rfl, ends⟩ := operands operand' _ _ same stops stops'
    exact ⟨rfl, ends⟩
  | equality operand' => exact absurd same (apart_equality operand operand' _ _ stops stops')

theorem determined_equality {operand : Phrase (.whole (.layer .equality))}
    (operands : Determined operand) : Determined (equality operand) := by
  intro p' kinds kinds' same stops stops'
  cases p' with
  | not operand' => exact absurd same ((apart_equality operand' operand).symm _ _ stops stops')
  | equality operand' =>
    obtain ⟨rfl, ends⟩ := operands operand' _ _ same (Nat.lt_trans stops (by decide))
      (Nat.lt_trans stops' (by decide))
    exact ⟨rfl, ends⟩

theorem determined_minus {operand : Phrase (.whole .unary)} (operands : Determined operand) :
    Determined (minus operand) := by
  intro p' kinds kinds' same stops stops'
  cases p' with
  | minus operand' =>
    simp only [tokens, List.cons_append, List.cons.injEq, true_and] at same
    obtain ⟨rfl, ends⟩ := operands operand' _ _ same stops stops'
    exact ⟨rfl, ends⟩
  | bang operand' => simp [tokens] at same
  | unsigned operand' => exact absurd same (apart_minus operand operand' _ _ stops stops')

theorem determined_bang {operand : Phrase (.whole .unary)} (operands : Determined operand) :
    Determined (bang operand) := by
  intro p' kinds kinds' same stops stops'
  cases p' with
  | minus operand' => simp [tokens] at same
  | bang operand' =>
    simp only [tokens, List.cons_append, List.cons.injEq, true_and] at same
    obtain ⟨rfl, ends⟩ := operands operand' _ _ same stops stops'
    exact ⟨rfl, ends⟩
  | unsigned operand' => exact absurd same (apart_bang operand operand' _ _ stops stops')

theorem determined_unsigned {operand : Phrase (.whole .filter)} (operands : Determined operand) :
    Determined (unsigned operand) := by
  intro p' kinds kinds' same stops stops'
  cases p' with
  | minus operand' => exact absurd same ((apart_minus operand' operand).symm _ _ stops stops')
  | bang operand' => exact absurd same ((apart_bang operand' operand).symm _ _ stops stops')
  | unsigned operand' =>
    obtain ⟨rfl, ends⟩ := operands operand' _ _ same (Nat.lt_succ_of_lt stops)
      (Nat.lt_succ_of_lt stops')
    exact ⟨rfl, ends⟩

theorem determined_filter {input : Phrase (.whole .access)} {rest : Phrase .filters}
    (inputs : Determined input) (filters : Determined rest) : Determined (filter input rest) := by
  intro p' kinds kinds' same stops stops'
  cases p' with
  | filter input' rest' =>
    simp only [tokens, List.append_assoc] at same
    obtain ⟨rfl, after⟩ := inputs input' _ _ same
      (Nat.lt_succ_of_le (pull_filters rest (Nat.le_of_lt stops)))
      (Nat.lt_succ_of_le (pull_filters rest' (Nat.le_of_lt stops')))
    obtain ⟨rfl, ends⟩ := filters rest' _ _ after stops stops'
    exact ⟨rfl, ends⟩

theorem determined_noFilter : Determined noFilter := by
  intro p' kinds kinds' same stops stops'
  cases p' with
  | noFilter => exact ⟨rfl, same⟩
  | filterName | filterCall => exact absurd same (apart_noFilter rfl _ _ stops stops')

theorem determined_filterName (name : String) {rest : Phrase .filters} (filters : Determined rest) :
    Determined (filterName name rest) := by
  intro p' kinds kinds' same stops stops'
  cases p' with
  | noFilter => exact absurd same ((apart_noFilter rfl).symm _ _ stops stops')
  | filterName name' rest' =>
    simp only [tokens, List.cons_append, List.cons.injEq, TokenKind.ident.injEq, true_and] at same
    obtain ⟨rfl, same⟩ := same
    obtain ⟨rfl, ends⟩ := filters rest' _ _ same stops stops'
    exact ⟨rfl, ends⟩
  | filterCall name' args rest' =>
    exact absurd same (apart_filterCall name name' args rest rest' _ _ stops stops')

theorem determined_filterCall (name : String) {args : Phrase .arguments} {rest : Phrase .filters}
    (arguments : Determined args) (filters : Determined rest) :
    Determined (filterCall name args rest) := by
  intro p' kinds kinds' same stops stops'
  cases p' with
  | noFilter => exact absurd same ((apart_noFilter rfl).symm _ _ stops stops')
  | filterName name' rest' =>
    exact absurd same ((apart_filterCall name' name args rest' rest).symm _ _ stops stops')
  | filterCall name' args' rest' =>
    simp only [tokens, List.cons_append, List.cons.injEq, TokenKind.ident.injEq, true_and,
      List.append_assoc] at same
    obtain ⟨rfl, same⟩ := same
    obtain ⟨rfl, after⟩ := arguments args' _ _ same ⟨_, rfl⟩ ⟨_, rfl⟩
    obtain ⟨rfl, ends⟩ := filters rest' _ _ (List.cons.inj after).2 stops stops'
    exact ⟨rfl, ends⟩

theorem determined_access {receiver : Phrase (.whole .primary)} {rest : Phrase .accesses}
    (receivers : Determined receiver) (accesses : Determined rest) :
    Determined (access receiver rest) := by
  intro p' kinds kinds' same stops stops'
  cases p' with
  | access receiver' rest' =>
    simp only [tokens, List.append_assoc] at same
    obtain ⟨rfl, after⟩ := receivers receiver' _ _ same
      (Nat.lt_succ_of_le (pull_accesses rest (Nat.le_of_lt stops)))
      (Nat.lt_succ_of_le (pull_accesses rest' (Nat.le_of_lt stops')))
    obtain ⟨rfl, ends⟩ := accesses rest' _ _ after stops stops'
    exact ⟨rfl, ends⟩

theorem determined_noAccess : Determined noAccess := by
  intro p' kinds kinds' same stops stops'
  cases p' with
  | noAccess => exact ⟨rfl, same⟩
  | property kind name named rest => exact absurd same (apart_property named rest _ _ stops stops')
  | index position rest => exact absurd same (apart_index position rest _ _ stops stops')

theorem determined_property {kind : TokenKind} {name : String} (named : IsProperty kind name)
    {rest : Phrase .accesses} (accesses : Determined rest) :
    Determined (property kind name named rest) := by
  intro p' kinds kinds' same stops stops'
  cases p' with
  | noAccess => exact absurd same ((apart_property named rest).symm _ _ stops stops')
  | property kind' name' named' rest' =>
    simp only [tokens, List.cons_append, List.cons.injEq, true_and] at same
    obtain ⟨rfl, same⟩ := same
    obtain rfl := named.unique named'
    obtain ⟨rfl, ends⟩ := accesses rest' _ _ same stops stops'
    exact ⟨rfl, ends⟩
  | index position' rest' => simp [tokens] at same

theorem determined_index {position : Phrase (.whole expression)} {rest : Phrase .accesses}
    (positions : Determined position) (accesses : Determined rest) :
    Determined (index position rest) := by
  intro p' kinds kinds' same stops stops'
  cases p' with
  | noAccess => exact absurd same ((apart_index position rest).symm _ _ stops stops')
  | property kind' name' named' rest' => simp [tokens] at same
  | index position' rest' =>
    simp only [tokens, List.cons_append, List.cons.injEq, true_and, List.append_assoc] at same
    obtain ⟨rfl, after⟩ := positions position' _ _ same Nat.one_pos Nat.one_pos
    obtain ⟨rfl, ends⟩ := accesses rest' _ _ (List.cons.inj after).2 stops stops'
    exact ⟨rfl, ends⟩

theorem determined_literal {kind : TokenKind} {value : Value} (literal : IsLiteral kind value) :
    Determined (Phrase.literal kind value literal) := by
  intro p' kinds kinds' same stops stops'
  cases p' with
  | literal kind' value' literal' =>
    simp only [tokens, List.cons_append, List.nil_append, List.cons.injEq] at same
    obtain ⟨rfl, ends⟩ := same
    obtain rfl := literal.unique literal'
    exact ⟨rfl, ends⟩
  | call | ident | this | super | root | group =>
    exact absurd same (apart_literal literal rfl (by rintro _ ⟨⟩) _ _ stops stops')

theorem determined_call (name : String) {args : Phrase .arguments} (arguments : Determined args) :
    Determined (call name args) := by
  intro p' kinds kinds' same stops stops'
  cases p' with
  | literal kind' value' literal' =>
    exact absurd same ((apart_literal literal' rfl (by rintro _ ⟨⟩)).symm _ _ stops stops')
  | call name' args' =>
    simp only [tokens, List.cons_append, List.nil_append, List.cons.injEq, TokenKind.ident.injEq,
      true_and, List.append_assoc] at same
    obtain ⟨rfl, same⟩ := same
    obtain ⟨rfl, after⟩ := arguments args' _ _ same ⟨_, rfl⟩ ⟨_, rfl⟩
    exact ⟨rfl, (List.cons.inj after).2⟩
  | ident name' => exact absurd same ((apart_call name' name args).symm _ _ stops stops')
  | this | super | root | group => simp [tokens] at same

theorem determined_ident (name : String) : Determined (ident name) := by
  intro p' kinds kinds' same stops stops'
  cases p' with
  | literal kind' value' literal' =>
    exact absurd same ((apart_literal literal' rfl (by rintro _ ⟨⟩)).symm _ _ stops stops')
  | call name' args' => exact absurd same (apart_call name name' args' _ _ stops stops')
  | ident name' =>
    simp only [tokens, List.cons_append, List.nil_append, List.cons.injEq,
      TokenKind.ident.injEq] at same
    obtain ⟨rfl, ends⟩ := same
    exact ⟨rfl, ends⟩
  | this | super | root | group => simp [tokens] at same

theorem determined_this {rest : Phrase .links} (links : Determined rest) : Determined (this rest) := by
  intro p' kinds kinds' same stops stops'
  cases p' with
  | literal kind' value' literal' =>
    exact absurd same ((apart_literal literal' rfl (by rintro _ ⟨⟩)).symm _ _ stops stops')
  | this rest' =>
    simp only [tokens, List.cons_append, List.cons.injEq, true_and] at same
    obtain ⟨rfl, ends⟩ := links rest' _ _ same stops stops'
    exact ⟨rfl, ends⟩
  | call | ident | super | root | group => simp [tokens] at same

theorem determined_super {rest : Phrase .links} (links : Determined rest) :
    Determined (super rest) := by
  intro p' kinds kinds' same stops stops'
  cases p' with
  | literal kind' value' literal' =>
    exact absurd same ((apart_literal literal' rfl (by rintro _ ⟨⟩)).symm _ _ stops stops')
  | super rest' =>
    simp only [tokens, List.cons_append, List.cons.injEq, true_and] at same
    obtain ⟨rfl, ends⟩ := links rest' _ _ same stops stops'
    exact ⟨rfl, ends⟩
  | call | ident | this | root | group => simp [tokens] at same

theorem determined_root : Determined root := by
  intro p' kinds kinds' same stops stops'
  cases p' with
  | literal kind' value' literal' =>
    exact absurd same ((apart_literal literal' rfl (by rintro _ ⟨⟩)).symm _ _ stops stops')
  | root => exact ⟨rfl, (List.cons.inj same).2⟩
  | call | ident | this | super | group => simp [tokens] at same

theorem determined_group {inner : Phrase (.whole expression)} (inners : Determined inner) :
    Determined (group inner) := by
  intro p' kinds kinds' same stops stops'
  cases p' with
  | literal kind' value' literal' =>
    exact absurd same ((apart_literal literal' rfl (by rintro _ ⟨⟩)).symm _ _ stops stops')
  | group inner' =>
    simp only [tokens, List.cons_append, List.nil_append, List.cons.injEq, true_and,
      List.append_assoc] at same
    obtain ⟨rfl, after⟩ := inners inner' _ _ same Nat.one_pos Nat.one_pos
    exact ⟨rfl, (List.cons.inj after).2⟩
  | call | ident | this | super | root => simp [tokens] at same

theorem determined_noLink : Determined noLink := by
  intro p' kinds kinds' same stops stops'
  cases p' with
  | noLink => exact ⟨rfl, same⟩
  | linkThis rest => exact absurd same (apart_linkThis rest _ _ stops stops')
  | linkSuper rest => exact absurd same (apart_linkSuper rest _ _ stops stops')

theorem determined_linkThis {rest : Phrase .links} (links : Determined rest) :
    Determined (linkThis rest) := by
  intro p' kinds kinds' same stops stops'
  cases p' with
  | noLink => exact absurd same ((apart_linkThis rest).symm _ _ stops stops')
  | linkThis rest' =>
    simp only [tokens, List.cons_append, List.cons.injEq, true_and] at same
    obtain ⟨rfl, ends⟩ := links rest' _ _ same stops stops'
    exact ⟨rfl, ends⟩
  | linkSuper rest' => simp [tokens] at same

theorem determined_linkSuper {rest : Phrase .links} (links : Determined rest) :
    Determined (linkSuper rest) := by
  intro p' kinds kinds' same stops stops'
  cases p' with
  | noLink => exact absurd same ((apart_linkSuper rest).symm _ _ stops stops')
  | linkThis rest' => simp [tokens] at same
  | linkSuper rest' =>
    simp only [tokens, List.cons_append, List.cons.injEq, true_and] at same
    obtain ⟨rfl, ends⟩ := links rest' _ _ same stops stops'
    exact ⟨rfl, ends⟩

theorem determined_noArguments : Determined noArguments := by
  intro p' kinds kinds' same stops stops'
  cases p' with
  | noArguments => exact ⟨rfl, same⟩
  | someArguments first rest => exact absurd same (apart_someArguments first rest _ _ stops stops')

theorem determined_someArguments {first : Phrase (.whole expression)} {rest : Phrase .moreArguments}
    (firsts : Determined first) (others : Determined rest) :
    Determined (someArguments first rest) := by
  intro p' kinds kinds' same stops stops'
  cases p' with
  | noArguments => exact absurd same ((apart_someArguments first rest).symm _ _ stops stops')
  | someArguments first' rest' =>
    simp only [tokens, List.append_assoc] at same
    obtain ⟨rfl, after⟩ := firsts first' _ _ same (stops_argument rest stops)
      (stops_argument rest' stops')
    obtain ⟨rfl, ends⟩ := others rest' _ _ after stops stops'
    exact ⟨rfl, ends⟩

theorem determined_noMore : Determined noMore := by
  intro p' kinds kinds' same stops stops'
  cases p' with
  | noMore => exact ⟨rfl, same⟩
  | more next rest => exact absurd same (apart_more next rest _ _ stops stops')

theorem determined_more {next : Phrase (.whole expression)} {rest : Phrase .moreArguments}
    (nexts : Determined next) (others : Determined rest) : Determined (more next rest) := by
  intro p' kinds kinds' same stops stops'
  cases p' with
  | noMore => exact absurd same ((apart_more next rest).symm _ _ stops stops')
  | more next' rest' =>
    simp only [tokens, List.cons_append, List.cons.injEq, true_and, List.append_assoc] at same
    obtain ⟨rfl, after⟩ := nexts next' _ _ same (stops_argument rest stops)
      (stops_argument rest' stops')
    obtain ⟨rfl, ends⟩ := others rest' _ _ after stops stops'
    exact ⟨rfl, ends⟩

/-- Tokens have one derivation from a symbol at most, and it ends in one place. -/
theorem determined {s : Symbol} (p : Phrase s) : Determined p := by
  induction p with
  | chain _ _ operand operations => exact determined_chain operand operations
  | noOperation => exact determined_noOperation
  | operation _ _ mem _ _ operand operations => exact determined_operation mem operand operations
  | not _ operand => exact determined_not operand
  | equality _ operand => exact determined_equality operand
  | minus _ operand => exact determined_minus operand
  | bang _ operand => exact determined_bang operand
  | unsigned _ operand => exact determined_unsigned operand
  | filter _ _ input filters => exact determined_filter input filters
  | noFilter => exact determined_noFilter
  | filterName name _ filters => exact determined_filterName name filters
  | filterCall name _ _ arguments filters => exact determined_filterCall name arguments filters
  | access _ _ receiver accesses => exact determined_access receiver accesses
  | noAccess => exact determined_noAccess
  | property _ _ named _ accesses => exact determined_property named accesses
  | index _ _ position accesses => exact determined_index position accesses
  | literal _ _ literal => exact determined_literal literal
  | call name _ arguments => exact determined_call name arguments
  | ident name => exact determined_ident name
  | this _ links => exact determined_this links
  | super _ links => exact determined_super links
  | root => exact determined_root
  | group _ inner => exact determined_group inner
  | noLink => exact determined_noLink
  | linkThis _ links => exact determined_linkThis links
  | linkSuper _ links => exact determined_linkSuper links
  | noArguments => exact determined_noArguments
  | someArguments _ _ first others => exact determined_someArguments first others
  | noMore => exact determined_noMore
  | more _ _ next others => exact determined_more next others

/-- A text's tokens have one derivation at most. -/
theorem eq_of_tokens_eq {n : Nonterminal} {p p' : Phrase (.whole n)} (same : p.tokens = p'.tokens) :
    p = p' :=
  have ends : (Symbol.whole n).Stops [] := by
    cases n with
    | layer l => cases l <;> exact Nat.succ_pos _
    | _ => exact Nat.succ_pos _
  (p.determined p' [] [] (by rw [same]) ends ends).1

end Phrase

end Grammar

end FormulaDoc
