import FormulaDoc.Formula.Parser
import FormulaDoc.Proofs.Formula.Unambiguous

/-!
# What is read has a derivation

Every expression that is read from the front of some tokens leaves the rest behind a phrase of the
grammar. Operators are taken in a loop over all layers; its left operand is a phrase as strong as the
last operator taken, and the operator behind it binds no tighter.
-/
namespace FormulaDoc

namespace Grammar

/-- Some tokens begin with a phrase from a symbol, and others are left behind it. -/
def Spells (s : Symbol) (tokens rest : List Token) : Prop :=
  ∃ p : Phrase s, tokens.map Token.kind = p.tokens ++ rest.map Token.kind

/-- What stands for operands at least as strong as a number. -/
def atStrength : Nat → Nonterminal
  | 0 | 1 => .layer .disjunction
  | 2 => .layer .conjunction
  | 3 => .negation
  | 4 => .layer .equality
  | 5 => .layer .comparison
  | 6 => .layer .sum
  | 7 => .layer .product
  | _ => .unary

/-- No operator in front binds as tightly as a number. -/
def Halts (least : Nat) (tokens : List Token) : Prop :=
  ∀ token rest op, tokens = token :: rest → token.kind.binaryOp? = some op → op.precedence < least

theorem atStrength_layer (l : Layer) : atStrength l.strength = .layer l := by
  cases l <;> rfl

theorem atStrength_operand (l : Layer) : atStrength (l.strength + 1) = l.operand := by
  cases l <;> rfl

theorem Halts.weaken {least least' : Nat} {tokens : List Token} (h : least ≤ least')
    (halts : Halts least tokens) : Halts least' tokens :=
  fun token rest op spelled written =>
    Nat.lt_of_lt_of_le (halts token rest op spelled written) h

/-- All operators bind weaker than signs. -/
theorem halts_unary {least : Nat} (h : 8 ≤ least) (tokens : List Token) : Halts least tokens :=
  fun _ _ op _ _ => Nat.lt_of_lt_of_le (by cases op <;> decide) h

namespace Spells

variable {tokens rest rest' : List Token}

/-- An operand of a layer is a chain without operators. -/
theorem chain {l : Layer} (h : Spells (.whole l.operand) tokens rest) :
    Spells (.whole (.layer l)) tokens rest := by
  obtain ⟨p, spelled⟩ := h
  exact ⟨.chain p .noOperation, by simp [spelled, Phrase.tokens]⟩

theorem lower {least : Nat} (h : Spells (.whole (atStrength (least + 1))) tokens rest) :
    Spells (.whole (atStrength least)) tokens rest := by
  match least with
  | 0 => exact h
  | 1 => exact chain (l := .disjunction) h
  | 2 => exact chain (l := .conjunction) h
  | 3 =>
    obtain ⟨p, spelled⟩ := h
    exact ⟨.equality p, spelled⟩
  | 4 => exact chain (l := .equality) h
  | 5 => exact chain (l := .comparison) h
  | 6 => exact chain (l := .sum) h
  | 7 => exact chain (l := .product) h
  | _ + 8 => exact h

theorem weaken {least strength : Nat} (h : least ≤ strength)
    (spells : Spells (.whole (atStrength strength)) tokens rest) :
    Spells (.whole (atStrength least)) tokens rest := by
  induction h with
  | refl => exact spells
  | step _ ih => exact ih spells.lower

/-- Further operations of a layer may get one more at their end. -/
theorem exists_snoc {l : Layer} {kind : TokenKind} {op : BinaryOp} (mem : (kind, op) ∈ l.operators)
    (operand : Phrase (.whole l.operand)) (before : Phrase (.operations l)) :
    ∃ all : Phrase (.operations l), all.tokens = before.tokens ++ kind :: operand.tokens := by
  generalize same : Symbol.operations l = s at before
  induction before with
  | noOperation =>
    cases same
    exact ⟨.operation kind op mem operand .noOperation, by simp [Phrase.tokens]⟩
  | operation kind' op' mem' operand' rest _ ih =>
    cases same
    obtain ⟨all, spelled⟩ := ih rfl
    exact ⟨.operation kind' op' mem' operand' all, by simp [Phrase.tokens, spelled]⟩
  | _ => cases same

theorem operation {token : Token} {op : BinaryOp} (written : token.kind.binaryOp? = some op)
    (left : Spells (.whole (atStrength op.precedence)) tokens (token :: rest))
    (right : Spells (.whole (atStrength (op.precedence + 1))) rest rest') :
    Spells (.whole (atStrength op.precedence)) tokens rest' := by
  obtain ⟨l, mem⟩ := exists_mem_operators written
  rw [(Layer.of_mem_operators mem).2] at left right ⊢
  rw [atStrength_layer] at left ⊢
  rw [atStrength_operand] at right
  obtain ⟨chain, spelled⟩ := left
  obtain ⟨operand, spelled'⟩ := right
  cases chain with
  | chain first before =>
    obtain ⟨all, extended⟩ := exists_snoc mem operand before
    exact ⟨.chain first all, by simp [spelled, Phrase.tokens, spelled', extended]⟩

end Spells

end Grammar

namespace Parser

open Grammar

variable {stop : Span} {tokens : List Token}

theorem of_closing {closer : Sign} {opener : Span} {closed : Closed tokens}
    (h : closing stop closer opener tokens = .ok closed) :
    tokens.map Token.kind = .sign closer :: closed.rest.map Token.kind := by
  unfold closing at h
  split at h
  · cases h
  · split at h
    · rename_i token rest same
      cases h
      rw [List.map_cons, same]
    · cases h

theorem of_propertyName {dot : Span} {token : Token} {name : String}
    (h : propertyName dot token = .ok name) : IsProperty token.kind name := by
  unfold propertyName at h
  split at h
  · rename_i same
    cases h
    rw [same]
    exact .name name
  · rename_i w same
    split at h
    · cases h
      rw [same]
      exact .word (by cases w <;> simp_all [Keyword.isPropertyName])
    · cases h
  · cases h
  · cases h

theorem of_literal? {kind : TokenKind} {value : Value} (h : literal? kind = some value) :
    IsLiteral kind value := by
  unfold literal? at h
  split at h <;> cases h <;> constructor

theorem spells_scopeLinks (depth : Nat) (last : Span) (tokens : List Token) :
    Spells .links tokens (scopeLinks depth last tokens).2.2 := by
  fun_induction scopeLinks depth last tokens with
  | case1 depth last _ span rest ih =>
    obtain ⟨p, spelled⟩ := ih
    exact ⟨.linkSuper p, by simp [Phrase.tokens, spelled]⟩
  | case2 depth last _ span rest ih =>
    obtain ⟨p, spelled⟩ := ih
    exact ⟨.linkThis p, by simp [Phrase.tokens, spelled]⟩
  | case3 => exact ⟨.noLink, rfl⟩

/-- Of fewer tokens than a number, what is read as an expression is one. -/
def Sound (stop : Span) (bound : Nat) : Prop :=
  ∀ ⦃tokens : List Token⦄, tokens.length < bound → ∀ ⦃least : Nat⦄ ⦃p : Parsed tokens⦄,
    binary stop least tokens = .ok p →
      Spells (.whole (atStrength least)) tokens p.rest ∧ Halts least p.rest

section Sound

variable {bound : Nat} (sound : Sound stop bound)

include sound

theorem spells_someArguments {opener : Span} {tokens : List Token} {p : ParsedArgs tokens}
    (fewer : tokens.length < bound) (h : someArguments stop opener tokens = .ok p) :
    ∃ (first : Phrase (.whole expression)) (others : Phrase .moreArguments),
      tokens.map Token.kind =
        first.tokens ++ others.tokens ++ .sign .closeParen :: p.rest.map Token.kind := by
  rw [someArguments] at h
  split at h
  · cases h
  · rename_i first read
    obtain ⟨phrase, spelled⟩ : Spells (.whole expression) tokens first.rest := (sound fewer read).1
    split at h
    · rename_i span rest next
      split at h
      · cases h
      · rename_i others read'
        cases h
        have shorter : rest.length < tokens.length := by
          have := first.shorter
          simp only [next, List.length_cons] at this
          omega
        obtain ⟨second, more, spelled'⟩ := spells_someArguments (Nat.lt_trans shorter fewer) read'
        exact ⟨phrase, .more second more, by simp [spelled, next, Phrase.tokens, spelled']⟩
    · split at h
      · cases h
      · rename_i closed closes
        cases h
        exact ⟨phrase, .noMore, by simp [spelled, of_closing closes, Phrase.tokens]⟩
termination_by tokens.length

theorem spells_arguments {opener : Span} {p : ParsedArgs tokens} (fewer : tokens.length < bound)
    (h : arguments stop opener tokens = .ok p) :
    Spells .arguments tokens (⟨.sign .closeParen, p.closer⟩ :: p.rest) := by
  rw [arguments.eq_def] at h
  split at h
  · cases h
    exact ⟨.noArguments, rfl⟩
  · obtain ⟨first, others, spelled⟩ := spells_someArguments sound fewer h
    exact ⟨.someArguments first others, by simp [Phrase.tokens, spelled]⟩

theorem spells_primary {p : Parsed tokens} (fewer : tokens.length ≤ bound)
    (h : primary stop tokens = .ok p) : Spells (.whole .primary) tokens p.rest := by
  rw [primary.eq_def] at h
  split at h
  · cases h
  · rename_i name _ opener rest
    split at h
    · cases h
    · rename_i args read
      cases h
      obtain ⟨inner, spelled⟩ := spells_arguments sound (by simp at fewer; omega) read
      exact ⟨.call name inner, by simp [Phrase.tokens, spelled]⟩
  · rename_i name _ rest _
    cases h
    exact ⟨.ident name, rfl⟩
  · rename_i span rest
    cases h
    obtain ⟨links, spelled⟩ := spells_scopeLinks 0 span rest
    exact ⟨.this links, by simp [Phrase.tokens, spelled]⟩
  · rename_i span rest
    cases h
    obtain ⟨links, spelled⟩ := spells_scopeLinks 1 span rest
    exact ⟨.super links, by simp [Phrase.tokens, spelled]⟩
  · cases h
    exact ⟨.root, rfl⟩
  · rename_i span rest
    split at h
    · cases h
    · rename_i inner read
      split at h
      · cases h
      · rename_i closed closes
        cases h
        obtain ⟨group, spelled⟩ : Spells (.whole expression) rest inner.rest :=
          (sound fewer read).1
        rw [of_closing closes] at spelled
        exact ⟨.group group, by simp [Phrase.tokens, spelled]⟩
  · cases h
  · cases h
  · split at h
    · rename_i value same
      cases h
      exact ⟨.literal _ value (of_literal? same), rfl⟩
    · cases h

theorem spells_accesses {receiver p : Parsed tokens} (fewer : receiver.rest.length ≤ bound)
    (h : accesses stop receiver = .ok p) : Spells .accesses receiver.rest p.rest := by
  rw [accesses] at h
  split at h
  · split at h
    · cases h
    · rename_i token more next _
      split at h
      · cases h
      · rename_i name named
        have shorter : more.length < receiver.rest.length := by
          simp only [next, List.length_cons]
          omega
        obtain ⟨others, spelled⟩ := spells_accesses (Nat.le_of_lt (Nat.lt_of_lt_of_le shorter fewer)) h
        exact ⟨.property token.kind name (of_propertyName named) others, by
          simp [next, Phrase.tokens, spelled]⟩
  · rename_i opener rest next
    split at h
    · cases h
    · split at h
      · cases h
      · rename_i position read
        split at h
        · cases h
        · rename_i closed closes
          have shorter : closed.rest.length < receiver.rest.length := by
            have := position.shorter
            have := closed.shorter
            simp only [next, List.length_cons]
            omega
          obtain ⟨inner, spelled⟩ : Spells (.whole expression) rest position.rest :=
            (sound (by simp only [next, List.length_cons] at fewer; omega) read).1
          obtain ⟨others, spelled'⟩ :=
            spells_accesses (Nat.le_of_lt (Nat.lt_of_lt_of_le shorter fewer)) h
          rw [of_closing closes, spelled'] at spelled
          exact ⟨.index inner others, by simp [next, Phrase.tokens, spelled]⟩
  · cases h
    exact ⟨.noAccess, rfl⟩
termination_by receiver.rest.length

theorem spells_postfixed {p : Parsed tokens} (fewer : tokens.length ≤ bound)
    (h : postfixed stop tokens = .ok p) : Spells (.whole .access) tokens p.rest := by
  rw [postfixed] at h
  split at h
  · cases h
  · rename_i receiver read
    obtain ⟨first, spelled⟩ := spells_primary sound fewer read
    obtain ⟨others, spelled'⟩ := spells_accesses sound
      (Nat.le_of_lt (Nat.lt_of_lt_of_le receiver.shorter fewer)) h
    exact ⟨.access first others, by simp [Phrase.tokens, spelled, spelled']⟩

theorem spells_filters {input p : Parsed tokens} (fewer : input.rest.length ≤ bound)
    (h : filters stop input = .ok p) : Spells .filters input.rest p.rest := by
  rw [filters] at h
  split at h
  · split at h
    · rename_i name _ _ more next _
      split at h
      · cases h
      · rename_i args read
        have shorter : args.rest.length < input.rest.length := by
          have := args.shorter
          simp only [next, List.length_cons]
          omega
        obtain ⟨inner, spelled⟩ := spells_arguments sound
          (by simp only [next, List.length_cons] at fewer; omega) read
        obtain ⟨others, spelled'⟩ :=
          spells_filters (Nat.le_of_lt (Nat.lt_of_lt_of_le shorter fewer)) h
        exact ⟨.filterCall name inner others, by simp [next, Phrase.tokens, spelled, spelled']⟩
    · rename_i name _ more next _ _
      have shorter : more.length < input.rest.length := by
        simp only [next, List.length_cons]
        omega
      obtain ⟨others, spelled⟩ := spells_filters (Nat.le_of_lt (Nat.lt_of_lt_of_le shorter fewer)) h
      exact ⟨.filterName name others, by simp [next, Phrase.tokens, spelled]⟩
    · cases h
  · cases h
    exact ⟨.noFilter, rfl⟩
termination_by input.rest.length

theorem spells_unary {tokens : List Token} {p : Parsed tokens} (fewer : tokens.length ≤ bound)
    (h : unary stop tokens = .ok p) : Spells (.whole .unary) tokens p.rest := by
  rw [unary.eq_def] at h
  split at h
  · split at h
    · cases h
    · rename_i inner read
      cases h
      obtain ⟨operand, spelled⟩ := spells_unary (Nat.le_of_lt fewer) read
      exact ⟨.minus operand, by simp [Phrase.tokens, spelled]⟩
  · split at h
    · cases h
    · rename_i inner read
      cases h
      obtain ⟨operand, spelled⟩ := spells_unary (Nat.le_of_lt fewer) read
      exact ⟨.bang operand, by simp [Phrase.tokens, spelled]⟩
  · split at h
    · cases h
    · rename_i input read
      obtain ⟨access, spelled⟩ := spells_postfixed sound fewer read
      obtain ⟨others, spelled'⟩ := spells_filters sound
        (Nat.le_of_lt (Nat.lt_of_lt_of_le input.shorter fewer)) h
      exact ⟨.unsigned (.filter access others), by simp [Phrase.tokens, spelled, spelled']⟩
termination_by tokens.length

theorem spells_operand {least : Nat} {p : Parsed tokens} (fewer : tokens.length ≤ bound)
    (h : operand stop least tokens = .ok p) :
    ∃ strength, least ≤ strength ∧ Spells (.whole (atStrength strength)) tokens p.rest ∧
      Halts (strength + 1) p.rest := by
  rw [operand.eq_def] at h
  split at h
  · rename_i span rest
    split at h
    · rename_i loose
      split at h
      · cases h
      · rename_i inner read
        cases h
        obtain ⟨spells, halts⟩ := sound fewer read
        obtain ⟨operand, spelled⟩ : Spells (.whole .negation) rest inner.rest := spells
        exact ⟨notPrecedence, loose, ⟨.not operand, by simp [Phrase.tokens, spelled]⟩,
          halts.weaken (Nat.le_succ _)⟩
    · exact ⟨least + 8, Nat.le_add_right _ _, spells_unary sound fewer h, halts_unary (by omega) _⟩
  · exact ⟨least + 8, Nat.le_add_right _ _, spells_unary sound fewer h, halts_unary (by omega) _⟩

/-- The loop over operators keeps a left operand that is as strong as the operator behind it. -/
theorem spells_climb {least strength : Nat} {left p : Parsed tokens}
    (fewer : left.rest.length ≤ bound) (h : climb stop least left = .ok p) (tight : least ≤ strength)
    (spells : Spells (.whole (atStrength strength)) tokens left.rest)
    (halts : Halts (strength + 1) left.rest) :
    Spells (.whole (atStrength least)) tokens p.rest ∧ Halts least p.rest := by
  rw [climb] at h
  split at h
  · rename_i none
    cases h
    exact ⟨spells.weaken tight, fun _ _ _ some => by rw [none] at some; cases some⟩
  · rename_i token rest next
    split at h
    · rename_i other
      cases h
      exact ⟨spells.weaken tight, fun _ _ _ some written => by
        rw [next] at some; cases some; rw [other] at written; cases written⟩
    · rename_i op written
      split at h
      · rename_i loose
        cases h
        exact ⟨spells.weaken tight, fun _ _ _ some written' => by
          rw [next] at some; cases some; rw [written] at written'; cases written'; exact loose⟩
      · rename_i taken
        split at h
        · cases h
        · rename_i right read
          have shorter : right.rest.length < left.rest.length := by
            have := right.shorter
            simp only [next, List.length_cons]
            omega
          obtain ⟨spells', halts'⟩ :=
            sound (by simp only [next, List.length_cons] at fewer; omega) read
          rw [next] at spells
          have weaker := Nat.le_of_lt_succ (halts token rest op next written)
          exact spells_climb (Nat.le_of_lt (Nat.lt_of_lt_of_le shorter fewer)) h
            (Nat.le_of_not_lt taken) (.operation written (spells.weaken weaker) spells') halts'
termination_by left.rest.length

theorem spells_binary {least : Nat} {p : Parsed tokens} (fewer : tokens.length ≤ bound)
    (h : binary stop least tokens = .ok p) :
    Spells (.whole (atStrength least)) tokens p.rest ∧ Halts least p.rest := by
  rw [binary] at h
  split at h
  · cases h
  · rename_i left read
    obtain ⟨strength, tight, spells, halts⟩ := spells_operand sound fewer read
    exact spells_climb sound (Nat.le_of_lt (Nat.lt_of_lt_of_le left.shorter fewer)) h tight spells
      halts

end Sound

theorem sound (stop : Span) (bound : Nat) : Sound stop bound := by
  induction bound with
  | zero => exact fun _ none => absurd none (Nat.not_lt_zero _)
  | succ bound ih => exact fun _ fewer _ _ h => spells_binary ih (Nat.le_of_lt_succ fewer) h

/-- What is read as a formula has a derivation. -/
theorem exists_phrase_of_formula {e : Expr Span} (h : formula stop tokens = .ok e) :
    ∃ p : Phrase (.whole expression), p.tokens = tokens.map Token.kind := by
  unfold formula at h
  split at h
  · cases h
  · split at h
    · cases h
    · rename_i parsed read
      split at h
      · rename_i none
        obtain ⟨p, spelled⟩ : Spells (.whole expression) _ parsed.rest :=
          (spells_binary (sound stop _) (Nat.le_refl _) read).1
        exact ⟨p, by simp [spelled, none]⟩
      · cases h
      · cases h
      · cases h

end Parser

end FormulaDoc
