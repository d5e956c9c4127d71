import FormulaDoc.Proofs.Formula.Composition
import FormulaDoc.Proofs.Formula.Following
import FormulaDoc.Proofs.Number.Encoding

/-!
# What formulas are spelled with

A name in a formula is a word that is not reserved, a property is a word that anchors no path, and a
number is finite and has no sign. This holds of the tokens of every text, and so of the trees that are
read from them.
-/
namespace FormulaDoc

open Binary64

/-- A kind of token that a text can have. -/
def TokenKind.Legible : TokenKind → Prop
  | number n => isFinite n = true ∧ isNegative n = false
  | ident name => IsName name
  | _ => True

theorem IsName.isKey {name : String} (isName : IsName name) : IsKey name := by
  refine ⟨isName.1, ?_, ?_⟩
  · rintro rfl
    cases isName.2
  · rintro rfl
    cases isName.2

/-! ## Tokens -/

theorem Decimal.read_le_infinity (digits : Nat) (exponent : Int) :
    Decimal.read digits exponent ≤ infinity := by
  have nearest_le (num den : Nat) : nearest num den ≤ infinity := by
    rw [nearest]
    split
    · exact Nat.zero_le _
    · exact Nat.min_le_right _ _
  rw [Decimal.read]
  split_ifs
  · exact Nat.zero_le _
  · exact Nat.le_refl _
  · exact Nat.zero_le _
  · exact nearest_le _ _

theorem Lexer.legible_of_reads {piece : List Char} {kind : TokenKind} (reads : Reads piece kind) :
    kind.Legible := by
  cases reads with
  | sign | keyword | string => trivial
  | @ident piece matched plain =>
    refine ⟨by rw [String.toList_ofList]; exact mem_word.mp matched, ?_⟩
    cases found : Keyword.ofText? (String.ofList piece) with
    | none => rfl
    | some w =>
      refine absurd ?_ (plain w)
      rw [← eq_text_of_ofText? found, String.toList_ofList]
  | number matched value =>
    simp only [numeralToken] at value
    split at value
    · cases value
    · rename_i finite
      cases value
      have number := Decimal.read_le_infinity (numeralValue piece).1 (numeralValue piece).2
      refine ⟨?_, isNegative_ofMagnitude number⟩
      rw [isFinite, magnitude_ofMagnitude number]
      exact decide_eq_true (Nat.lt_of_le_of_ne number finite)

theorem legible_of_scan {source : String} {tokens : List Token} (scanned : scan source = .ok tokens) :
    ∀ token ∈ tokens, token.kind.Legible := by
  intro token mem
  obtain ⟨piece, after, -, -, reads, -⟩ := (Parser.tiling_of_text scanned).pieces token mem
  exact Lexer.legible_of_reads reads

/-! ## Trees -/

/-- A literal that a formula can have. -/
def Value.Legible : Value → Prop
  | null | bool _ | string _ => True
  | number n => isFinite n = true ∧ isNegative n = false
  | array _ | object _ | formula _ => False

namespace Expr

variable {α β : Type}

mutual

/-- All names and literals of a tree are such that a formula can have them. -/
def Legible : Expr α → Prop
  | literal _ value => value.Legible
  | ident _ name => IsName name
  | scope _ _ | root _ => True
  | field _ receiver name => receiver.Legible ∧ IsKey name
  | index _ receiver position => receiver.Legible ∧ position.Legible
  | unary _ _ operand => operand.Legible
  | binary _ _ left right => left.Legible ∧ right.Legible
  | call _ name args => IsName name ∧ AllLegible args

def AllLegible : List (Expr α) → Prop
  | [] => True
  | e :: es => e.Legible ∧ AllLegible es

end

mutual

theorem legible_map (f : α → β) (e : Expr α) : (e.map f).Legible ↔ e.Legible := by
  match e with
  | literal _ _ | ident _ _ | scope _ _ | root _ => exact Iff.rfl
  | field _ receiver _ => exact and_congr_left' (legible_map f receiver)
  | index _ receiver position => exact and_congr (legible_map f receiver) (legible_map f position)
  | unary _ _ operand => exact legible_map f operand
  | binary _ _ left right => exact and_congr (legible_map f left) (legible_map f right)
  | call _ _ args => exact and_congr_right' (allLegible_mapAll f args)

theorem allLegible_mapAll (f : α → β) (es : List (Expr α)) :
    AllLegible (mapAll f es) ↔ AllLegible es := by
  match es with
  | [] => exact Iff.rfl
  | e :: es => exact and_congr (legible_map f e) (allLegible_mapAll f es)

end

end Expr

namespace Grammar

theorem IsLiteral.legible {kind : TokenKind} {value : Value} (literal : IsLiteral kind value)
    (legible : kind.Legible) : value.Legible := by
  cases literal with
  | number => exact legible
  | _ => trivial

theorem IsProperty.isKey {kind : TokenKind} {name : String} (property : IsProperty kind name)
    (legible : kind.Legible) : IsKey name := by
  cases property with
  | name => exact IsName.isKey legible
  | @word w mem =>
    refine ⟨Lexer.isWord_keyword w, ?_⟩
    cases w <;> first | exact ⟨by decide, by decide⟩ | exact absurd mem (by decide)

/-- What a phrase means brings only such names and literals as a formula can have. -/
def Symbol.Legible : {s : Symbol} → s.Meaning → Prop
  | whole _, e => e.Legible
  | operations _, f | filters, f | accesses, f => ∀ e, e.Legible → (f e).Legible
  | links, _ => True
  | arguments, es | moreArguments, es => Expr.AllLegible es

theorem Phrase.legible_meaning {s : Symbol} (p : Phrase s) (all : ∀ kind ∈ p.tokens, kind.Legible) :
    Symbol.Legible p.meaning := by
  induction p with
  | chain _ _ first rest =>
    simp only [tokens, List.forall_mem_append] at all
    exact rest all.2 _ (first all.1)
  | operation _ _ _ _ _ operand rest =>
    simp only [tokens, List.forall_mem_cons, List.forall_mem_append] at all
    exact fun e left => rest all.2.2 _ ⟨left, operand all.2.1⟩
  | not _ ih | minus _ ih | bang _ ih =>
    simp only [tokens, List.forall_mem_cons] at all
    exact ih all.2
  | equality _ ih | unsigned _ ih => exact ih all
  | filter _ _ input rest =>
    simp only [tokens, List.forall_mem_append] at all
    exact rest all.2 _ (input all.1)
  | filterName _ _ rest =>
    simp only [tokens, List.forall_mem_cons] at all
    exact fun e input => rest all.2.2 _ ⟨all.2.1, input, trivial⟩
  | filterCall _ _ _ args rest =>
    simp only [tokens, List.forall_mem_cons, List.forall_mem_append] at all
    obtain ⟨-, isName, -, inner, -, others⟩ := all
    exact fun e input => rest others _ ⟨isName, input, args inner⟩
  | access _ _ receiver rest =>
    simp only [tokens, List.forall_mem_append] at all
    exact rest all.2 _ (receiver all.1)
  | property _ _ property _ rest =>
    simp only [tokens, List.forall_mem_cons] at all
    exact fun e receiver => rest all.2.2 _ ⟨receiver, property.isKey all.2.1⟩
  | index _ _ position rest =>
    simp only [tokens, List.forall_mem_cons, List.forall_mem_append] at all
    exact fun e receiver => rest all.2.2.2 _ ⟨receiver, position all.2.1⟩
  | literal _ _ literal =>
    simp only [tokens, List.forall_mem_singleton] at all
    exact literal.legible all
  | call _ _ args =>
    simp only [tokens, List.forall_mem_cons, List.forall_mem_append] at all
    exact ⟨all.1, args all.2.2.1⟩
  | ident =>
    simp only [tokens, List.forall_mem_singleton] at all
    exact all
  | group _ ih =>
    simp only [tokens, List.forall_mem_cons, List.forall_mem_append] at all
    exact ih all.2.1
  | noOperation | noFilter | noAccess => exact fun _ h => h
  | this | super | root | noLink | linkThis | linkSuper | noArguments | noMore => trivial
  | someArguments _ _ first rest =>
    simp only [tokens, List.forall_mem_append] at all
    exact ⟨first all.1, rest all.2⟩
  | more _ _ next rest =>
    simp only [tokens, List.forall_mem_cons, List.forall_mem_append] at all
    exact ⟨next all.2.1, rest all.2.2⟩

end Grammar

/-- The names and literals of a tree that is read are legible. -/
theorem legible_of_parse {source : String} {e : Expr Span} (parsed : parse source = .ok e) :
    e.Legible := by
  obtain ⟨tokens, p, scanned, spelled, same⟩ := exists_phrase_of_parse parsed
  have all : ∀ kind ∈ p.tokens, kind.Legible := by
    rw [spelled, List.forall_mem_map]
    exact legible_of_scan scanned
  have bare : e.bare.Legible := same ▸ p.legible_meaning all
  exact (Expr.legible_map _ e).mp bare

end FormulaDoc
