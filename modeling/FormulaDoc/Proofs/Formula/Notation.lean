import FormulaDoc.Proofs.Evaluation.Scalars
import FormulaDoc.Proofs.Formula.Spelling
import FormulaDoc.Proofs.Text.Division

/-!
# The text of a tree tells the tree

The text of a tree is a form: a word, quoted text, or a head and parts between parentheses. A form is
divided from what follows it in one way only, because a word ends at a space or a parenthesis and a
group at its own closing one. The head of a form and the number of its parts tell the kind of node, so
that trees of formulas with the same text differ in their marks at most.
-/
namespace FormulaDoc

/-! ## Forms -/

/-- A text in prefix notation. -/
inductive Form where
  | word (letters : List Char)
  | quoted (content : String)
  | group (head : List Char) (parts : List Form)

namespace Form

/-- The characters of words: all but those that divide forms. -/
def isLetter (c : Char) : Bool := c != ' ' && c != '(' && c != ')' && c != '"'

def IsWord (letters : List Char) : Prop := letters ≠ [] ∧ ∀ c ∈ letters, isLetter c = true

mutual

def text : Form → List Char
  | word letters => letters
  | quoted content => '"' :: (content.toList.flatMap (Text.visibleEscape '"') ++ ['"'])
  | group head parts => '(' :: (head ++ partsText parts)

/-- The text of parts up to the parenthesis that closes their group. -/
def partsText : List Form → List Char
  | [] => [')']
  | part :: parts => ' ' :: (part.text ++ partsText parts)

end

mutual

/-- All words of a form are words. -/
def Proper : Form → Prop
  | word letters => IsWord letters
  | quoted _ => True
  | group head parts => IsWord head ∧ AllProper parts

def AllProper : List Form → Prop
  | [] => True
  | part :: parts => part.Proper ∧ AllProper parts

end

section Division

variable {letters letters' rest rest' : List Char}

theorem word_append_inj (word : IsWord letters) (word' : IsWord letters')
    (ends : Text.EndsRun isLetter rest) (ends' : Text.EndsRun isLetter rest')
    (same : letters ++ rest = letters' ++ rest') : letters = letters' ∧ rest = rest' :=
  Text.run_append_inj word.2 word'.2 ends ends' same

theorem word_ne_cons (word : IsWord letters) {c : Char} (divides : isLetter c = false)
    (same : letters ++ rest = c :: rest') : False := by
  obtain ⟨some, all⟩ := word
  obtain ⟨d, ds, rfl⟩ := List.exists_cons_of_ne_nil some
  have first := all d List.mem_cons_self
  rw [(List.cons.inj same).1, divides] at first
  cases first

theorem endsRun_partsText (parts : List Form) (rest : List Char) :
    Text.EndsRun isLetter (partsText parts ++ rest) := by
  cases parts <;> exact Text.endsRun_cons rfl _

mutual

/-- A form is divided from what follows it, and its text tells which form it is. -/
theorem text_append_inj (f f' : Form) (proper : f.Proper) (proper' : f'.Proper) (rest rest' : List Char)
    (ends : Text.EndsRun isLetter rest) (ends' : Text.EndsRun isLetter rest')
    (same : f.text ++ rest = f'.text ++ rest') : f = f' ∧ rest = rest' := by
  match f, f' with
  | word letters, word letters' =>
    obtain ⟨rfl, rests⟩ := word_append_inj proper proper' ends ends' same
    exact ⟨rfl, rests⟩
  | word letters, quoted content | word letters, group head parts =>
    exact (word_ne_cons proper rfl same).elim
  | quoted content, word letters | group head parts, word letters =>
    exact (word_ne_cons proper' rfl same.symm).elim
  | quoted content, quoted content' =>
    rw [Form.text, Form.text, List.cons_append, List.cons_append, List.append_assoc,
      List.append_assoc] at same
    obtain ⟨contents, rests⟩ := Text.body_append_inj (List.cons.inj same).2
    exact ⟨congrArg quoted (String.toList_inj.mp contents), rests⟩
  | quoted content, group head parts | group head parts, quoted content =>
    exact absurd (List.cons.inj same).1 (by decide)
  | group head parts, group head' parts' =>
    rw [Form.text, Form.text, List.cons_append, List.cons_append, List.append_assoc,
      List.append_assoc] at same
    obtain ⟨rfl, inner⟩ := word_append_inj proper.1 proper'.1 (endsRun_partsText parts rest)
      (endsRun_partsText parts' rest') (List.cons.inj same).2
    obtain ⟨rfl, rests⟩ := partsText_append_inj parts parts' proper.2 proper'.2 rest rest' inner
    exact ⟨rfl, rests⟩

theorem partsText_append_inj (parts parts' : List Form) (proper : AllProper parts)
    (proper' : AllProper parts') (rest rest' : List Char)
    (same : partsText parts ++ rest = partsText parts' ++ rest') : parts = parts' ∧ rest = rest' := by
  match parts, parts' with
  | [], [] =>
    rw [partsText, List.singleton_append, List.singleton_append] at same
    exact ⟨rfl, (List.cons.inj same).2⟩
  | [], _ :: _ | _ :: _, [] =>
    rw [partsText, partsText, List.singleton_append, List.cons_append] at same
    exact absurd (List.cons.inj same).1 (by decide)
  | part :: parts, part' :: parts' =>
    rw [partsText, partsText, List.cons_append, List.cons_append, List.append_assoc,
      List.append_assoc] at same
    obtain ⟨rfl, others⟩ := text_append_inj part part' proper.1 proper'.1 _ _
      (endsRun_partsText parts rest) (endsRun_partsText parts' rest') (List.cons.inj same).2
    obtain ⟨rfl, rests⟩ := partsText_append_inj parts parts' proper.2 proper'.2 rest rest' others
    exact ⟨rfl, rests⟩

end

theorem text_inj {f f' : Form} (proper : f.Proper) (proper' : f'.Proper) (same : f.text = f'.text) :
    f = f' := by
  have ends := Text.endsRun_nil isLetter
  exact (text_append_inj f f' proper proper' [] [] ends ends (by rw [same])).1

end Division

end Form

/-! ## Trees as forms -/

def Value.form : Value → Form
  | string s => .quoted s
  | value => .word value.text.toList

namespace Expr

variable {α β : Type}

mutual

/-- What the text of a tree is made of. -/
def form : Expr α → Form
  | literal _ value => value.form
  | ident _ name => .word name.toList
  | scope _ depth => .word (scopeText depth).toList
  | root _ => .word ['$']
  | field _ receiver name => .group ['.'] [receiver.form, .word name.toList]
  | index _ receiver position => .group ['[', ']'] [receiver.form, position.form]
  | unary _ op operand => .group op.symbol.toList [operand.form]
  | binary _ op left right => .group op.symbol.toList [left.form, right.form]
  | call _ name args => .group name.toList (forms args)

def forms : List (Expr α) → List Form
  | [] => []
  | e :: es => e.form :: forms es

end

theorem toList_literalText (value : Value) : (literalText value).toList = value.form.text := by
  cases value with
  | string s => exact String.toList_ofList
  | _ => rfl

mutual

theorem toList_text (e : Expr α) : e.text.toList = e.form.text := by
  match e with
  | literal _ value => exact toList_literalText value
  | ident _ _ | scope _ _ => rfl
  | root _ => simp [text, form, Form.text]
  | field _ receiver name =>
    simp [text, form, Form.text, Form.partsText, String.toList_append, toList_text receiver]
  | index _ receiver position =>
    simp [text, form, Form.text, Form.partsText, String.toList_append, toList_text receiver,
      toList_text position]
  | unary _ op operand =>
    simp [text, form, Form.text, Form.partsText, String.toList_append, toList_text operand]
  | binary _ op left right =>
    simp [text, form, Form.text, Form.partsText, String.toList_append, toList_text left,
      toList_text right]
  | call _ name args =>
    simp [text, form, Form.text, String.toList_append, toList_argsText args]

theorem toList_argsText (es : List (Expr α)) :
    (argsText es).toList ++ [')'] = Form.partsText (forms es) := by
  match es with
  | [] => rfl
  | e :: es =>
    simp [argsText, forms, Form.partsText, String.toList_append, toList_text e,
      ← toList_argsText es]

end

end Expr

/-! ## The words of trees -/

namespace Form

theorem isLetter_of_isWordChar {c : Char} (inside : Text.isWordChar c = true) : isLetter c = true := by
  have other (d : Char) (outside : Text.isWordChar d = false) : (c != d) = true := by
    rw [bne_iff_ne]
    rintro rfl
    exact Bool.false_ne_true (outside.symm.trans inside)
  rw [isLetter, other ' ' rfl, other '(' rfl, other ')' rfl, other '"' rfl]
  rfl

theorem isWord_of_isWord {letters : List Char} (word : Text.isWord letters = true) :
    IsWord letters := by
  refine ⟨?_, fun c mem => isLetter_of_isWordChar (Text.isWordChar_of_isWord word c mem)⟩
  rintro rfl
  cases word

theorem isLetter_of_isDigit {c : Char} (digit : c.isDigit = true) : isLetter c = true :=
  isLetter_of_isWordChar (by rw [Text.isWordChar, Char.isAlphanum, digit, Bool.or_true, Bool.true_or])

theorem isLetter_of_mem_digits {ds : List Char} (mem : ds ∈ Lexer.digits) :
    ∀ c ∈ ds, isLetter c = true :=
  fun c inside => isLetter_of_isDigit ((Lexer.mem_digits.mp mem).2 c inside)

/-- Numerals are words. -/
theorem isWord_of_mem_number {piece : List Char} (mem : piece ∈ Lexer.Pattern.number.language) :
    IsWord piece := by
  obtain ⟨whole, digits, tail, fraction, power, exponent, rfl⟩ := Lexer.mem_number.mp mem
  have wholes := isLetter_of_mem_digits digits
  have tails : ∀ c ∈ tail, isLetter c = true := by
    rcases fraction with rfl | ⟨_, rfl, ds, digits, rfl⟩
    · exact nofun
    · exact List.forall_mem_cons.mpr ⟨rfl, isLetter_of_mem_digits digits⟩
  have powers : ∀ c ∈ power, isLetter c = true := by
    rcases exponent with rfl | ⟨_, ⟨mark, marks, rfl⟩, _, ⟨signs, sign, ds, digits, rfl⟩, rfl⟩
    · exact nofun
    · have marked : isLetter mark = true := by
        simp only [Lexer.isExponentMark, Bool.or_eq_true, beq_iff_eq] at marks
        rcases marks with rfl | rfl <;> rfl
      have signed : ∀ c ∈ signs, isLetter c = true := by
        rcases sign with rfl | ⟨c, sign, rfl⟩
        · exact nofun
        · simp only [Lexer.isExponentSign, Bool.or_eq_true, beq_iff_eq] at sign
          rcases sign with rfl | rfl <;> simp [isLetter]
      change ∀ c ∈ mark :: (signs ++ ds), isLetter c = true
      exact List.forall_mem_cons.mpr
        ⟨marked, List.forall_mem_append.mpr ⟨signed, isLetter_of_mem_digits digits⟩⟩
  refine ⟨List.append_ne_nil_of_left_ne_nil (Lexer.mem_digits.mp digits).1 _, ?_⟩
  exact List.forall_mem_append.mpr ⟨wholes, List.forall_mem_append.mpr ⟨tails, powers⟩⟩

theorem isWord_scopeText (depth : Nat) : IsWord (Expr.scopeText depth).toList := by
  induction depth with
  | zero => exact isWord_of_isWord (Lexer.isWord_keyword .this)
  | succ depth ih =>
    cases depth with
    | zero => exact isWord_of_isWord (Lexer.isWord_keyword .super)
    | succ depth =>
      rw [Expr.scopeText, String.toList_append]
      · have link : ∀ c ∈ ".super".toList, isLetter c = true := by simp [isLetter]
        exact ⟨List.append_ne_nil_of_left_ne_nil ih.1 _, List.forall_mem_append.mpr ⟨ih.2, link⟩⟩
      · nofun

theorem isWord_unarySymbol (op : UnaryOp) : IsWord op.symbol.toList := by
  cases op <;> simp [IsWord, UnaryOp.symbol, isLetter]

theorem isWord_binarySymbol (op : BinaryOp) : IsWord op.symbol.toList := by
  cases op <;> simp [IsWord, BinaryOp.symbol, isLetter]

end Form

namespace Value

variable {value : Value}

theorem Legible.isWritable (legible : value.Legible) : value.IsWritable := by
  cases value with
  | null | bool _ | string _ => rfl
  | number n =>
    refine ⟨legible.1, ?_⟩
    rintro rfl
    exact absurd legible.2 (by decide)
  | array _ | object _ | formula _ => cases legible

theorem Legible.written_eq (legible : value.Legible) : value.written = .literal () value := by
  cases value with
  | number n => rw [written, if_neg (by rw [legible.2]; exact Bool.false_ne_true)]
  | _ => rfl

theorem Legible.proper_form (legible : value.Legible) : value.form.Proper := by
  cases value with
  | null => exact Form.isWord_of_isWord (Lexer.isWord_keyword .null)
  | bool b =>
    cases b
    · exact Form.isWord_of_isWord (Lexer.isWord_keyword .false)
    · exact Form.isWord_of_isWord (Lexer.isWord_keyword .true)
  | number n =>
    obtain ⟨piece, spelled, reads⟩ := exists_numeral legible.isWritable.1 legible.isWritable.2
    rw [legible.2] at spelled
    change Form.IsWord (numberText n).toList
    rw [spelled]
    cases reads with
    | number matched => exact Form.isWord_of_mem_number matched
  | string _ => trivial
  | array _ | object _ | formula _ => cases legible

end Value

namespace Expr

variable {α : Type}

mutual

theorem proper_form (e : Expr α) (legible : e.Legible) : e.form.Proper := by
  match e with
  | literal _ value => exact Value.Legible.proper_form legible
  | ident _ name => exact Form.isWord_of_isWord legible.1
  | scope _ depth => exact Form.isWord_scopeText depth
  | root _ => exact ⟨List.cons_ne_nil _ _, by simp [Form.isLetter]⟩
  | field _ receiver name =>
    have head : Form.IsWord ['.'] := ⟨List.cons_ne_nil _ _, by simp [Form.isLetter]⟩
    exact ⟨head, proper_form receiver legible.1, Form.isWord_of_isWord legible.2.1, trivial⟩
  | index _ receiver position =>
    have head : Form.IsWord ['[', ']'] := ⟨List.cons_ne_nil _ _, by simp [Form.isLetter]⟩
    exact ⟨head, proper_form receiver legible.1, proper_form position legible.2, trivial⟩
  | unary _ op operand =>
    exact ⟨Form.isWord_unarySymbol op, proper_form operand legible, trivial⟩
  | binary _ op left right =>
    exact ⟨Form.isWord_binarySymbol op, proper_form left legible.1, proper_form right legible.2,
      trivial⟩
  | call _ name args => exact ⟨Form.isWord_of_isWord legible.1.1, allProper_forms args legible.2⟩

theorem allProper_forms (es : List (Expr α)) (legible : AllLegible es) : Form.AllProper (forms es) := by
  match es with
  | [] => trivial
  | e :: es => exact ⟨proper_form e legible.1, allProper_forms es legible.2⟩

end

end Expr

/-! ## Words as formulas -/

namespace Lexer

def superWord : List Char := ['s', 'u', 'p', 'e', 'r']

theorem toList_superWord : Keyword.super.text.toList = superWord := by decide

/-- The text of the scope some levels above the first one. -/
def superText : Nat → List Char
  | 0 => superWord
  | depth + 1 => superWord ++ '.' :: superText depth

theorem superText_append (depth : Nat) :
    superText depth ++ '.' :: superWord = superText (depth + 1) := by
  induction depth with
  | zero => rfl
  | succ depth ih =>
    rw [superText, List.append_assoc, List.cons_append, ih]
    rfl

theorem toList_scopeText (depth : Nat) : (Expr.scopeText (depth + 1)).toList = superText depth := by
  induction depth with
  | zero => exact toList_superWord
  | succ depth ih =>
    have link : ".super".toList = '.' :: superWord := by decide
    rw [Expr.scopeText, String.toList_append, ih, link, superText_append]
    nofun

theorem scans_super (offset : Nat) (rest : List Char) :
    Scans offset (superWord ++ '.' :: rest) [⟨.word .super, ⟨offset, offset + 5⟩⟩] (offset + 5)
      ('.' :: rest) := by
  have found : lexeme 's' ('u' :: 'p' :: 'e' :: 'r' :: '.' :: rest) = (.ok (.word .super), 4) := rfl
  rw [Scans, superWord]
  change scan offset ('s' :: 'u' :: 'p' :: 'e' :: 'r' :: '.' :: rest) = _
  rw [scan_lexeme (by decide) found]
  rfl

theorem exists_scan_superText (depth offset : Nat) :
    ∃ tokens, ∃ links : Grammar.Phrase .links, scan offset (superText depth) = .ok tokens ∧
      (Grammar.Phrase.super links).tokens = tokens.map Token.kind ∧ links.meaning = depth := by
  induction depth generalizing offset with
  | zero =>
    have reads : Reads superWord (.word .super) := toList_superWord ▸ .keyword .super
    exact ⟨_, .noLink, scan_of_reads reads offset, rfl, rfl⟩
  | succ depth ih =>
    obtain ⟨tokens, links, scanned, spelled, same⟩ := ih (offset + 6)
    have front := (scans_super offset (superText depth)).trans
      (scans_sign '.' .dot (by decide) (offset + 5) (superText depth))
    rw [Scans, scanned] at front
    refine ⟨_, .linkSuper links, front, ?_, congrArg Nat.succ same⟩
    exact congrArg (fun kinds => .word .super :: .sign .dot :: kinds) spelled

end Lexer

/-- What has no sign, as signs with their operand. -/
def Grammar.Phrase.ofPrimary (p : Grammar.Phrase (.whole .primary)) : Grammar.Phrase (.whole .unary) :=
  .unsigned (.filter (.access p .noAccess) .noFilter)

theorem exists_parse_of_primary {source : String} {tokens : List Token}
    (scanned : scan source = .ok tokens) (p : Grammar.Phrase (.whole .primary))
    (spelled : p.tokens = tokens.map Token.kind) :
    ∃ e, parse source = .ok e ∧ e.bare = p.meaning := by
  refine exists_parse_of_phrase scanned (.ofUnary (.ofPrimary p)) ?_
  simpa [Grammar.Phrase.ofUnary, Grammar.Phrase.ofPrimary] using spelled

theorem Value.exists_parse_word {value : Value} (legible : value.Legible) {letters : List Char}
    (word : value.form = .word letters) :
    ∃ e, parse (String.ofList letters) = .ok e ∧ e.bare = .literal () value := by
  have same : letters = value.text.toList := by
    cases value with
    | string _ => cases word
    | _ => exact (Form.word.inj word).symm
  rw [same, String.ofList_toList, ← legible.written_eq]
  exact exists_parse_text legible.isWritable

theorem exists_parse_name {name : String} (isName : IsName name) :
    ∃ e, parse name = .ok e ∧ e.bare = .ident () name := by
  have scanned := Lexer.scan_word isName.1
  rw [wordToken_of_isName isName] at scanned
  exact exists_parse_of_primary scanned (.ident name) rfl

theorem exists_parse_scope (depth : Nat) :
    ∃ e, parse (Expr.scopeText depth) = .ok e ∧ e.bare = .scope () depth := by
  cases depth with
  | zero =>
    exact exists_parse_of_primary (scan_of_text (Lexer.Reads.keyword .this)) (.this .noLink) rfl
  | succ depth =>
    obtain ⟨tokens, links, scanned, spelled, same⟩ := Lexer.exists_scan_superText depth 0
    rw [← Lexer.toList_scopeText] at scanned
    obtain ⟨e, parsed, meaning⟩ := exists_parse_of_primary scanned (.super links) spelled
    exact ⟨e, parsed, meaning.trans (congrArg (fun n => Expr.scope () (Nat.succ n)) same)⟩

/-! ## Reading a form back -/

def UnaryOp.ofSymbol? (symbol : List Char) : Option UnaryOp :=
  UnaryOp.all.find? (·.symbol.toList == symbol)

def BinaryOp.ofSymbol? (symbol : List Char) : Option BinaryOp :=
  BinaryOp.all.find? (·.symbol.toList == symbol)

theorem UnaryOp.ofSymbol?_symbol (op : UnaryOp) : ofSymbol? op.symbol.toList = some op := by
  cases op <;> rfl

theorem BinaryOp.ofSymbol?_symbol (op : BinaryOp) : ofSymbol? op.symbol.toList = some op := by
  cases op <;> rfl

namespace Form

/-- The node with a head over parts, each with the tree that it stands for. -/
def node (head : List Char) : List (Form × Expr Unit) → Expr Unit
  | [(_, operand)] =>
    match UnaryOp.ofSymbol? head with
    | some op => .unary () op operand
    | none => .call () (String.ofList head) [operand]
  | [(_, left), (second, right)] =>
    if head = ['.'] then .field () left (String.ofList second.text)
    else if head = ['[', ']'] then .index () left right
    else
      match BinaryOp.ofSymbol? head with
      | some op => .binary () op left right
      | none => .call () (String.ofList head) [left, right]
  | parts => .call () (String.ofList head) (parts.map Prod.snd)

mutual

/-- The tree that a form stands for: words stand for what they are read as. -/
def tree : Form → Expr Unit
  | word letters =>
    match parse (String.ofList letters) with
    | .ok e => e.bare
    | .error _ => .root ()
  | quoted content => .literal () (.string content)
  | group head parts => node head (parts.zip (trees parts))

def trees : List Form → List (Expr Unit)
  | [] => []
  | part :: parts => part.tree :: trees parts

end

theorem tree_word {letters : List Char} {tree : Expr Unit}
    (parsed : ∃ e, parse (String.ofList letters) = .ok e ∧ e.bare = tree) :
    (word letters).tree = tree := by
  obtain ⟨e, read, same⟩ := parsed
  rw [Form.tree, read]
  exact same

theorem length_trees (parts : List Form) : (trees parts).length = parts.length := by
  induction parts with
  | nil => rfl
  | cons part parts ih => rw [trees, List.length_cons, List.length_cons, ih]

end Form

/-! ### Names are no heads of other nodes -/

section Names

variable {name : String} (isName : IsName name)

include isName

theorem IsName.ne_of_not {symbol : String} (other : ¬ IsName symbol) : symbol.toList ≠ name.toList := by
  intro same
  rw [String.toList_inj] at same
  exact other (same ▸ isName)

theorem IsName.unaryOp : UnaryOp.ofSymbol? name.toList = none := by
  rw [UnaryOp.ofSymbol?, List.find?_eq_none]
  intro op _ same
  have other : ¬ IsName op.symbol := by
    rintro ⟨word, plain⟩
    cases op
    · cases word
    · cases plain
  exact isName.ne_of_not other (beq_iff_eq.mp same)

theorem IsName.binaryOp : BinaryOp.ofSymbol? name.toList = none := by
  rw [BinaryOp.ofSymbol?, List.find?_eq_none]
  intro op _ same
  have other : ¬ IsName op.symbol := by
    rintro ⟨word, plain⟩
    cases op <;> cases word <;> cases plain
  exact isName.ne_of_not other (beq_iff_eq.mp same)

theorem Form.node_name (parts : List (Form × Expr Unit)) :
    Form.node name.toList parts = .call () name (parts.map Prod.snd) := by
  have notDot : name.toList ≠ ['.'] := by
    intro same
    have word := isName.1
    rw [same] at word
    cases word
  have notBrackets : name.toList ≠ ['[', ']'] := by
    intro same
    have word := isName.1
    rw [same] at word
    cases word
  match parts with
  | [] | _ :: _ :: _ :: _ => rw [node, String.ofList_toList] <;> nofun
  | [(_, operand)] =>
    simp only [node, isName.unaryOp, String.ofList_toList, List.map_cons, List.map_nil]
  | [(_, left), (_, right)] =>
    simp only [node, if_neg notDot, if_neg notBrackets, isName.binaryOp, String.ofList_toList,
      List.map_cons, List.map_nil]

end Names

theorem Form.node_binary (op : BinaryOp) (left right : Form × Expr Unit) :
    Form.node op.symbol.toList [left, right] = .binary () op left.2 right.2 := by
  have notDot : op.symbol.toList ≠ ['.'] := by cases op <;> simp [BinaryOp.symbol]
  have notBrackets : op.symbol.toList ≠ ['[', ']'] := by cases op <;> simp [BinaryOp.symbol]
  simp only [node, if_neg notDot, if_neg notBrackets, op.ofSymbol?_symbol]

namespace Expr

variable {α : Type}

mutual

/-- The form of a tree stands for the tree. -/
theorem tree_form (e : Expr α) (legible : e.Legible) : e.form.tree = e.bare := by
  match e with
  | literal _ value =>
    cases shape : value.form with
    | word letters =>
      rw [form, shape]
      exact Form.tree_word (Value.exists_parse_word legible shape)
    | quoted content =>
      cases value with
      | string _ =>
        cases shape
        rfl
      | _ => cases shape
    | group _ _ => cases value <;> cases shape
  | ident _ name =>
    exact Form.tree_word (by rw [String.ofList_toList]; exact exists_parse_name legible)
  | scope _ depth =>
    exact Form.tree_word (by rw [String.ofList_toList]; exact exists_parse_scope depth)
  | root _ =>
    have reads : Lexer.Reads (String.ofList ['$']).toList (.sign .dollar) := by
      rw [String.toList_ofList]
      exact .sign .dollar
    exact Form.tree_word (exists_parse_of_primary (scan_of_text reads) .root rfl)
  | field _ receiver name =>
    simp only [form, Form.tree, Form.trees, tree_form receiver legible.1]
    exact congrArg (Expr.field () _) String.ofList_toList
  | index _ receiver position =>
    simp only [form, Form.tree, Form.trees, tree_form receiver legible.1,
      tree_form position legible.2]
    rfl
  | unary _ op operand =>
    simp only [form, Form.tree, Form.trees, tree_form operand legible, List.zip_cons_cons,
      List.zip_nil_left, Form.node, op.ofSymbol?_symbol]
    rfl
  | binary _ op left right =>
    simp only [form, Form.tree, Form.trees, tree_form left legible.1, tree_form right legible.2,
      List.zip_cons_cons, List.zip_nil_left, Form.node_binary]
    rfl
  | call _ name args =>
    rw [form, Form.tree, Form.node_name legible.1, trees_forms args legible.2, List.map_snd_zip]
    · rfl
    · rw [← trees_forms args legible.2, Form.length_trees]

theorem trees_forms (es : List (Expr α)) (legible : AllLegible es) :
    Form.trees (forms es) = mapAll (fun _ => ()) es := by
  match es with
  | [] => rfl
  | e :: es =>
    rw [forms, Form.trees, tree_form e legible.1, trees_forms es legible.2]
    rfl

end

end Expr

/-- The texts of trees that are read are the same only if the trees are, their spans aside. -/
theorem bare_eq_of_text_eq {source source' : String} {e e' : Expr Span} (parsed : parse source = .ok e)
    (parsed' : parse source' = .ok e') (same : e.text = e'.text) : e.bare = e'.bare := by
  have legible := legible_of_parse parsed
  have legible' := legible_of_parse parsed'
  have forms : e.form = e'.form := by
    refine Form.text_inj (e.proper_form legible) (e'.proper_form legible') ?_
    rw [← Expr.toList_text, ← Expr.toList_text, same]
  calc e.bare = e.form.tree := (e.tree_form legible).symm
    _ = e'.form.tree := by rw [forms]
    _ = e'.bare := e'.tree_form legible'

/-- Spaces, parentheses and the kind of quotes leave no trace in the text, nor in the tree. -/
theorem bare_eq_of_text_eq_layout :
    let e : Expr Span := .index ⟨0, 12⟩ (.field ⟨0, 7⟩ (.scope ⟨0, 4⟩ 0) "a")
      (.literal ⟨8, 11⟩ (.string "k"))
    let e' : Expr Span := .index ⟨1, 15⟩ (.field ⟨1, 9⟩ (.scope ⟨1, 5⟩ 0) "a")
      (.literal ⟨11, 14⟩ (.string "k"))
    parse "this. a['k']" = .ok e ∧ parse "(this . a)[\"k\"]" = .ok e' ∧
      e.text = "([] (. this a) \"k\")" ∧ e.text = e'.text ∧ e.bare = e'.bare := by
  intro e e'
  have parsed : parse "this. a['k']" = .ok e := by cbv
  have parsed' : parse "(this . a)[\"k\"]" = .ok e' := by cbv
  have same : e.text = e'.text := rfl
  exact ⟨parsed, parsed', by cbv, same, bare_eq_of_text_eq parsed parsed' same⟩

end FormulaDoc
