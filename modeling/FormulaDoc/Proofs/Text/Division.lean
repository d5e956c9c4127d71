import FormulaDoc.Text.Quoted
import FormulaDoc.Text.Word
import Mathlib.Data.List.Basic

/-!
# Dividing text

A text that begins with a piece of some kind is divided into the piece and the rest in one way only,
whatever the rest: a run of characters of a class ends before the first other one, and quoted text ends
at its closing quote, because every character inside is written as a piece that tells where it ends.
-/
namespace FormulaDoc.Text

/-! ## Runs -/

/-- A text is at its end or goes on with a character that is not of a class. -/
def EndsRun (p : Char → Bool) (rest : List Char) : Prop := ∀ c ∈ rest.head?, p c = false

section Runs

variable {p : Char → Bool} {run run' rest rest' : List Char}

theorem endsRun_nil (p : Char → Bool) : EndsRun p [] := nofun

theorem endsRun_cons {c : Char} (other : p c = false) (rest : List Char) : EndsRun p (c :: rest) := by
  intro d first
  cases first
  exact other

theorem takeWhile_of_endsRun (all : ∀ c ∈ run, p c = true) (ends : EndsRun p rest) :
    (run ++ rest).takeWhile p = run := by
  have none : rest.takeWhile p = [] := by
    cases rest with
    | nil => rfl
    | cons c rest => exact List.takeWhile_cons_of_neg (by simp [ends c rfl])
  rw [List.takeWhile_append_of_pos all, none, List.append_nil]

/-- A run of characters of a class is divided from what ends it. -/
theorem run_append_inj (all : ∀ c ∈ run, p c = true) (all' : ∀ c ∈ run', p c = true)
    (ends : EndsRun p rest) (ends' : EndsRun p rest') (same : run ++ rest = run' ++ rest') :
    run = run' ∧ rest = rest' := by
  have runs : run = run' := by
    rw [← takeWhile_of_endsRun all ends, same, takeWhile_of_endsRun all' ends']
  subst runs
  exact ⟨rfl, List.append_cancel_left same⟩

end Runs

/-! ## Words -/

section Words

variable {word : List Char}

theorem exists_cons_of_isWord (isWord : Text.isWord word = true) :
    ∃ c cs, word = c :: cs ∧ isWordStart c = true := by
  cases word with
  | nil => cases isWord
  | cons c cs =>
    rw [Text.isWord, Bool.and_eq_true] at isWord
    exact ⟨c, cs, rfl, isWord.1⟩

theorem isWordChar_of_isWordStart {c : Char} (start : isWordStart c = true) :
    isWordChar c = true := by
  simp only [isWordStart, isWordChar, Char.isAlphanum, Bool.or_eq_true] at start ⊢
  tauto

theorem isWordChar_of_isWord (isWord : Text.isWord word = true) :
    ∀ c ∈ word, isWordChar c = true := by
  cases word with
  | nil => exact nofun
  | cons c cs =>
    rw [Text.isWord, Bool.and_eq_true, List.all_eq_true] at isWord
    exact List.forall_mem_cons.mpr ⟨isWordChar_of_isWordStart isWord.1, isWord.2⟩

end Words

/-! ## Numbers -/

theorem decimal_injective {m n : Nat} (same : Nat.toDigits 10 m = Nat.toDigits 10 n) : m = n := by
  have number := congrArg (Nat.ofDigitChars 10 · 0) same
  simpa only [Nat.ofDigitChars_ten_toDigits] using number

theorem exists_digit_of_mem_toDigits {n : Nat} {c : Char} (mem : c ∈ Nat.toDigits 16 n) :
    ∃ d < 16, c = d.digitChar := by
  induction n using Nat.strongRecOn with
  | ind n ih =>
    rw [Nat.toDigits_eq_if (by decide)] at mem
    split at mem
    · rename_i small
      exact ⟨n, small, List.mem_singleton.mp mem⟩
    · rcases List.mem_append.mp mem with mem | mem
      · exact ih (n / 16) (by omega) mem
      · exact ⟨n % 16, Nat.mod_lt n (by decide), List.mem_singleton.mp mem⟩

theorem digitChar_injective : ∀ a < 16, ∀ b < 16, Nat.digitChar a = Nat.digitChar b → a = b := by
  decide

theorem toDigits_injective {m n : Nat} (same : Nat.toDigits 16 m = Nat.toDigits 16 n) : m = n := by
  induction m using Nat.strongRecOn generalizing n with
  | ind m ih =>
    have some (k : Nat) : 0 < (Nat.toDigits 16 k).length := Nat.length_toDigits_pos
    rw [Nat.toDigits_eq_if (by decide), Nat.toDigits_eq_if (n := n) (by decide)] at same
    split at same <;> split at same
    · rename_i small small'
      exact digitChar_injective m small n small' (List.singleton_inj.mp same)
    · have longer := congrArg List.length same
      simp only [List.length_append, List.length_singleton] at longer
      have := some (n / 16)
      omega
    · have longer := congrArg List.length same
      simp only [List.length_append, List.length_singleton] at longer
      have := some (m / 16)
      omega
    · obtain ⟨front, last⟩ := List.append_inj' same rfl
      have quotient := ih (m / 16) (by omega) front
      have remainder := digitChar_injective _ (Nat.mod_lt m (by decide)) _ (Nat.mod_lt n (by decide))
        (List.singleton_inj.mp last)
      omega

/-- A hexadecimal number is divided from the brace that closes it. -/
theorem toDigits_append_inj {m n : Nat} {rest rest' : List Char}
    (same : Nat.toDigits 16 m ++ '\x7d' :: rest = Nat.toDigits 16 n ++ '\x7d' :: rest') :
    m = n ∧ rest = rest' := by
  have noBrace (k : Nat) : ∀ c ∈ Nat.toDigits 16 k, (c != '\x7d') = true := by
    intro c mem
    obtain ⟨d, small, rfl⟩ := exists_digit_of_mem_toDigits mem
    have other : ∀ d < 16, (Nat.digitChar d != '\x7d') = true := by decide
    exact other d small
  obtain ⟨digits, closed⟩ :=
    run_append_inj (noBrace m) (noBrace n) (endsRun_cons rfl rest) (endsRun_cons rfl rest') same
  exact ⟨toDigits_injective digits, (List.cons.inj closed).2⟩

/-! ## Quoted text -/

/-- The characters that text between double quotes escapes by a letter, each with its letter. -/
def letters : List (Char × Char) :=
  [('"', '"'), ('\\', '\\'), ('\x00', '0'), ('\t', 't'), ('\r', 'r'), ('\n', 'n')]

/-- How a character stands between double quotes. -/
inductive Stands : Char → List Char → Prop where
  | letter {c d : Char} (mem : (c, d) ∈ letters) : Stands c ['\\', d]
  | number (c : Char) : Stands c (numberEscape c)
  | plain {c : Char} (notQuote : c ≠ '"') (notBackslash : c ≠ '\\') : Stands c [c]

theorem stands_visibleEscape (c : Char) : Stands c (visibleEscape '"' c) := by
  rw [visibleEscape]
  split_ifs with self zero tab carriage newline hidden
  · rcases self with rfl | rfl <;> exact .letter (by decide)
  · subst zero
    exact .letter (by decide)
  · subst tab
    exact .letter (by decide)
  · subst carriage
    exact .letter (by decide)
  · subst newline
    exact .letter (by decide)
  · exact .number c
  · exact .plain (fun same => self (.inl same)) fun same => self (.inr same)

section Quoted

variable {c c' : Char} {word word' rest rest' : List Char}

theorem letters_inj : ∀ found ∈ letters, ∀ found' ∈ letters, found.2 = found'.2 → found = found' := by
  decide

theorem letters_ne_u : ∀ found ∈ letters, found.2 ≠ 'u' := by decide

theorem numberEscape_append (c : Char) (rest : List Char) :
    numberEscape c ++ rest =
      '\\' :: 'u' :: '\x7b' :: (Nat.toDigits 16 c.toNat ++ '\x7d' :: rest) := by
  simp [numberEscape]

/-- What stands for a character is divided from what follows, and tells which character it is. -/
theorem Stands.append_inj (h : Stands c word) (h' : Stands c' word')
    (same : word ++ rest = word' ++ rest') : c = c' ∧ rest = rest' := by
  cases h with
  | letter mem =>
    cases h' with
    | letter mem' =>
      simp only [List.cons_append, List.nil_append, List.cons.injEq, true_and] at same
      obtain ⟨letter, rfl⟩ := same
      exact ⟨congrArg Prod.fst (letters_inj _ mem _ mem' letter), rfl⟩
    | number =>
      rw [numberEscape_append] at same
      simp only [List.cons_append, List.nil_append, List.cons.injEq, true_and] at same
      exact absurd same.1 (letters_ne_u _ mem)
    | plain _ notBackslash =>
      simp only [List.cons_append, List.cons.injEq] at same
      exact absurd same.1.symm notBackslash
  | number =>
    rw [numberEscape_append] at same
    cases h' with
    | letter mem' =>
      simp only [List.cons_append, List.nil_append, List.cons.injEq, true_and] at same
      exact absurd same.1.symm (letters_ne_u _ mem')
    | number =>
      rw [numberEscape_append] at same
      simp only [List.cons.injEq, true_and] at same
      obtain ⟨number, rest⟩ := toDigits_append_inj same
      exact ⟨Char.toNat_inj.mp number, rest⟩
    | plain _ notBackslash =>
      simp only [List.singleton_append, List.cons.injEq] at same
      exact absurd same.1.symm notBackslash
  | plain _ notBackslash =>
    cases h' with
    | letter =>
      simp only [List.cons_append, List.cons.injEq] at same
      exact absurd same.1 notBackslash
    | number =>
      rw [numberEscape_append] at same
      simp only [List.singleton_append, List.cons.injEq] at same
      exact absurd same.1 notBackslash
    | plain =>
      simp only [List.singleton_append, List.cons.injEq] at same
      exact same

theorem Stands.exists_cons (h : Stands c word) : ∃ d more, word = d :: more ∧ d ≠ '"' := by
  cases h with
  | letter => exact ⟨_, _, rfl, by decide⟩
  | number => exact ⟨_, _, rfl, by decide⟩
  | plain notQuote => exact ⟨_, _, rfl, notQuote⟩

theorem body_append_inj {cs cs' : List Char}
    (same : cs.flatMap (visibleEscape '"') ++ '"' :: rest =
      cs'.flatMap (visibleEscape '"') ++ '"' :: rest') : cs = cs' ∧ rest = rest' := by
  induction cs generalizing cs' with
  | nil =>
    cases cs' with
    | nil => exact ⟨rfl, (List.cons.inj same).2⟩
    | cons c' cs' =>
      obtain ⟨d, more, word, notQuote⟩ := (stands_visibleEscape c').exists_cons
      rw [List.flatMap_cons, word] at same
      exact absurd (List.cons.inj same).1.symm notQuote
  | cons c cs ih =>
    cases cs' with
    | nil =>
      obtain ⟨d, more, word, notQuote⟩ := (stands_visibleEscape c).exists_cons
      rw [List.flatMap_cons, word] at same
      exact absurd (List.cons.inj same).1 notQuote
    | cons c' cs' =>
      rw [List.flatMap_cons, List.flatMap_cons, List.append_assoc, List.append_assoc] at same
      obtain ⟨rfl, others⟩ := (stands_visibleEscape c).append_inj (stands_visibleEscape c') same
      obtain ⟨rfl, rest⟩ := ih others
      exact ⟨rfl, rest⟩

/-- Quoted text is divided from what follows, and tells which text it is. -/
theorem visibleQuoted_append_inj {s s' : String}
    (same : (visibleQuoted s).toList ++ rest = (visibleQuoted s').toList ++ rest') :
    s = s' ∧ rest = rest' := by
  simp only [visibleQuoted, String.toList_ofList, List.cons_append, List.append_assoc,
    List.cons.injEq, true_and] at same
  obtain ⟨content, rest⟩ := body_append_inj same
  exact ⟨String.toList_inj.mp content, rest⟩

end Quoted

end FormulaDoc.Text
