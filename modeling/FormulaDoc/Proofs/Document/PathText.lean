import FormulaDoc.Document.Path
import FormulaDoc.Proofs.Text.Division

/-!
# The text of a path tells the path

The text of a step begins in a way that no step goes on in, so that a path's text is divided into those
of its steps in one way only: a word ends before the next dot or bracket, and what is in brackets is
either quoted or a number. Hence two paths have the same text only if they are the same.
-/
namespace FormulaDoc

/-- What may stand after the text of a step: nothing, or the beginning of another step. -/
def BeginsStep (rest : List Char) : Prop := ∀ c ∈ rest.head?, c = '.' ∨ c = '['

namespace Step

/-- The text of a step behind another one. -/
inductive Shows : Step → List Char → Prop where
  | word {name : String} (word : Text.isWord name.toList = true) : Shows (.key name) ('.' :: name.toList)
  | quoted {name : String} (odd : Text.isWord name.toList = false) :
      Shows (.key name) ('[' :: (Text.visibleQuoted name).toList ++ [']'])
  | number (position : Nat) : Shows (.index position) ('[' :: Nat.toDigits 10 position ++ [']'])

variable {step step' : Step} {word word' rest rest' : List Char}

theorem shows_text (step : Step) : Shows step (step.text false).toList := by
  cases step with
  | key name =>
    by_cases isWord : Text.isWord name.toList = true
    · simpa [text, isWord] using Shows.word isWord
    · simpa [text, isWord] using Shows.quoted (Bool.eq_false_iff.mpr isWord)
  | index position =>
    have digits : (toString position).toList = Nat.toDigits 10 position := by
      rw [Nat.toString_eq_ofList_toDigits, String.toList_ofList]
    simpa [text, digits] using Shows.number position

/-- The text of a first step is that of a later one, but for the dot before a word. -/
theorem text_first (step : Step) :
    step.text true = step.text false ∨
      ∃ name, step = .key name ∧ Text.isWord name.toList = true ∧ step.text true = name := by
  cases step with
  | key name =>
    by_cases isWord : Text.isWord name.toList = true
    · exact .inr ⟨name, rfl, isWord, by simp [text, isWord]⟩
    · exact .inl (by simp [text, isWord])
  | index position => exact .inl rfl

theorem Shows.ne_nil (shows_ : Shows step word) : word ≠ [] := by
  cases shows_ <;> exact List.cons_ne_nil _ _

theorem beginsStep (shows_ : Shows step word) (rest : List Char) : BeginsStep (word ++ rest) := by
  intro c first
  cases shows_ with
  | word => exact .inl (Option.some.inj first).symm
  | quoted | number => exact .inr (Option.some.inj first).symm

theorem endsRun_of_beginsStep (begins : BeginsStep rest) : Text.EndsRun Text.isWordChar rest := by
  intro c first
  rcases begins c first with rfl | rfl <;> rfl

/-- Words with beginnings of steps behind them. -/
theorem word_append_inj {name name' : String} (isWord : Text.isWord name.toList = true)
    (isWord' : Text.isWord name'.toList = true) (begins : BeginsStep rest) (begins' : BeginsStep rest')
    (same : name.toList ++ rest = name'.toList ++ rest') : name = name' ∧ rest = rest' := by
  obtain ⟨names, rests⟩ := Text.run_append_inj (Text.isWordChar_of_isWord isWord)
    (Text.isWordChar_of_isWord isWord') (endsRun_of_beginsStep begins) (endsRun_of_beginsStep begins') same
  exact ⟨String.toList_inj.mp names, rests⟩

theorem digits_append_inj {m n : Nat}
    (same : Nat.toDigits 10 m ++ ']' :: rest = Nat.toDigits 10 n ++ ']' :: rest') :
    m = n ∧ rest = rest' := by
  have digit (k : Nat) : ∀ c ∈ Nat.toDigits 10 k, c.isDigit = true :=
    fun c => Nat.isDigit_of_mem_toDigits (by decide) (by decide)
  obtain ⟨digits, closed⟩ := Text.run_append_inj (digit m) (digit n) (Text.endsRun_cons rfl rest)
    (Text.endsRun_cons rfl rest') same
  exact ⟨Text.decimal_injective digits, (List.cons.inj closed).2⟩

/-- A quoted key begins with a quote, and no number does. -/
theorem quoted_ne_number {name : String} {position : Nat}
    (same : (Text.visibleQuoted name).toList ++ rest = Nat.toDigits 10 position ++ rest') : False := by
  obtain ⟨c, cs, digits⟩ := List.exists_cons_of_ne_nil (Nat.toDigits_ne_nil (n := position) (b := 10))
  have digit : c.isDigit = true :=
    Nat.isDigit_of_mem_toDigits (n := position) (by decide) (by decide)
      (digits ▸ List.mem_cons_self)
  rw [digits, Text.visibleQuoted, String.toList_ofList] at same
  rw [← (List.cons.inj same).1] at digit
  exact absurd digit (by decide)

/-- The text of a step is divided from the steps that follow, and tells which step it is. -/
theorem Shows.append_inj (h : Shows step word) (h' : Shows step' word') (begins : BeginsStep rest)
    (begins' : BeginsStep rest') (same : word ++ rest = word' ++ rest') : step = step' ∧ rest = rest' := by
  cases h with
  | word isWord =>
    cases h' with
    | word isWord' =>
      obtain ⟨rfl, rests⟩ := word_append_inj isWord isWord' begins begins' (List.cons.inj same).2
      exact ⟨rfl, rests⟩
    | quoted | number => exact absurd (List.cons.inj same).1 (by decide)
  | quoted =>
    cases h' with
    | word => exact absurd (List.cons.inj same).1 (by decide)
    | quoted =>
      simp only [List.cons_append, List.append_assoc, List.cons.injEq, true_and] at same
      obtain ⟨rfl, closed⟩ := Text.visibleQuoted_append_inj same
      exact ⟨rfl, (List.cons.inj closed).2⟩
    | number =>
      simp only [List.cons_append, List.append_assoc, List.cons.injEq, true_and] at same
      exact (quoted_ne_number same).elim
  | number =>
    cases h' with
    | word => exact absurd (List.cons.inj same).1 (by decide)
    | quoted =>
      simp only [List.cons_append, List.append_assoc, List.cons.injEq, true_and] at same
      exact (quoted_ne_number same.symm).elim
    | number =>
      simp only [List.cons_append, List.append_assoc, List.cons.injEq, true_and] at same
      obtain ⟨rfl, rests⟩ := digits_append_inj same
      exact ⟨rfl, rests⟩

end Step

namespace DocPath

theorem beginsStep_tailText (steps : List Step) : BeginsStep (tailText steps).toList := by
  cases steps with
  | nil => exact nofun
  | cons step rest =>
    rw [tailText, String.toList_append]
    exact Step.beginsStep step.shows_text _

/-- A rest that begins a step is no word. -/
theorem ne_word_of_beginsStep {name : String} {rest rest' : List Char} (begins : BeginsStep rest)
    (isWord : Text.isWord name.toList = true) : rest ≠ name.toList ++ rest' := by
  rintro rfl
  obtain ⟨c, cs, letters, start⟩ := Text.exists_cons_of_isWord isWord
  rw [letters] at begins
  rcases begins c rfl with rfl | rfl <;> cases start

theorem tailText_injective : Function.Injective tailText := by
  intro steps
  induction steps with
  | nil =>
    intro steps' same
    cases steps' with
    | nil => rfl
    | cons step' rest' =>
      have text := congrArg String.toList same
      rw [tailText, tailText, String.toList_append] at text
      exact absurd (List.append_eq_nil_iff.mp text.symm).1 step'.shows_text.ne_nil
  | cons step rest ih =>
    intro steps' same
    have text := congrArg String.toList same
    cases steps' with
    | nil =>
      rw [tailText, tailText, String.toList_append] at text
      exact absurd (List.append_eq_nil_iff.mp text).1 step.shows_text.ne_nil
    | cons step' rest' =>
      rw [tailText, tailText, String.toList_append, String.toList_append] at text
      obtain ⟨rfl, rests⟩ := step.shows_text.append_inj step'.shows_text (beginsStep_tailText rest)
        (beginsStep_tailText rest') text
      rw [ih (String.toList_inj.mp rests)]

/-- The first step shows no dot, and its text is divided from the others all the same. -/
theorem first_append_inj {step step' : Step} {rest rest' : List Char} (begins : BeginsStep rest)
    (begins' : BeginsStep rest')
    (same : (step.text true).toList ++ rest = (step'.text true).toList ++ rest') :
    step = step' ∧ rest = rest' := by
  rcases step.text_first with later | ⟨name, rfl, isWord, first⟩ <;>
    rcases step'.text_first with later' | ⟨name', rfl, isWord', first'⟩
  · rw [later, later'] at same
    exact step.shows_text.append_inj step'.shows_text begins begins' same
  · rw [later, first'] at same
    exact (ne_word_of_beginsStep (Step.beginsStep step.shows_text rest) isWord' same).elim
  · rw [first, later'] at same
    exact (ne_word_of_beginsStep (Step.beginsStep step'.shows_text rest') isWord same.symm).elim
  · rw [first, first'] at same
    obtain ⟨rfl, rests⟩ := Step.word_append_inj isWord isWord' begins begins' same
    exact ⟨rfl, rests⟩

theorem text_ne_dollar (step : Step) (rest : List Step) : text (step :: rest) ≠ "$" := by
  intro same
  have text := congrArg String.toList same
  rw [DocPath.text, String.toList_append] at text
  have dollar : "$".toList = ['$'] := by decide
  rcases step.text_first with later | ⟨name, -, isWord, first⟩
  · have begins := Step.beginsStep step.shows_text (tailText rest).toList
    rw [← later, text, dollar] at begins
    rcases begins '$' rfl with other | other <;> cases other
  · obtain ⟨c, cs, letters, start⟩ := Text.exists_cons_of_isWord isWord
    rw [first, dollar, letters, List.cons_append, List.cons.injEq] at text
    rw [text.1] at start
    cases start

theorem text_injective : Function.Injective text := by
  intro path path' same
  cases path with
  | nil =>
    cases path' with
    | nil => rfl
    | cons step' rest' => exact absurd same.symm (text_ne_dollar step' rest')
  | cons step rest =>
    cases path' with
    | nil => exact absurd same (text_ne_dollar step rest)
    | cons step' rest' =>
      have text := congrArg String.toList same
      rw [DocPath.text, DocPath.text, String.toList_append, String.toList_append] at text
      obtain ⟨rfl, rests⟩ := first_append_inj (beginsStep_tailText rest) (beginsStep_tailText rest') text
      rw [tailText_injective (String.toList_inj.mp rests)]

/-- Paths with the same text are the same, whatever their keys hold. Only the root is written `$`, and
no path that ends with a key is written like one that ends with a position. -/
theorem text_unambiguous :
    (∀ path path' : DocPath, path.text = path'.text → path = path') ∧
    (∀ path : DocPath, path.text = "$" ↔ path = root) ∧
    ∀ (path path' : DocPath) (name : String) (position : Nat),
      (path.key name).text ≠ (path'.index position).text := by
  refine ⟨fun path path' same => text_injective same, ?_, ?_⟩
  · intro path
    constructor
    · intro same
      exact text_injective (same.trans text_root.symm)
    · rintro rfl
      exact text_root
  · intro path path' name position same
    have last := (List.append_inj' (text_injective same) rfl).2
    cases last

/-- A key of digits is quoted, and a key that looks like quoted text is escaped. -/
example : text [.key "2"] = "[\"2\"]" ∧ text [.index 2] = "[2]" ∧
    text [.key "\"]", .key "a"] = "[\"\\\"]\"].a" := by decide

end DocPath

end FormulaDoc
