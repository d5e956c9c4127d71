import FormulaDoc.Number.Decimal
import FormulaDoc.Proofs.Text.Division

/-!
# Lines

A text falls into lines at its newlines. Where texts are joined by newlines, the lines of the whole are
those of the texts one after another, so that each text is one line exactly if none of them has a
newline of its own. Words, numbers and quoted text have none.
-/
namespace FormulaDoc.Text

def lines (s : String) : List String := (s.toList.splitOn '\n').map String.ofList

def newlines (s : String) : Nat := s.toList.count '\n'

theorem newlines_eq_zero_iff {s : String} : newlines s = 0 ↔ '\n' ∉ s.toList := List.count_eq_zero

@[simp] theorem newlines_append (s t : String) : newlines (s ++ t) = newlines s + newlines t := by
  rw [newlines, String.toList_append, List.count_append, newlines, newlines]

theorem newlines_append_eq_zero {s t : String} :
    newlines (s ++ t) = 0 ↔ newlines s = 0 ∧ newlines t = 0 := by
  rw [newlines_append, Nat.add_eq_zero_iff]

theorem newlines_append_of_right {s t : String} (none : newlines t = 0) :
    newlines (s ++ t) = newlines s := by
  rw [newlines_append, none, Nat.add_zero]

theorem newlines_append_of_left {s t : String} (none : newlines s = 0) :
    newlines (s ++ t) = newlines t := by
  rw [newlines_append, none, Nat.zero_add]

/-- A literal is such a text, of characters that are known. -/
theorem newlines_ofList (cs : List Char) : newlines (String.ofList cs) = cs.count '\n' := by
  rw [newlines, String.toList_ofList]

/-! ## Falling into lines -/

theorem length_splitOn (cs : List Char) : (cs.splitOn '\n').length = cs.count '\n' + 1 := by
  induction cs with
  | nil => rfl
  | cons c cs ih =>
    rw [List.splitOn_cons_eq_if_modifyHead, List.count_cons]
    split
    · rw [List.length_cons, ih]
    · rw [List.length_modifyHead, ih]

theorem length_lines (s : String) : (lines s).length = newlines s + 1 := by
  rw [lines, List.length_map, length_splitOn, newlines]

theorem lines_of_newlines {s : String} (none : newlines s = 0) : lines s = [s] := by
  have plain : ∀ c ∈ s.toList, (c == '\n') = false := by
    rintro c mem
    exact beq_false_of_ne fun same => newlines_eq_zero_iff.mp none (same ▸ mem)
  rw [lines, List.splitOn_eq_splitOnP, List.splitOnP_eq_singleton plain, List.map_singleton,
    String.ofList_toList]

theorem lines_append (s t : String) : lines (s ++ "\n" ++ t) = lines s ++ lines t := by
  have whole : (s ++ "\n" ++ t).toList = s.toList ++ '\n' :: t.toList := by simp
  have divided : (s.toList ++ '\n' :: t.toList).splitOn '\n' =
      s.toList.splitOn '\n' ++ t.toList.splitOn '\n' := List.splitOnP_append_cons _ _ rfl
  rw [lines, whole, divided, List.map_append, lines, lines]

section Joined

variable {texts : List String}

/-- Texts joined by newlines have the lines of each of them. -/
theorem lines_intercalate (some : texts ≠ []) :
    lines (String.intercalate "\n" texts) = texts.flatMap lines := by
  induction texts with
  | nil => exact absurd rfl some
  | cons s rest ih =>
    cases rest with
    | nil => rw [String.intercalate_singleton, List.flatMap_singleton]
    | cons t rest =>
      rw [String.intercalate_cons_cons, lines_append, ih (List.cons_ne_nil t rest), ← List.flatMap_cons]

theorem length_le_flatMap_lines (texts : List String) :
    texts.length ≤ (texts.flatMap lines).length := by
  induction texts with
  | nil => exact Nat.le_refl _
  | cons s rest ih =>
    rw [List.flatMap_cons, List.length_append, length_lines, List.length_cons]
    omega

/-- Texts joined by newlines are the lines of the whole exactly if each of them is one line. -/
theorem lines_intercalate_eq_iff (some : texts ≠ []) :
    lines (String.intercalate "\n" texts) = texts ↔ ∀ s ∈ texts, newlines s = 0 := by
  rw [lines_intercalate some]
  constructor
  · intro same
    clear some
    induction texts with
    | nil => exact List.forall_mem_nil _
    | cons s rest ih =>
      rw [List.flatMap_cons] at same
      have longer := length_le_flatMap_lines rest
      have all := congrArg List.length same
      rw [List.length_append, length_lines, List.length_cons] at all
      have none : newlines s = 0 := by omega
      rw [lines_of_newlines none, List.singleton_append] at same
      exact List.forall_mem_cons.mpr ⟨none, ih (List.cons.inj same).2⟩
  · intro none
    rw [List.flatMap_congr fun s mem => lines_of_newlines (none s mem), List.flatMap_singleton']

end Joined

/-! ## Texts without newlines -/

theorem newlines_of_all {p : Char → Bool} {s : String} (all : ∀ c ∈ s.toList, p c = true)
    (other : p '\n' = false) : newlines s = 0 := by
  refine newlines_eq_zero_iff.mpr fun mem => ?_
  rw [all _ mem] at other
  cases other

theorem newlines_of_isWord {s : String} (isWord : Text.isWord s.toList = true) : newlines s = 0 :=
  newlines_of_all (isWordChar_of_isWord isWord) rfl

@[simp] theorem newlines_natural (n : Nat) : newlines (toString n) = 0 := by
  refine newlines_of_all (p := Char.isDigit) ?_ rfl
  rw [Nat.toString_eq_ofList_toDigits, String.toList_ofList]
  exact fun c => Nat.isDigit_of_mem_toDigits (by decide) (by decide)

@[simp] theorem newlines_integer (i : Int) : newlines (toString i) = 0 := by
  cases i with
  | ofNat n => exact newlines_natural n
  | negSucc n =>
    show newlines ("-" ++ toString (n + 1)) = 0
    rw [newlines_append_of_right (newlines_natural _)]
    exact newlines_ofList _

theorem newline_not_mem_positional (n : Nat) (exponent : Int) :
    '\n' ∉ Decimal.positional n exponent := by
  have digits : '\n' ∉ Decimal.digits n := fun mem =>
    absurd (Nat.isDigit_of_mem_toDigits (by decide) (by decide) mem) (by decide)
  have zeros (k : Nat) : '\n' ∉ List.replicate k '0' := fun mem =>
    absurd (List.eq_of_mem_replicate mem) (by decide)
  simp only [Decimal.positional]
  split
  · exact fun mem => (List.mem_append.mp mem).elim digits (zeros _)
  · split <;> simp only [List.mem_append, List.mem_cons, not_or]
    · exact ⟨fun mem => digits (List.mem_of_mem_take mem), by decide,
        fun mem => digits (List.mem_of_mem_drop mem)⟩
    · exact ⟨by decide, by decide, zeros _, digits⟩

@[simp] theorem newlines_decimal (x : Float) : newlines (Decimal.text x) = 0 := by
  have sign : '\n' ∉ if Binary64.isNegative x then ['-'] else [] := by
    split <;> decide
  have magnitude : '\n' ∉ Decimal.magnitudeText (Binary64.magnitude x) := by
    rw [Decimal.magnitudeText]
    split
    · decide
    · exact newline_not_mem_positional _ _
  rw [newlines_eq_zero_iff]
  simp only [Decimal.text]
  generalize (if Binary64.isNegative x then ['-'] else []) = signs at sign ⊢
  split
  · decide
  · split <;> rw [String.toList_ofList, List.mem_append, not_or]
    · exact ⟨sign, by decide⟩
    · exact ⟨sign, magnitude⟩

/-! ## Quoted text -/

theorem newline_not_mem_visibleEscape {quote : Char} (other : quote ≠ '\n') (c : Char) :
    '\n' ∉ visibleEscape quote c := by
  rw [visibleEscape]
  split_ifs with self zero tab carriage newline hidden
  · rcases self with rfl | rfl
    · simpa using other.symm
    · decide
  · decide
  · decide
  · decide
  · decide
  · have digits : '\n' ∉ Nat.toDigits 16 c.toNat := by
      intro mem
      obtain ⟨d, small, same⟩ := exists_digit_of_mem_toDigits mem
      have none : ∀ d < 16, '\n' ≠ Nat.digitChar d := by decide
      exact none d small same
    simp [numberEscape, digits]
  · simpa using Ne.symm newline

@[simp] theorem newlines_visibleQuoted (s : String) : newlines (visibleQuoted s) = 0 := by
  have content : '\n' ∉ s.toList.flatMap (visibleEscape '"') := by
    rw [List.mem_flatMap]
    rintro ⟨c, -, mem⟩
    exact newline_not_mem_visibleEscape (by decide) c mem
  rw [newlines_eq_zero_iff, visibleQuoted, String.toList_ofList]
  simp [content]

@[simp] theorem newlines_visibleQuotedChar (c : Char) : newlines (visibleQuotedChar c) = 0 := by
  rw [newlines_eq_zero_iff, visibleQuotedChar, String.toList_ofList]
  simp [newline_not_mem_visibleEscape (show '\'' ≠ '\n' by decide) c]

/-! ## Messages -/

/-- All newlines of a message are those of a text that it quotes as it is. -/
structure Tidy (quotes : String → Prop) (message : String) : Prop where
  quoted : ∀ raw, quotes raw → newlines message = newlines raw
  unquoted : (∀ raw, ¬ quotes raw) → newlines message = 0

/-- A message has a newline exactly if a text that it quotes as it is has one. -/
theorem Tidy.newlines_eq_zero_iff {quotes : String → Prop} {message : String}
    (tidy : Tidy quotes message) :
    newlines message = 0 ↔ ∀ raw, quotes raw → newlines raw = 0 := by
  constructor
  · intro none raw quoted
    rw [← tidy.quoted raw quoted, none]
  · intro none
    by_cases quoted : ∃ raw, quotes raw
    · obtain ⟨raw, quoted⟩ := quoted
      rw [tidy.quoted raw quoted, none raw quoted]
    · exact tidy.unquoted (not_exists.mp quoted)

end FormulaDoc.Text
