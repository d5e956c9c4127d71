import Mathlib
import FormulaDoc.Function.Text

/-!
# Slugs are canonical

A slug is made of runs of small ASCII letters and digits with single dashes between them. It keeps the
letters and digits of its text, and has a dash where something else stands between two of them. So a
slug is its own slug.
-/
namespace FormulaDoc

namespace Text

/-- The letters and digits of a text, letters in small form. -/
def kept (cs : List Char) : List Char := (cs.filter Char.isAlphanum).map Char.toLower

def withoutDashes (cs : List Char) : List Char := cs.filter (· != '-')

def isSlugChar (c : Char) : Bool := c.isLower || c.isDigit

def IsRun (run : List Char) : Prop := run ≠ [] ∧ ∀ c ∈ run, isSlugChar c = true

/-- Nothing, or runs with single dashes between them. -/
def IsSlug (cs : List Char) : Prop :=
  ∃ runs, (∀ run ∈ runs, IsRun run) ∧ cs = List.intercalate ['-'] runs

/-! ## Characters of slugs -/

section Characters

variable {c : Char}

theorem not_isUpper_of_isDigit (digit : c.isDigit = true) : ¬ c.isUpper := by
  simp only [Char.isDigit, Char.isUpper, Bool.and_eq_true, decide_eq_true_eq,
    UInt32.le_iff_toNat_le, ge_iff_le] at digit ⊢
  exact fun upper => absurd (upper.1.trans digit.2) (by decide)

theorem toLower_of_isSlugChar (small : isSlugChar c = true) : c.toLower = c := by
  apply Char.toLower_eq_of_not_isUpper
  rcases Bool.or_eq_true_iff.mp small with letter | digit
  · exact Char.not_isUpper_of_isLower letter
  · exact not_isUpper_of_isDigit digit

theorem isSlugChar_toLower (keeps : c.isAlphanum = true) : isSlugChar c.toLower = true := by
  rcases Bool.or_eq_true_iff.mp keeps with letter | digit
  · rw [isSlugChar, Char.isLower_toLower_eq_isAlpha, letter, Bool.true_or]
  · have small : isSlugChar c = true := Bool.or_eq_true_iff.mpr (.inr digit)
    rwa [toLower_of_isSlugChar small]

theorem isAlphanum_of_isSlugChar (small : isSlugChar c = true) : c.isAlphanum = true := by
  simp only [isSlugChar, Char.isAlphanum, Char.isAlpha, Bool.or_eq_true] at small ⊢
  tauto

theorem ne_dash_of_isSlugChar (small : isSlugChar c = true) : c ≠ '-' := by
  rintro rfl
  cases small

end Characters

/-! ## One character after another -/

section Steps

variable {started gap : Bool} {c : Char} {cs : List Char}

theorem slugFrom_cons_of_keeps (keeps : c.isAlphanum = true) :
    slugFrom started gap (c :: cs) =
      (if started && gap then ['-'] else []) ++ c.toLower :: slugFrom true false cs := by
  rw [slugFrom, if_pos keeps]
  split <;> rfl

theorem slugFrom_cons_of_drops (drops : c.isAlphanum = false) :
    slugFrom started gap (c :: cs) = slugFrom started true cs :=
  if_neg (by simp [drops])

theorem kept_cons_of_keeps (keeps : c.isAlphanum = true) : kept (c :: cs) = c.toLower :: kept cs := by
  rw [kept, List.filter_cons_of_pos keeps, List.map_cons, kept]

theorem kept_cons_of_drops (drops : c.isAlphanum = false) : kept (c :: cs) = kept cs := by
  rw [kept, List.filter_cons_of_neg (by simp [drops]), kept]

end Steps

theorem withoutDashes_append (cs ds : List Char) :
    withoutDashes (cs ++ ds) = withoutDashes cs ++ withoutDashes ds := List.filter_append _ _

theorem withoutDashes_cons_of_isSlugChar {c : Char} (small : isSlugChar c = true) (cs : List Char) :
    withoutDashes (c :: cs) = c :: withoutDashes cs :=
  List.filter_cons_of_pos (bne_iff_ne.mpr (ne_dash_of_isSlugChar small))

theorem withoutDashes_dash_if (p : Prop) [Decidable p] :
    withoutDashes (if p then ['-'] else []) = [] := by
  split <;> rfl

theorem withoutDashes_slugFrom (started gap : Bool) (cs : List Char) :
    withoutDashes (slugFrom started gap cs) = kept cs := by
  induction cs generalizing started gap with
  | nil => rfl
  | cons c cs ih =>
    cases keeps : c.isAlphanum with
    | true =>
      rw [slugFrom_cons_of_keeps keeps, kept_cons_of_keeps keeps, withoutDashes_append,
        withoutDashes_dash_if, List.nil_append,
        withoutDashes_cons_of_isSlugChar (isSlugChar_toLower keeps), ih]
    | false => rw [slugFrom_cons_of_drops keeps, kept_cons_of_drops keeps, ih]

/-- Of what has been read, the slug of the rest depends on two facts only. -/
theorem exists_slugFrom_append (started gap : Bool) (cs : List Char) :
    ∃ started' gap', ∀ ds,
      slugFrom started gap (cs ++ ds) = slugFrom started gap cs ++ slugFrom started' gap' ds := by
  induction cs generalizing started gap with
  | nil => exact ⟨started, gap, fun _ => rfl⟩
  | cons c cs ih =>
    cases keeps : c.isAlphanum with
    | true =>
      obtain ⟨started', gap', onward⟩ := ih true false
      refine ⟨started', gap', fun ds => ?_⟩
      rw [List.cons_append, slugFrom_cons_of_keeps keeps, slugFrom_cons_of_keeps keeps, onward,
        List.append_assoc, List.cons_append]
    | false =>
      obtain ⟨started', gap', onward⟩ := ih started true
      refine ⟨started', gap', fun ds => ?_⟩
      rw [List.cons_append, slugFrom_cons_of_drops keeps, slugFrom_cons_of_drops keeps, onward]

/-- What stands between two characters that are kept is a dash, or nothing. -/
theorem slugFrom_between {between : List Char} (gap : Bool)
    (dropped : ∀ c ∈ between, c.isAlphanum = false) {d : Char} (keeps : d.isAlphanum = true)
    (after : List Char) :
    slugFrom true gap (between ++ d :: after) =
      (if gap = true ∨ between ≠ [] then ['-'] else []) ++ d.toLower :: slugFrom true false after := by
  induction between generalizing gap with
  | nil =>
    rw [List.nil_append, slugFrom_cons_of_keeps keeps]
    simp
  | cons c between ih =>
    obtain ⟨here, later⟩ := List.forall_mem_cons.mp dropped
    rw [List.cons_append, slugFrom_cons_of_drops here, ih true later]
    simp

/-! ## Runs and dashes -/

/-- Runs, each with a dash in front. -/
def dashed (runs : List (List Char)) : List Char := runs.flatMap ('-' :: ·)

theorem dashed_cons (run : List Char) (runs : List (List Char)) :
    dashed (run :: runs) = '-' :: run ++ dashed runs := rfl

theorem intercalate_eq_dashed (run : List Char) (runs : List (List Char)) :
    List.intercalate ['-'] (run :: runs) = run ++ dashed runs := by
  induction runs generalizing run with
  | nil => simp [dashed, List.intercalate]
  | cons next runs ih =>
    rw [List.intercalate_cons_cons, ih, List.append_assoc]
    rfl

/-- After the first character the slug goes on with the rest of a run, and after a gap with a dash if it
goes on at all. -/
theorem exists_dashed (cs : List Char) :
    (∃ runs, (∀ run ∈ runs, IsRun run) ∧ slugFrom true true cs = dashed runs) ∧
    ∃ run runs, (∀ c ∈ run, isSlugChar c = true) ∧ (∀ run ∈ runs, IsRun run) ∧
      slugFrom true false cs = run ++ dashed runs := by
  induction cs with
  | nil => exact ⟨⟨[], by simp, rfl⟩, [], [], by simp, by simp, rfl⟩
  | cons c cs ih =>
    cases keeps : c.isAlphanum with
    | true =>
      obtain ⟨-, run, runs, letters, each, text⟩ := ih
      have longer : ∀ d ∈ c.toLower :: run, isSlugChar d = true :=
        List.forall_mem_cons.mpr ⟨isSlugChar_toLower keeps, letters⟩
      refine ⟨⟨(c.toLower :: run) :: runs, ?_, ?_⟩, c.toLower :: run, runs, longer, each, ?_⟩
      · exact List.forall_mem_cons.mpr ⟨⟨List.cons_ne_nil _ _, longer⟩, each⟩
      · rw [slugFrom_cons_of_keeps keeps, text]
        rfl
      · rw [slugFrom_cons_of_keeps keeps, text]
        rfl
    | false =>
      obtain ⟨⟨runs, each, text⟩, -⟩ := ih
      rw [slugFrom_cons_of_drops keeps, slugFrom_cons_of_drops keeps]
      exact ⟨⟨runs, each, text⟩, [], runs, by simp, each, text⟩

theorem isSlug_slugFrom (gap : Bool) (cs : List Char) : IsSlug (slugFrom false gap cs) := by
  induction cs generalizing gap with
  | nil => exact ⟨[], by simp, rfl⟩
  | cons c cs ih =>
    cases keeps : c.isAlphanum with
    | true =>
      obtain ⟨-, run, runs, letters, each, text⟩ := exists_dashed cs
      refine ⟨(c.toLower :: run) :: runs, ?_, ?_⟩
      · refine List.forall_mem_cons.mpr ⟨⟨List.cons_ne_nil _ _, ?_⟩, each⟩
        exact List.forall_mem_cons.mpr ⟨isSlugChar_toLower keeps, letters⟩
      · rw [slugFrom_cons_of_keeps keeps, text, intercalate_eq_dashed]
        rfl
    | false =>
      rw [slugFrom_cons_of_drops keeps]
      exact ih true

/-! ## The slug of a slug -/

theorem slugFrom_letters {run : List Char} (letters : ∀ c ∈ run, isSlugChar c = true)
    (cs : List Char) : slugFrom true false (run ++ cs) = run ++ slugFrom true false cs := by
  induction run with
  | nil => rfl
  | cons c run ih =>
    obtain ⟨small, later⟩ := List.forall_mem_cons.mp letters
    rw [List.cons_append, slugFrom_cons_of_keeps (isAlphanum_of_isSlugChar small),
      toLower_of_isSlugChar small, ih later]
    rfl

theorem slugFrom_run {run : List Char} (h : IsRun run) (started gap : Bool) (cs : List Char) :
    slugFrom started gap (run ++ cs) =
      (if started && gap then ['-'] else []) ++ run ++ slugFrom true false cs := by
  obtain ⟨some, letters⟩ := h
  obtain ⟨c, rest, rfl⟩ := List.exists_cons_of_ne_nil some
  obtain ⟨small, later⟩ := List.forall_mem_cons.mp letters
  rw [List.cons_append, slugFrom_cons_of_keeps (isAlphanum_of_isSlugChar small),
    toLower_of_isSlugChar small, slugFrom_letters later, List.append_assoc, List.cons_append]

theorem slugFrom_dashed {runs : List (List Char)} (each : ∀ run ∈ runs, IsRun run) :
    slugFrom true false (dashed runs) = dashed runs := by
  induction runs with
  | nil => rfl
  | cons run runs ih =>
    obtain ⟨here, later⟩ := List.forall_mem_cons.mp each
    have drops : '-'.isAlphanum = false := by decide
    rw [dashed_cons, List.cons_append, slugFrom_cons_of_drops drops, slugFrom_run here, ih later]
    rfl

theorem slug_of_isSlug {cs : List Char} (h : IsSlug cs) : slug cs = cs := by
  obtain ⟨runs, each, rfl⟩ := h
  cases runs with
  | nil => rfl
  | cons run runs =>
    obtain ⟨here, later⟩ := List.forall_mem_cons.mp each
    rw [intercalate_eq_dashed, slug, slugFrom_run here, slugFrom_dashed later]
    rfl

/-! ## Neighbours -/

/-- A letter or digit and the next one are next to each other in the slug, or there is one dash between
them if something is between them in the text. -/
theorem slug_of_neighbours {before between after : List Char} {c d : Char}
    (keeps : c.isAlphanum = true) (keeps' : d.isAlphanum = true)
    (dropped : ∀ x ∈ between, x.isAlphanum = false) :
    ∃ left right, slug (before ++ c :: between ++ d :: after) =
        left ++ c.toLower :: (if between = [] then [] else ['-']) ++ d.toLower :: right ∧
      withoutDashes left = kept before ∧ withoutDashes right = kept after := by
  obtain ⟨started, gap, onward⟩ := exists_slugFrom_append false false before
  refine ⟨slugFrom false false before ++ if started && gap then ['-'] else [],
    slugFrom true false after, ?_, ?_, withoutDashes_slugFrom true false after⟩
  · rw [slug, List.append_assoc, List.cons_append, onward, slugFrom_cons_of_keeps keeps,
      slugFrom_between false dropped keeps']
    by_cases none : between = [] <;> simp [none]
  · rw [withoutDashes_append, withoutDashes_dash_if, withoutDashes_slugFrom, List.append_nil]

end Text

/-- Whatever its argument, `SLUGIFY` gives a slug, which it leaves as it is. -/
theorem Function.slugify_canonical (s : String) (context : CallContext) :
    ∃ slug : String, slugify.call [.string s] context = .ok (.string slug) ∧
      Text.IsSlug slug.toList ∧
      Text.withoutDashes slug.toList = Text.kept s.toList ∧
      (∀ before c between d after, s.toList = before ++ c :: between ++ d :: after →
        c.isAlphanum = true → d.isAlphanum = true → (∀ x ∈ between, x.isAlphanum = false) →
        ∃ left right, slug.toList =
            left ++ c.toLower :: (if between = [] then [] else ['-']) ++ d.toLower :: right ∧
          Text.withoutDashes left = Text.kept before ∧
          Text.withoutDashes right = Text.kept after) ∧
      ∀ context', slugify.call [.string slug] context' = .ok (.string slug) := by
  have text : (String.ofList (Text.slug s.toList)).toList = Text.slug s.toList := String.toList_ofList
  have canonical : Text.IsSlug (Text.slug s.toList) := Text.isSlug_slugFrom false s.toList
  refine ⟨String.ofList (Text.slug s.toList), rfl, ?_, ?_, ?_, ?_⟩
  · rwa [text]
  · rw [text]
    exact Text.withoutDashes_slugFrom false false s.toList
  · intro before c between d after whole keeps keeps' dropped
    rw [text, whole]
    exact Text.slug_of_neighbours keeps keeps' dropped
  · intro context'
    have again : Text.slug (String.ofList (Text.slug s.toList)).toList = Text.slug s.toList := by
      rw [text, Text.slug_of_isSlug canonical]
    exact congrArg (fun cs => Except.ok (Value.string (String.ofList cs))) again

/-- Of two letters with a comma and a space between them, the slug has one dash in between. -/
theorem Function.slugify_canonical_gap :
    "Ab, C!".toList = ['A'] ++ 'b' :: [',', ' '] ++ 'C' :: ['!'] ∧
      ∃ slug : String, slugify.call [.string "Ab, C!"] ⟨0.0, 0⟩ = .ok (.string slug) ∧
        ∃ left right, slug.toList = left ++ 'b' :: ['-'] ++ 'c' :: right ∧
          Text.withoutDashes left = ['a'] ∧ Text.withoutDashes right = [] := by
  obtain ⟨slug, returned, -, -, neighbours, -⟩ := slugify_canonical "Ab, C!" ⟨0.0, 0⟩
  have whole : "Ab, C!".toList = ['A'] ++ 'b' :: [',', ' '] ++ 'C' :: ['!'] := by decide
  have dropped : ∀ x ∈ [',', ' '], x.isAlphanum = false :=
    List.forall_mem_cons.mpr ⟨rfl, List.forall_mem_singleton.mpr rfl⟩
  exact ⟨whole, slug, returned, neighbours _ _ _ _ _ whole rfl rfl dropped⟩

end FormulaDoc
