import Mathlib.Data.String.Basic
import FormulaDoc.Evaluation.Operation
import FormulaDoc.Proofs.Document.Equality

/-!
# Equality and ordering agree

Two values are compared in order where both are numbers or both are texts, and for equality whatever they
are. Where both comparisons make sense they agree: of two numbers or texts the first is less, equal or
greater, and only one of these, unless one of them is NaN.
-/
namespace FormulaDoc

open Binary64 (isNaN place)

namespace Value

variable {a b : Value} {outcome : Option Ordering}

/-! ## Ordering -/

theorem compareNumbers_eq (a b : Float) :
    compareNumbers a b =
      if isNaN a || isNaN b then none else some (compare (place a) (place b)) := by
  by_cases number : isNaN a = true ∨ isNaN b = true
  · rcases number with number | number <;> simp [compareNumbers, Binary64.less, Binary64.equal, number]
  · obtain ⟨number, number'⟩ : isNaN a = false ∧ isNaN b = false := by simpa using number
    simp only [compareNumbers, Binary64.less, Binary64.equal, number, number']
    rcases Int.lt_trichotomy (place a) (place b) with less | same | greater
    · simp [less, Int.compare_eq_lt.mpr less]
    · simp [same]
    · simp [greater, Int.compare_eq_gt.mpr greater, Int.ne_of_gt greater, Int.le_of_lt greater]

theorem compareNumbers_swap (a b : Float) :
    compareNumbers b a = (compareNumbers a b).map Ordering.swap := by
  rw [compareNumbers_eq, compareNumbers_eq, Bool.or_comm]
  split
  · rfl
  · rw [Option.map_some, ← Std.OrientedCmp.eq_swap]

theorem compareTexts_eq (a b : String) : compareTexts a b = compare a b := rfl

theorem compare?_swap (a b : Value) : b.compare? a = (a.compare? b).map (Option.map Ordering.swap) := by
  cases a with
  | number n =>
    cases b with
    | number n' => simp only [compare?, compareNumbers_swap n n', Option.map_some]
    | _ => rfl
  | string s =>
    cases b with
    | string s' =>
      simp only [compare?, compareTexts_eq, Option.map_some, ← Std.OrientedCmp.eq_swap]
    | _ => rfl
  | _ => cases b <;> rfl

/-- Values that are compared in order are two numbers or two texts. -/
theorem compare?_cases (h : a.compare? b = some outcome) :
    (∃ n n', a = number n ∧ b = number n' ∧ outcome = compareNumbers n n') ∨
      ∃ s s', a = string s ∧ b = string s' ∧ outcome = some (compareTexts s s') := by
  cases a with
  | number n =>
    cases b with
    | number n' => exact .inl ⟨n, n', rfl, rfl, (Option.some.inj h).symm⟩
    | _ => cases h
  | string s =>
    cases b with
    | string s' => exact .inr ⟨s, s', rfl, rfl, (Option.some.inj h).symm⟩
    | _ => cases h
  | _ => cases b <;> cases h

theorem isNone_of_compare? (h : a.compare? b = some outcome) :
    outcome.isNone = (a.containsNaN || b.containsNaN) := by
  rcases compare?_cases h with ⟨n, n', rfl, rfl, rfl⟩ | ⟨s, s', rfl, rfl, rfl⟩
  · rw [compareNumbers_eq, containsNaN, containsNaN]
    cases isNaN n || isNaN n' <;> rfl
  · rfl

theorem equals_of_compare? (h : a.compare? b = some outcome) :
    equals a b = (outcome == some .eq) := by
  rcases compare?_cases h with ⟨n, n', rfl, rfl, rfl⟩ | ⟨s, s', rfl, rfl, rfl⟩
  · have same : decide (place n = place n') = (compare (place n) (place n') == .eq) := by
      rw [Bool.eq_iff_iff, decide_eq_true_iff, beq_iff_eq, compare_eq_iff_eq]
    rw [compareNumbers_eq, equals, Binary64.equal]
    cases isNaN n <;> cases isNaN n' <;> simp [same]
  · simp [equals, compareTexts_eq]

end Value

namespace BinaryOp

variable {op : BinaryOp} {a b : Value} {outcome : Option Ordering}

/-- Whether an operation comes to true. -/
def IsTrue (op : BinaryOp) (a b : Value) : Prop := op.apply a b = .ok (.bool true)

def IsTypeError (op : BinaryOp) (a b : Value) : Prop :=
  ∃ e, op.apply a b = .error e ∧ e.kind = .type

theorem apply_eq_ok (a b : Value) : eq.apply a b = .ok (.bool (a.equals b)) := rfl

theorem apply_ne_ok (a b : Value) : ne.apply a b = .ok (.bool !a.equals b) := rfl

theorem isTrue_eq_iff : eq.IsTrue a b ↔ a.equals b = true := by
  rw [IsTrue, apply_eq_ok, Except.ok.injEq, Value.bool.injEq]

theorem apply_of_isComparison (comparison : op.isComparison = true) (a b : Value) :
    op.apply a b = op.compareValues a b := by
  cases op with
  | lt | le | gt | ge => rfl
  | _ => cases comparison

theorem apply_of_compare? (comparison : op.isComparison = true) (h : a.compare? b = some outcome) :
    op.apply a b = .ok (.bool ((outcome.map op.holds).getD false)) := by
  rw [apply_of_isComparison comparison, compareValues, h]

theorem isTrue_iff_of_compare? (comparison : op.isComparison = true)
    (h : a.compare? b = some outcome) :
    op.IsTrue a b ↔ ∃ ordering, outcome = some ordering ∧ op.holds ordering = true := by
  rw [IsTrue, apply_of_compare? comparison h]
  cases outcome <;> simp

/-- What is neither two numbers nor two texts is not compared in order. -/
theorem exists_compare? (h : ¬ lt.IsTypeError a b) : ∃ outcome, a.compare? b = some outcome := by
  cases compared : a.compare? b with
  | none =>
    refine absurd ⟨lt.mismatch a b, ?_, rfl⟩ h
    rw [apply_of_isComparison rfl, compareValues, compared]
  | some outcome => exact ⟨outcome, rfl⟩

theorem compare?_flip (h : a.compare? b = some outcome) :
    b.compare? a = some (outcome.map Ordering.swap) := by
  rw [Value.compare?_swap, h, Option.map_some]

/-! ## Both at once -/

section Compared

variable (h : a.compare? b = some outcome)

include h

theorem isTrue_eq_iff_of_compare? : eq.IsTrue a b ↔ outcome = some .eq := by
  rw [isTrue_eq_iff, Value.equals_of_compare? h, beq_iff_eq]

/-- A comparison that holds for one ordering only. -/
theorem isTrue_iff_outcome (comparison : op.isComparison = true) {expected : Ordering}
    (only : ∀ ordering, op.holds ordering = (ordering == expected)) :
    op.IsTrue a b ↔ outcome = some expected := by
  rw [isTrue_iff_of_compare? comparison h]
  cases outcome <;> simp [only]

theorem isTrue_lt_iff_of_compare? : lt.IsTrue a b ↔ outcome = some .lt :=
  isTrue_iff_outcome h rfl fun _ => rfl

theorem isTrue_gt_iff_of_compare? : gt.IsTrue a b ↔ outcome = some .gt :=
  isTrue_iff_outcome h rfl fun _ => rfl

theorem isTrue_le_iff : le.IsTrue a b ↔ lt.IsTrue a b ∨ eq.IsTrue a b := by
  rw [isTrue_lt_iff_of_compare? h, isTrue_eq_iff_of_compare? h, isTrue_iff_of_compare? rfl h]
  constructor
  · rintro ⟨ordering, rfl, some⟩
    cases ordering with
    | lt => exact .inl rfl
    | eq => exact .inr rfl
    | gt => cases some
  · rintro (rfl | rfl)
    · exact ⟨.lt, rfl, rfl⟩
    · exact ⟨.eq, rfl, rfl⟩

/-- A comparison says the same as the opposite one the other way round. -/
theorem isTrue_iff_swap {op' : BinaryOp} (comparison : op.isComparison = true)
    (comparison' : op'.isComparison = true)
    (opposite : ∀ ordering, op.holds ordering = op'.holds ordering.swap) :
    op.IsTrue a b ↔ op'.IsTrue b a := by
  rw [isTrue_iff_of_compare? comparison h, isTrue_iff_of_compare? comparison' (compare?_flip h)]
  cases outcome <;> simp [opposite]

end Compared

/-- Equality is symmetric, transitive and indifferent to the order of members, and a value is equal to
itself unless NaN is inside. Where two values are compared in order, all four comparisons are, the other
way round too, and agree with each other and with equality: exactly one of less, equal and greater is
true, and none of them with NaN. -/
theorem equality_and_order_agree {a b c : Value} (wellFormed : a.WellFormed)
    (wellFormed' : b.WellFormed) :
    ((∃ equal, eq.apply a b = .ok (.bool equal) ∧ eq.apply b a = .ok (.bool equal) ∧
        ne.apply a b = .ok (.bool !equal)) ∧
      (eq.IsTrue a b → eq.IsTrue b c → eq.IsTrue a c) ∧
      (eq.IsTrue a a ↔ a.containsNaN = false) ∧
      ∀ a' b', a.Reordered a' → b.Reordered b' → eq.apply a' b' = eq.apply a b) ∧
    (¬ lt.IsTypeError a b →
      (∀ op : BinaryOp, op.isComparison = true →
        (∃ answer, op.apply a b = .ok (.bool answer)) ∧
          ∃ answer, op.apply b a = .ok (.bool answer)) ∧
      (le.IsTrue a b ↔ lt.IsTrue a b ∨ eq.IsTrue a b) ∧
      (gt.IsTrue a b ↔ lt.IsTrue b a) ∧
      (ge.IsTrue a b ↔ le.IsTrue b a) ∧
      (a.containsNaN = false → b.containsNaN = false →
        (lt.IsTrue a b ∧ ¬ eq.IsTrue a b ∧ ¬ gt.IsTrue a b) ∨
          (¬ lt.IsTrue a b ∧ eq.IsTrue a b ∧ ¬ gt.IsTrue a b) ∨
          (¬ lt.IsTrue a b ∧ ¬ eq.IsTrue a b ∧ gt.IsTrue a b)) ∧
      (a.containsNaN = true ∨ b.containsNaN = true →
        ¬ lt.IsTrue a b ∧ ¬ eq.IsTrue a b ∧ ¬ gt.IsTrue a b)) := by
  refine ⟨⟨?_, ?_, ?_, ?_⟩, ?_⟩
  · refine ⟨a.equals b, apply_eq_ok a b, ?_, apply_ne_ok a b⟩
    have symmetric : b.equals a = a.equals b := Bool.eq_iff_iff.mpr
      ⟨Value.equals_symm wellFormed' wellFormed, Value.equals_symm wellFormed wellFormed'⟩
    rw [apply_eq_ok, symmetric]
  · intro first second
    rw [isTrue_eq_iff] at *
    exact Value.equals_trans first second
  · rw [isTrue_eq_iff]
    exact Value.equals_self_iff wellFormed
  · intro a' b' reordered reordered'
    rw [apply_eq_ok, apply_eq_ok,
      Value.equals_of_matches ⟨wellFormed, reordered⟩ ⟨wellFormed', reordered'⟩]
  · intro fine
    obtain ⟨outcome, h⟩ := exists_compare? fine
    refine ⟨?_, isTrue_le_iff h, isTrue_iff_swap h rfl rfl (by decide),
      isTrue_iff_swap h rfl rfl (by decide), ?_, ?_⟩
    · intro op comparison
      exact ⟨⟨_, apply_of_compare? comparison h⟩, ⟨_, apply_of_compare? comparison (compare?_flip h)⟩⟩
    · intro number number'
      have compared : outcome.isNone = false := by rw [Value.isNone_of_compare? h, number, number']; rfl
      rw [isTrue_lt_iff_of_compare? h, isTrue_eq_iff_of_compare? h, isTrue_gt_iff_of_compare? h]
      cases outcome with
      | none => cases compared
      | some ordering => cases ordering <;> decide
    · intro missing
      have compared : outcome.isNone = true := by
        rw [Value.isNone_of_compare? h, Bool.or_eq_true]
        exact missing
      rw [isTrue_lt_iff_of_compare? h, isTrue_eq_iff_of_compare? h, isTrue_gt_iff_of_compare? h]
      cases outcome with
      | none => decide
      | some _ => cases compared

/-- An object and the same one in another order of members, two texts, and NaN. -/
theorem equality_and_order_agree_samples :
    (Value.object [("x", .string "s"), ("y", .array [.null])]).WellFormed ∧
      (Value.object [("y", .array [.null]), ("x", .string "s")]).WellFormed ∧
      eq.IsTrue (.object [("x", .string "s"), ("y", .array [.null])])
        (.object [("y", .array [.null]), ("x", .string "s")]) ∧
      ¬ lt.IsTypeError (.string "b") (.string "a") ∧ gt.IsTrue (.string "b") (.string "a") ∧
      ¬ lt.IsTypeError (.number Binary64.nan) (.number Binary64.nan) ∧
      ¬ eq.IsTrue (.number Binary64.nan) (.number Binary64.nan) := by
  have wellFormed : (Value.object [("x", .string "s"), ("y", .array [.null])]).WellFormed := by
    simp [Value.WellFormed, Value.ItemsWellFormed, Value.MembersWellFormed]
  have wellFormed' : (Value.object [("y", .array [.null]), ("x", .string "s")]).WellFormed := by
    simp [Value.WellFormed, Value.ItemsWellFormed, Value.MembersWellFormed]
  have reordered : (Value.object [("x", .string "s"), ("y", .array [.null])]).Reordered
      (.object [("y", .array [.null]), ("x", .string "s")]) :=
    ⟨_, _, rfl, Value.membersReordered_refl _, .swap ..⟩
  have less : Value.compareTexts "a" "b" = .lt := by decide
  have missing : (Value.number Binary64.nan).containsNaN = true := by decide
  have fine : ¬ lt.IsTypeError (.string "b") (.string "a") := by
    rintro ⟨_, failed, _⟩
    cases failed
  have fine' : ¬ lt.IsTypeError (.number Binary64.nan) (.number Binary64.nan) := by
    rintro ⟨_, failed, _⟩
    cases failed
  have objects := (equality_and_order_agree (c := .null) wellFormed wellFormed).1
  have texts := (equality_and_order_agree (a := .string "b") (b := .string "a") (c := .null)
    trivial trivial).2 fine
  have numbers := (equality_and_order_agree (a := .number Binary64.nan) (b := .number Binary64.nan)
    (c := .null) trivial trivial).2 fine'
  refine ⟨wellFormed, wellFormed', ?_, fine, texts.2.2.1.mpr ?_, fine', ?_⟩
  · rw [IsTrue, objects.2.2.2 _ _ (Value.reordered_refl _) reordered]
    exact objects.2.2.1.mpr rfl
  · exact (isTrue_lt_iff_of_compare? rfl).mpr (congrArg some less)
  · exact (numbers.2.2.2.2.2 (.inl missing)).2.1

end BinaryOp

end FormulaDoc
