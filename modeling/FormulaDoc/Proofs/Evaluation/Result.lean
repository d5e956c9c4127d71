import FormulaDoc.Proofs.Document.FormulaFree
import FormulaDoc.Proofs.Evaluation.Conservation
import FormulaDoc.Proofs.Evaluation.Meaning
import FormulaDoc.Proofs.Evaluation.Reference

/-!
# The result of an evaluation

What an evaluation gives is its document with a value in the place of each formula and nothing else
changed. No formula is left in it, whatever the functions return, so that evaluating it again changes
nothing.
-/
namespace FormulaDoc

open Machine

theorem Interpreter.containsFormula_of_call {env : Environment} {name : String} {args : List Value}
    {pass : Pass} {value : Value} (h : (call env name args pass).1 = .ok value) :
    value.containsFormula = false := by
  rw [call] at h
  split at h
  · cases h
  · split at h
    · cases h
    · split at h
      · cases h
      · rename_i free
        cases h
        exact Bool.eq_false_iff.mpr free

/-- Evaluation makes no formulas: a function that returns one fails. -/
theorem hereditary_containsFormula (env : Environment) (document : Value) :
    Hereditary env document (fun _ _ => True) fun value => value.containsFormula = false where
  scalar := Value.containsFormula_of_isScalar
  field := Value.containsFormula_of_field
  element := Value.containsFormula_of_element
  call _ := Interpreter.containsFormula_of_call
  blank _ := trivial
  part _ free _ := Value.containsFormula_replaceFormulas free _ _

namespace Engine

theorem finalPass_of_formulaFree (engine : Engine) (around : Surroundings) {document : Value}
    (free : document.containsFormula = false) :
    engine.finalPass around document = Pass.start document := by
  have none : (Pass.start document).tree.formulas = [] := Tree.cellPaths_ofValue free DocPath.root
  rw [finalPass, Traversal.visitDocument_eq, none]
  rfl

/-- A document without formulas is its own result. -/
theorem evaluate_of_formulaFree (engine : Engine) (around : Surroundings) {document : Value}
    (free : document.containsFormula = false) : engine.evaluate around document = .ok document := by
  rw [evaluate_eq_ok_iff, engine.finalPass_of_formulaFree around free]
  exact ⟨rfl, Tree.toValue_ofValue free⟩

/-- If an evaluation succeeds, every formula has come to a value, and the result is the document with
these values in the places of the formulas. -/
theorem evaluate_eq_replaceFormulas (engine : Engine) (around : Surroundings) {document value : Value}
    (wellFormed : document.WellFormed) (succeeds : engine.evaluate around document = .ok value) :
    (∀ path source, document.get? path = some (.formula source) →
      ∃ found, (engine.finalPass around document).state? path = some (.resolved found)) ∧
    value = document.replaceFormulas (engine.finalPass around document).valueAt DocPath.root := by
  have complete := engine.complete_finalPass around document
  obtain ⟨none, same⟩ := evaluate_eq_ok_iff.mp succeeds
  have all := complete.errors_eq_nil_iff.mp none
  exact ⟨all, same.symm.trans (complete.toValue_eq wellFormed all)⟩

/-- A class of values that evaluation does not lead out of has the result, as it has every value in the
place of a formula. -/
theorem good_of_evaluate (engine : Engine) (around : Surroundings) {document value : Value}
    {allowed : DocPath → Value → Prop} {good : Value → Prop}
    (closed : Hereditary (engine.environment around) document allowed good)
    (wellFormed : document.WellFormed) (succeeds : engine.evaluate around document = .ok value)
    (allows : Allows allowed (engine.finalPass around document)) : good value := by
  have held := (engine.complete_finalPass around document).good_valueAt closed wellFormed allows
  rw [(engine.evaluate_eq_replaceFormulas around wellFormed succeeds).2]
  exact closed.part rfl held allows

/-- If an evaluation succeeds, every formula has come to a value, and the result is the document with
these values in the places of the formulas. It holds no formula, and evaluating it again gives it
again, as with any document that holds none. -/
theorem evaluate_replaces_formulas (engine : Engine) (around : Surroundings) (document : Value)
    (wellFormed : document.WellFormed) :
    (∀ value, engine.evaluate around document = .ok value →
      value.containsFormula = false ∧
      (∃ values : DocPath → Value,
        (∀ path source, document.get? path = some (.formula source) →
          (engine.finalPass around document).state? path = some (.resolved (values path))) ∧
        value = document.replaceFormulas values DocPath.root) ∧
      ∀ around', engine.evaluate around' value = .ok value) ∧
    (document.containsFormula = false → engine.evaluate around document = .ok document) := by
  refine ⟨fun value succeeds => ?_, engine.evaluate_of_formulaFree around⟩
  have free : value.containsFormula = false :=
    engine.good_of_evaluate around (hereditary_containsFormula _ _) wellFormed succeeds fun _ => trivial
  obtain ⟨all, replaced⟩ := engine.evaluate_eq_replaceFormulas around wellFormed succeeds
  refine ⟨free, ⟨_, fun path source formula => ?_, replaced⟩, fun around' =>
    engine.evaluate_of_formulaFree around' free⟩
  obtain ⟨found, here⟩ := all path source formula
  rw [Pass.valueAt_eq here]
  exact here

open Grammar in
/-- A formula that calls a function, and a formula inside a container that takes its value. -/
theorem evaluate_upper_twice :
    let engine : Engine := ⟨[Function.upper], FormulaKeys.default, some 0⟩
    let document : Value := .object [("name", .formula "UPPER('ann')"),
      ("copies", .array [.formula "super.super.name", .number 1, .null])]
    engine.evaluate ⟨0, id⟩ document =
      .ok (.object [("name", .string "ANN"), ("copies", .array [.string "ANN", .number 1, .null])]) := by
  intro engine document
  let env := engine.environment ⟨0, id⟩
  let first : DocPath := [.key "name"]
  let second : DocPath := [.key "copies", .index 0]
  have upper (ask : DocPath → Eval Value) (scope : Scope) :
      Resolution.evaluate env ask scope "UPPER('ann')" =
        Interpreter.value env ask scope (.call () "UPPER" [.literal () (.string "ann")]) :=
    have lexed : scan "UPPER('ann')" = .ok [⟨.ident "UPPER", ⟨0, 5⟩⟩, ⟨.sign .openParen, ⟨5, 6⟩⟩,
        ⟨.string "ann", ⟨6, 11⟩⟩, ⟨.sign .closeParen, ⟨11, 12⟩⟩] := by cbv
    Resolution.evaluate_of_phrase lexed (.ofAccess (.access (.call "UPPER" (.someArguments
      (.ofAccess (.access (.literal _ _ (.string "ann")) .noAccess)) .noMore)) .noAccess)) rfl
  have above (ask : DocPath → Eval Value) (scope : Scope) :
      Resolution.evaluate env ask scope "super.super.name" =
        Interpreter.value env ask scope (.field () (.scope () 2) "name") :=
    have lexed : scan "super.super.name" = .ok [⟨.word .super, ⟨0, 5⟩⟩, ⟨.sign .dot, ⟨5, 6⟩⟩,
        ⟨.word .super, ⟨6, 11⟩⟩, ⟨.sign .dot, ⟨11, 12⟩⟩, ⟨.ident "name", ⟨12, 16⟩⟩] := by cbv
    Resolution.evaluate_of_phrase lexed (.ofAccess (.access (.super (.linkSuper .noLink))
      (.property _ _ (.name "name") .noAccess))) rfl
  let pass := (Pass.start document).setState first .inProgress
  let named := pass.countCall.setState first (.resolved (.string "ANN"))
  let copied := (named.setState second .inProgress).setState second (.resolved (.string "ANN"))
  have begins : (Resolution.resolveWithin env 4 first (Pass.start document)).2 = named :=
    Resolution.resolveWithin_of_evaluate rfl (by rw [upper]; rfl)
  have ends : (Resolution.resolveWithin env 4 second named).2 = copied :=
    Resolution.resolveWithin_of_evaluate rfl (by rw [above]; rfl)
  have final : engine.finalPass ⟨0, id⟩ document = copied := by
    have order : (Pass.start document).tree.formulas = [first, second] := rfl
    rw [finalPass, Traversal.visitDocument_eq, order, ← ends, ← begins]
    rfl
  rw [evaluate_eq_ok_iff, final]
  exact ⟨rfl, rfl⟩

/-- A document with a function call and a formula inside a container that needs the call's value. -/
theorem evaluate_replaces_formulas_upper :
    let engine : Engine := ⟨[Function.upper], FormulaKeys.default, some 0⟩
    let around : Surroundings := ⟨0, id⟩
    let document : Value := .object [("name", .formula "UPPER('ann')"),
      ("copies", .array [.formula "super.super.name", .number 1, .null])]
    let result : Value := .object [("name", .string "ANN"),
      ("copies", .array [.string "ANN", .number 1, .null])]
    document.WellFormed ∧ engine.evaluate around document = .ok result ∧
      result.containsFormula = false ∧
      (∃ values : DocPath → Value,
        (∀ path source, document.get? path = some (.formula source) →
          (engine.finalPass around document).state? path = some (.resolved (values path))) ∧
        result = document.replaceFormulas values DocPath.root) ∧
      ∀ around', engine.evaluate around' result = .ok result := by
  intro engine around document result
  have wellFormed : document.WellFormed := by
    simp [document, Value.WellFormed, Value.MembersWellFormed, Value.ItemsWellFormed]
  have replaces := evaluate_replaces_formulas engine around document wellFormed
  exact ⟨wellFormed, evaluate_upper_twice, replaces.1 result evaluate_upper_twice⟩

end Engine

end FormulaDoc
