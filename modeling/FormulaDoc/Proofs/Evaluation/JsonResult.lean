import FormulaDoc.Proofs.Document.FormulaObjects
import FormulaDoc.Proofs.Evaluation.Result
import FormulaDoc.Proofs.Function.Results

/-!
# The result of an evaluation in JSON

A result holds no formulas as a value, but in JSON a text that a formula has come to can turn the object
around it into a formula. Nothing else makes formula objects: unless it happens, the result holds none
and evaluating it again gives it again.
-/
namespace FormulaDoc

namespace Interpreter

theorem isScalar_of_call {env : Environment} (scalars : ∀ f ∈ env.registry, f.ReturnsScalars)
    {name : String} {args : List Value} {pass : Pass} {value : Value}
    (h : (call env name args pass).1 = .ok value) : value.isScalar := by
  rw [call] at h
  split at h
  next => cases h
  next f found =>
    split at h
    next => cases h
    next result returned =>
      split at h <;> cases h
      rw [Function.call] at returned
      split at returned
      · exact scalars f (Registry.mem_of_lookup? found) _ _ _ returned
      · cases returned

end Interpreter

/-- Whether a value may come in the place of a formula without making a formula of the object around it.
A text may not where the formula is the only member and stands under a formula key. -/
def Json.Permits (keys : FormulaKeys) (json : Json) (path : DocPath) (value : Value) : Prop :=
  path ∈ json.wrappedPaths keys DocPath.root → ∀ s, value ≠ .string s

/-- Evaluation makes no formula objects otherwise, as long as functions return scalars only. -/
theorem hereditary_hasFormula {env : Environment} (scalars : ∀ f ∈ env.registry, f.ReturnsScalars)
    (keys : FormulaKeys) (json : Json) :
    Hereditary env (json.toValue keys) (json.Permits keys)
      fun value => (Json.ofValue keys value).hasFormula keys = false where
  scalar := Json.hasFormula_of_isScalar
  field free h := by
    obtain ⟨members, rfl, mem⟩ := Value.exists_member_of_field h
    exact Json.hasFormula_of_mem_members free mem
  element free h := by
    obtain ⟨items, rfl, mem⟩ := Value.exists_item_of_element h
    exact Json.hasFormula_of_mem_items free mem
  call _ h := Json.hasFormula_of_isScalar (Interpreter.isScalar_of_call scalars h)
  blank _ := fun _ _ same => by cases same
  part {path part values} there free allows := by
    obtain ⟨json', rfl, inside⟩ := Json.exists_json_of_get? there DocPath.root
    rw [Bool.eq_false_iff]
    intro mark
    obtain ⟨found, mem, s, text⟩ := Json.wrapped_of_hasFormula free json' path mark
    exact allows found (inside mem) s text

namespace Engine

theorem evaluateJson_eq_ok_iff {engine : Engine} {around : Surroundings} {document out : Json} :
    engine.evaluateJson around document = .ok out ↔
      ∃ value, engine.evaluate around (document.toValue engine.keys) = .ok value ∧
        Json.ofValue engine.keys value = out := by
  rw [evaluateJson]
  cases engine.evaluate around (document.toValue engine.keys) with
  | error failure => simp [Except.map]
  | ok value => simp [Except.map]

/-- What a value without formula objects is written as evaluates to itself. -/
theorem evaluateJson_ofValue (engine : Engine) (around : Surroundings) {value : Value}
    (free : (Json.ofValue engine.keys value).hasFormula engine.keys = false) :
    engine.evaluateJson around (Json.ofValue engine.keys value) =
      .ok (Json.ofValue engine.keys value) := by
  have evaluated := engine.evaluate_of_formulaFree around (Json.containsFormula_toValue free)
  exact evaluateJson_eq_ok_iff.mpr ⟨_, evaluated, Json.ofValue_toValue_ofValue free⟩

/-- The result of evaluating a document with built-in functions holds a formula object exactly if a
formula that is the only member of an object, under a formula key, has come to a text. If it holds none,
evaluating it gives it again, at any time and with any random numbers. -/
theorem evaluateJson_formulaFree_iff (engine : Engine) (around : Surroundings) (document : Json)
    (builtin : ∀ f ∈ engine.registry, f ∈ Registry.builtins)
    (wellFormed : (document.toValue engine.keys).WellFormed) {out : Json}
    (succeeds : engine.evaluateJson around document = .ok out) :
    (out.hasFormula engine.keys = false ↔
      ∀ path ∈ document.wrappedPaths engine.keys DocPath.root, ∀ s,
        (engine.finalPass around (document.toValue engine.keys)).state? path ≠
          some (.resolved (.string s))) ∧
    (out.hasFormula engine.keys = false →
      ∀ around', engine.evaluateJson around' out = .ok out) := by
  obtain ⟨value, evaluated, rfl⟩ := evaluateJson_eq_ok_iff.mp succeeds
  refine ⟨⟨fun free path mem s here => ?_, fun untexted => ?_⟩, fun free around' =>
    engine.evaluateJson_ofValue around' free⟩
  · have replaced := (engine.evaluate_eq_replaceFormulas around wellFormed evaluated).2
    have mark := Json.hasFormula_of_wrapped document DocPath.root
      ⟨path, mem, s, Pass.valueAt_eq here⟩
    rw [← replaced] at mark
    exact Bool.eq_false_iff.mp free mark
  · have scalars : ∀ f ∈ engine.registry, f.ReturnsScalars :=
      fun f mem => Function.returnsScalars_of_mem_builtins (builtin f mem)
    have allows : Machine.Allows (document.Permits engine.keys)
        (engine.finalPass around (document.toValue engine.keys)) := by
      intro path mem s text
      rw [Pass.valueAt] at text
      split at text
      · rename_i found here
        subst text
        exact untexted path mem s here
      · cases text
    exact engine.good_of_evaluate around (hereditary_hasFormula scalars engine.keys document)
      wellFormed evaluated allows

section Literals

open Grammar

/-- The only formula of a document, one literal, is replaced by its value. -/
theorem evaluate_of_isLiteral (engine : Engine) (around : Surroundings) {document value : Value}
    {path : DocPath} {source : String} {token : Token}
    (only : (Pass.start document).tree.formulas = [path])
    (cell : (Pass.start document).tree.cell? path = some ⟨source, .unresolved⟩)
    (lexed : scan source = .ok [token]) (literal : IsLiteral token.kind value) :
    let resolved := ((Pass.start document).setState path .inProgress).setState path (.resolved value)
    engine.evaluate around document = .ok resolved.tree.toValue := by
  intro resolved
  let env := engine.environment around
  have ends : (Resolution.resolveWithin env 3 path (Pass.start document)).2 = resolved := by
    refine Resolution.resolveWithin_of_evaluate cell ?_
    let p : Phrase (.whole .access) := .access (.literal _ _ literal) .noAccess
    rw [Resolution.evaluate_of_phrase lexed (.ofAccess p) rfl]
    rfl
  have final : engine.finalPass around document = resolved := by
    rw [finalPass, Traversal.visitDocument_eq, Resolution.depthOf, only, ← ends]
    rfl
  rw [evaluate_eq_ok_iff, final]
  exact ⟨rfl, rfl⟩

/-- A formula that comes to a truth value under a formula key. -/
theorem evaluateJson_formulaFree_true :
    let engine : Engine := {}
    let document : Json := .object [("$formula", .object [("$formula", .string "true")])]
    let out : Json := .object [("$formula", .bool true)]
    engine.evaluateJson ⟨0, id⟩ document = .ok out ∧
      document.wrappedPaths engine.keys DocPath.root = [[.key "$formula"]] ∧
      (∀ s, (engine.finalPass ⟨0, id⟩ (document.toValue engine.keys)).state? [.key "$formula"] ≠
        some (.resolved (.string s))) ∧
      ∀ around', engine.evaluateJson around' out = .ok out := by
  intro engine document out
  have lexed : scan "true" = .ok [⟨.word .true, ⟨0, 4⟩⟩] := by cbv
  have evaluated := @evaluate_of_isLiteral engine ⟨0, id⟩ (document.toValue engine.keys) _
    [.key "$formula"] _ _ rfl rfl lexed .true
  have succeeds : engine.evaluateJson ⟨0, id⟩ document = .ok out :=
    evaluateJson_eq_ok_iff.mpr ⟨_, evaluated, rfl⟩
  have builtin : ∀ f ∈ engine.registry, f ∈ Registry.builtins := fun _ mem => mem
  have wellFormed : (document.toValue engine.keys).WellFormed := by
    show Value.WellFormed (.object [("$formula", .formula "true")])
    simp [Value.WellFormed, Value.MembersWellFormed]
  have result := evaluateJson_formulaFree_iff engine ⟨0, id⟩ document builtin wellFormed succeeds
  have free : out.hasFormula engine.keys = false := rfl
  exact ⟨succeeds, rfl, result.1.mp free _ List.mem_cons_self, result.2 free⟩

/-- A text that takes the place of the same formula makes a formula of the object around it, and
evaluating the result reads the text as one. -/
theorem evaluateJson_makes_formula :
    let engine : Engine := {}
    let document : Json := .object [("$formula", .object [("$formula", .string "'true'")])]
    let out : Json := .object [("$formula", .string "true")]
    engine.evaluateJson ⟨0, id⟩ document = .ok out ∧ out.hasFormula engine.keys = true ∧
      engine.evaluateJson ⟨0, id⟩ out = .ok (.bool true) := by
  intro engine document out
  have quoted : scan "'true'" = .ok [⟨.string "true", ⟨0, 6⟩⟩] := by cbv
  have bare : scan "true" = .ok [⟨.word .true, ⟨0, 4⟩⟩] := by cbv
  have first := @evaluate_of_isLiteral engine ⟨0, id⟩ (document.toValue engine.keys) _
    [.key "$formula"] _ _ rfl rfl quoted (.string "true")
  have second := @evaluate_of_isLiteral engine ⟨0, id⟩ (out.toValue engine.keys) _ [] _ _ rfl rfl
    bare .true
  exact ⟨evaluateJson_eq_ok_iff.mpr ⟨_, first, rfl⟩, rfl,
    evaluateJson_eq_ok_iff.mpr ⟨_, second, rfl⟩⟩

end Literals

end Engine

end FormulaDoc
