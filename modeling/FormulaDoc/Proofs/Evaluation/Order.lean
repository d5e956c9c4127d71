import FormulaDoc.Proofs.Evaluation.Agreement

/-!
# The order of resolution

Formulas may be resolved in any order. Which of them finds out about a cycle, and which formulas are
still in progress when another one needs them, depends on the order; the state that each of them ends
in does not.
-/
namespace FormulaDoc

namespace Machine

variable {env : Environment} {document : Value} {pass pass' : Pass}

/-- Two complete passes leave every formula in the same state. -/
theorem Complete.state?_eq (h : Complete env document pass) (h' : Complete env document pass')
    (pure : ∀ f ∈ env.registry, f.Pure) (wellFormed : document.WellFormed) (path : DocPath) :
    pass.state? path = pass'.state? path := by
  have both : (∃ state, pass.state? path = some state) ↔ ∃ state, pass'.state? path = some state :=
    h.coherent.exists_state?_iff.trans h'.coherent.exists_state?_iff.symm
  rcases here : pass.state? path with _ | state
  · rcases there : pass'.state? path with _ | state'
    · rfl
    · obtain ⟨state, found⟩ := both.mpr ⟨state', there⟩
      rw [here] at found
      cases found
  · obtain ⟨state', there⟩ := both.mp ⟨state, here⟩
    rw [there]
    rcases h.state?_cases pure wellFormed here with ⟨rfl, never⟩ | ⟨result, rfl, ends⟩ <;>
      rcases h'.state?_cases pure wellFormed there with ⟨rfl, never'⟩ | ⟨result', rfl, ends'⟩
    · rfl
    · exact absurd ends' (never result')
    · exact absurd ends (never' result)
    · rw [ends.unique ends']

/-- Two complete passes leave the same working tree. -/
theorem Complete.tree_eq (h : Complete env document pass) (h' : Complete env document pass')
    (pure : ∀ f ∈ env.registry, f.Pure) (wellFormed : document.WellFormed) :
    pass.tree = pass'.tree := by
  have shape := h.coherent.shape
  have shape' := h'.coherent.shape
  refine Tree.eq_of_cell? (shape.trans shape'.symm) (Tree.keyed_of_shape shape wellFormed)
    (Tree.keyed_of_shape shape' wellFormed) fun path => ?_
  have state := h.state?_eq h' pure wellFormed path
  simp only [Pass.state?] at state
  rcases here : pass.tree.cell? path with _ | ⟨source, _⟩ <;>
    rcases there : pass'.tree.cell? path with _ | ⟨source', _⟩ <;>
    rw [here, there] at state <;> cases state
  have text := Tree.source_of_shape shape here
  rw [Tree.source_of_shape shape' there] at text
  cases text
  rfl

end Machine

/-- Resolving the formulas of a document in any order, each of them once or more, leaves every one of
them in the state that traversal leaves it in, be it a value or a kind of failure. -/
theorem Resolution.resolve_in_any_order (env : Environment) (document : Value)
    (pure : ∀ f ∈ env.registry, f.Pure) (wellFormed : document.WellFormed) (order : List DocPath)
    (covers : ∀ path source, document.get? path = some (.formula source) → path ∈ order) :
    (order.foldl (fun pass path => (resolve env path pass).2) (Pass.start document)).tree =
      (Traversal.visitDocument env (Pass.start document)).tree :=
  (Machine.complete_resolve env covers).tree_eq (Traversal.complete_visitDocument env document)
    pure wellFormed

/-- A cycle of two formulas that a third one leads into, from the last to the first and round again. -/
theorem Resolution.resolve_cycle_backwards :
    let env : Environment := ⟨[Function.upper], 0, id⟩
    let document : Value :=
      .object [("a", .formula "b"), ("b", .formula "a"), ("c", .formula "UPPER(a)")]
    let order : List DocPath := [[.key "c"], [.key "b"], [.key "a"], [.key "c"]]
    (∀ f ∈ env.registry, f.Pure) ∧ document.WellFormed ∧
      (∀ path source, document.get? path = some (.formula source) → path ∈ order) ∧
      (order.foldl (fun pass path => (resolve env path pass).2) (Pass.start document)).tree =
        (Traversal.visitDocument env (Pass.start document)).tree := by
  intro env document order
  have pure : ∀ f ∈ env.registry, f.Pure := by
    intro f mem
    rw [List.mem_singleton.mp mem]
    exact fun _ _ _ _ => rfl
  have wellFormed : document.WellFormed := by
    simp [document, Value.WellFormed, Value.MembersWellFormed]
  have covers : ∀ path source, document.get? path = some (.formula source) → path ∈ order := by
    intro path source here
    have listed : path ∈ [[.key "a"], [.key "b"], [.key "c"]] :=
      Machine.mem_formulas_of_get? here
    simp only [List.mem_cons, List.not_mem_nil, or_false] at listed
    rcases listed with rfl | rfl | rfl <;> simp [order]
  exact ⟨pure, wellFormed, covers, resolve_in_any_order env document pure wellFormed order covers⟩

end FormulaDoc
