import FormulaDoc.Proofs.Evaluation.Execution

/-!
# Accounting for failures

A formula that fails is recorded where its evaluation ends, and nowhere else. However often it is
asked for afterwards, the report of an evaluation names it once and with the kind that its state
keeps.
-/
namespace FormulaDoc

namespace Machine

variable {env : Environment} {document : Value}

/-- The errors recorded are those of the failed formulas, each once. -/
structure Accounted (pass : Pass) : Prop where
  nodup : (pass.errors.map Prod.fst).Nodup
  recorded : ∀ path kind, pass.state? path = some (.failed kind) ↔
    ∃ e, (path, e) ∈ pass.errors ∧ e.kind = kind

theorem start_accounted (document : Value) : Accounted (Pass.start document) := by
  refine ⟨List.nodup_nil, fun path kind => ⟨fun failed => ?_, ?_⟩⟩
  · cases state?_start failed
  · rintro ⟨e, mem, _⟩
    cases mem

theorem Accounted.not_mem {pass : Pass} (h : Accounted pass) {path : DocPath} {state : CellState}
    (here : pass.state? path = some state) (running : ¬ state.IsSettled) :
    path ∉ pass.errors.map Prod.fst := by
  intro mem
  obtain ⟨⟨_, e⟩, found, rfl⟩ := List.mem_map.mp mem
  have failed := (h.recorded _ e.kind).mpr ⟨e, found, rfl⟩
  rw [here] at failed
  cases failed
  exact running trivial

theorem Accounted.note {pass : Pass} (h : Accounted pass) (asker : Option DocPath)
    (path : DocPath) : Accounted (pass.note asker path) := ⟨h.nodup, h.recorded⟩

theorem Accounted.setState_inProgress {pass : Pass} (h : Accounted pass) {path : DocPath}
    {source : String} (cell : pass.tree.cell? path = some ⟨source, .unresolved⟩) :
    Accounted (pass.setState path .inProgress) := by
  refine ⟨h.nodup, fun other kind => Iff.trans ?_ (h.recorded other kind)⟩
  rw [Pass.state?_setState]
  by_cases same : path = other
  · subst same
    simp [state?_unresolved cell]
  · rw [if_neg same]

/-- The end of an evaluation keeps the account, whatever comes of it. -/
theorem Accounted.conclude {pass : Pass} (h : Accounted pass) {path : DocPath}
    (busy : pass.state? path = some .inProgress) (outcome : Except EvalError Value) :
    Accounted (pass.conclude path outcome) := by
  have fresh := h.not_mem busy id
  have elsewhere : ∀ other kind, path ≠ other →
      ((pass.conclude path outcome).state? other = some (.failed kind) ↔
        ∃ e, (other, e) ∈ pass.errors ∧ e.kind = kind) := by
    intro other kind apart
    rw [Pass.state?_conclude, if_neg apart]
    exact h.recorded other kind
  cases outcome with
  | ok value =>
    refine ⟨h.nodup, fun other kind => ?_⟩
    by_cases same : path = other
    · subst same
      rw [Pass.state?_conclude, if_pos rfl, busy]
      constructor
      · intro failed
        cases failed
      · rintro ⟨e, mem, _⟩
        exact absurd (List.mem_map.mpr ⟨_, mem, rfl⟩) fresh
    · exact elsewhere other kind same
  | error e =>
    have errors : (pass.conclude path (.error e)).errors = pass.errors ++ [(path, e)] := rfl
    refine ⟨?_, fun other kind => ?_⟩
    · rw [errors, List.map_append, List.map_singleton]
      exact List.Nodup.append h.nodup (List.nodup_singleton _) (by simpa using fresh)
    · simp only [errors, List.mem_append, List.mem_singleton, Prod.mk.injEq]
      by_cases same : path = other
      · subst same
        rw [Pass.state?_conclude, if_pos rfl, busy]
        constructor
        · intro failed
          cases failed
          exact ⟨e, .inr ⟨rfl, rfl⟩, rfl⟩
        · rintro ⟨e', mem | ⟨_, rfl⟩, rfl⟩
          · exact absurd (List.mem_map.mpr ⟨_, mem, rfl⟩) fresh
          · rfl
      · rw [elsewhere other kind same]
        simp [Ne.symm same]

theorem step_accounted {m m' : Machine} (h : Step env document m m')
    (coherent : Coherent document m) (hm : Accounted m.pass) : Accounted m'.pass := by
  cases h with
  | begin cell => exact hm.setState_inProgress cell
  | enter asked cell => exact (hm.note _ _).setState_inProgress cell
  | @leave path outcome rest pass =>
    exact hm.conclude ((coherent.active path).mpr List.mem_cons_self) outcome
  | @call owner name args next rest pass =>
    refine ⟨?_, fun path kind => ?_⟩
    · rw [Interpreter.errors_call]
      exact hm.nodup
    · rw [Interpreter.errors_call, Pass.state?_call]
      exact hm.recorded path kind
  | reply _ _ => exact hm.note _ _
  | _ => exact hm

theorem execution_accounted {m m' : Machine} (h : Execution env document m m')
    (coherent : Coherent document m) (hm : Accounted m.pass) : Accounted m'.pass := by
  induction h with
  | refl => exact hm
  | tail before step ih => exact step_accounted step (execution_coherent before coherent) ih

theorem Complete.accounted {pass : Pass} (h : Complete env document pass) : Accounted pass :=
  execution_accounted h.reached (start_coherent document) (start_accounted document)

end Machine

namespace Engine

variable {engine : Engine} {around : Surroundings} {document : Value}

theorem evaluate_eq_error_iff {failure : Failure} :
    engine.evaluate around document = .error failure ↔
      failure.faults = (engine.finalPass around document).report := by
  show (engine.finalPass around document).report.conclude _ = _ ↔ _
  generalize (engine.finalPass around document).report = report
  obtain ⟨faults, nonempty⟩ := failure
  cases report with
  | nil => simp [Report.conclude, Report.failure?, nonempty]
  | cons fault rest =>
    simp only [Report.conclude, Report.failure?, Except.error.injEq, Failure.mk.injEq]
    exact eq_comm

theorem evaluate_eq_ok_iff {value : Value} :
    engine.evaluate around document = .ok value ↔
      (engine.finalPass around document).errors = [] ∧
        (engine.finalPass around document).tree.toValue = value := by
  show (engine.finalPass around document).report.conclude _ = _ ↔ _
  rw [Pass.report]
  cases (engine.finalPass around document).errors with
  | nil =>
    simp only [List.map_nil, Report.conclude, Report.failure?, Except.ok.injEq, true_and]
    rfl
  | cons found rest => simp [Report.conclude, Report.failure?]

theorem mem_report_iff {path : DocPath} {kind : FaultKind} :
    (∃ fault ∈ (engine.finalPass around document).report, fault.path = path ∧ fault.kind = kind) ↔
      (engine.finalPass around document).state? path = some (.failed kind) := by
  rw [(engine.complete_finalPass around document).accounted.recorded]
  simp only [Pass.report, List.mem_map]
  constructor
  · rintro ⟨_, ⟨⟨other, e⟩, mem, rfl⟩, rfl, rfl⟩
    exact ⟨e, mem, rfl⟩
  · rintro ⟨e, mem, rfl⟩
    exact ⟨_, ⟨(path, e), mem, rfl⟩, rfl, rfl⟩

/-- The failures that an expression outside of the document comes upon are accounted for, too. -/
theorem accounted_runExpression (engine : Engine) (around : Surroundings) (text : String)
    (data : Value) : Machine.Accounted (engine.runExpression around text data).2 :=
  Machine.execution_accounted (engine.execution_runExpression around text data)
    (Machine.start_coherent data) (Machine.start_accounted data)

/-- An evaluation fails exactly if a formula has failed. Its failure then names every failed formula
once, with the kind that its state keeps, and nothing else; and no formula is left out of account,
since every one of them has come to an end. -/
theorem evaluate_accounts_for_failures (engine : Engine) (around : Surroundings)
    (document : Value) :
    ((∃ failure, engine.evaluate around document = .error failure) ↔
      ∃ path kind, (engine.finalPass around document).state? path = some (.failed kind)) ∧
    (∀ failure, engine.evaluate around document = .error failure →
      (failure.faults.map Fault.path).Nodup ∧
      (∀ path kind, (∃ fault ∈ failure.faults, fault.path = path ∧ fault.kind = kind) ↔
        (engine.finalPass around document).state? path = some (.failed kind)) ∧
      ∀ fault ∈ failure.faults, ∃ source, document.get? fault.path = some (.formula source)) ∧
    ∀ path source, document.get? path = some (.formula source) →
      ∃ state, (engine.finalPass around document).state? path = some state ∧ state.IsSettled := by
  have complete := engine.complete_finalPass around document
  have coherent := complete.coherent
  refine ⟨⟨?_, ?_⟩, ?_, ?_⟩
  · rintro ⟨failure, failed⟩
    have faults := evaluate_eq_error_iff.mp failed
    obtain ⟨fault, rest, first⟩ := List.exists_cons_of_ne_nil failure.faults_ne_nil
    refine ⟨fault.path, fault.kind, mem_report_iff.mp ⟨fault, ?_, rfl, rfl⟩⟩
    rw [← faults, first]
    exact List.mem_cons_self
  · rintro ⟨path, kind, failed⟩
    obtain ⟨fault, mem, _⟩ := mem_report_iff.mpr failed
    exact ⟨⟨_, List.ne_nil_of_mem mem⟩, evaluate_eq_error_iff.mpr rfl⟩
  · intro failure failed
    rw [evaluate_eq_error_iff.mp failed]
    refine ⟨?_, fun path kind => mem_report_iff, ?_⟩
    · have nodup := complete.accounted.nodup
      simpa [Pass.report, List.map_map, Function.comp_def, Fault.ofError] using nodup
    · intro fault mem
      exact coherent.exists_state?_iff.mp ⟨_, mem_report_iff.mp ⟨fault, mem, rfl, rfl⟩⟩
  · intro path source formula
    obtain ⟨state, here⟩ := coherent.exists_state?_iff.mpr ⟨source, formula⟩
    exact ⟨state, here, complete.settled path state here⟩

end Engine

end FormulaDoc
