import FormulaDoc.Proofs.Evaluation.Accounting

/-!
# The life of a formula

A formula is unresolved, then in progress while its own evaluation is under way, and then settled for
good. The history of an execution keeps which formulas have been begun, and shows each at most once.
Everything that can be asked of a working tree, in any order, makes such a history.
-/
namespace FormulaDoc

open Resolution

/-- How the state of a formula may change. -/
inductive CellState.Moves : CellState → CellState → Prop where
  | begin : Moves unresolved inProgress
  | settle (outcome : Except EvalError Value) : Moves inProgress (.ofOutcome outcome)

namespace Machine

variable {env : Environment} {document : Value}

/-- A step changes the state of a formula in one of the two ways or not at all. -/
theorem step_moves {m m' : Machine} (h : Step env document m m') (hm : Coherent document m)
    {path : DocPath} {state' : CellState} (here : m'.pass.state? path = some state') :
    ∃ state, m.pass.state? path = some state ∧ (state = state' ∨ state.Moves state') := by
  rcases step_state? h path with same | ⟨before, after⟩ | ⟨outcome, rest, stack, rfl⟩
  · exact ⟨state', same.symm.trans here, .inl rfl⟩
  · rw [here] at after
    cases after
    exact ⟨_, before, .inr .begin⟩
  · have busy := (hm.active path).mpr (by simp [owners, stack])
    rw [Pass.state?_conclude, if_pos rfl, busy] at here
    cases here
    exact ⟨_, busy, .inr (.settle outcome)⟩

/-- The formulas whose evaluation is new on the stack after a step. -/
def begun (m m' : Machine) : List DocPath :=
  (owners m'.stack).take ((owners m'.stack).length - (owners m.stack).length)

/-- An execution from the beginning, with the formulas begun so far in their order. -/
inductive History (env : Environment) (document : Value) : List DocPath → Machine → Prop where
  | start : History env document [] ⟨[], Pass.start document⟩
  | step {paths m m'} : History env document paths m → Step env document m m' →
      History env document (paths ++ begun m m') m'

theorem History.execution {paths : List DocPath} {m : Machine}
    (h : History env document paths m) : Execution env document ⟨[], Pass.start document⟩ m := by
  induction h with
  | start => exact .refl
  | step _ step ih => exact ih.tail step

theorem History.coherent {paths : List DocPath} {m : Machine}
    (h : History env document paths m) : Coherent document m :=
  execution_coherent h.execution (start_coherent document)

/-- Executions go on from a history as a longer one. -/
theorem History.exists_append {paths : List DocPath} {m m' : Machine}
    (h : History env document paths m) (later : Execution env document m m') :
    ∃ more, History env document (paths ++ more) m' := by
  induction later with
  | refl => exact ⟨[], by rwa [List.append_nil]⟩
  | tail _ step ih =>
    obtain ⟨more, history⟩ := ih
    exact ⟨more ++ begun _ _, by rw [← List.append_assoc]; exact history.step step⟩

theorem begun_eq_nil {m m' : Machine} (h : (owners m'.stack).length ≤ (owners m.stack).length) :
    begun m m' = [] := by
  rw [begun, Nat.sub_eq_zero_of_le h, List.take_zero]

theorem state?_setState_unresolved {pass : Pass} {path other : DocPath} :
    (pass.setState path .inProgress).state? other = some .unresolved ↔
      other ≠ path ∧ pass.state? other = some .unresolved := by
  rw [Pass.state?_setState]
  by_cases same : path = other
  · subst same
    simp
  · simp [same, Ne.symm same]

/-- A step begins no formula, or one that was unresolved before and is not any more. -/
theorem begun_cases {m m' : Machine} (h : Step env document m m') (hm : Coherent document m) :
    (begun m m' = [] ∧ ∀ path, m'.pass.state? path = some .unresolved ↔
      m.pass.state? path = some .unresolved) ∨
    ∃ path, begun m m' = [path] ∧ m.pass.state? path = some .unresolved ∧
      ∀ other, m'.pass.state? other = some .unresolved ↔
        other ≠ path ∧ m.pass.state? other = some .unresolved := by
  cases h with
  | @begin pass path source cell =>
    exact .inr ⟨path, rfl, state?_unresolved cell, fun _ => state?_setState_unresolved⟩
  | @enter owner plan rest pass path source asked cell =>
    refine .inr ⟨path, ?_, state?_unresolved cell, fun _ => state?_setState_unresolved⟩
    simp [begun, owners, frameOf, Nat.add_comm]
  | @leave path outcome rest pass =>
    refine .inl ⟨begun_eq_nil ?_, fun other => ?_⟩
    · rw [owners_deliver]
      exact Nat.le_succ _
    have busy := (hm.active path).mpr List.mem_cons_self
    rw [Pass.state?_conclude]
    by_cases same : path = other
    · subst same
      rw [if_pos rfl, busy]
      cases outcome <;> simp [CellState.ofOutcome]
    · rw [if_neg same]
  | call => exact .inl ⟨begun_eq_nil (Nat.le_refl _), fun path => by rw [Pass.state?_call]⟩
  | express | finish | reply | gather | collect =>
    exact .inl ⟨begun_eq_nil (Nat.le_refl _), fun _ => Iff.rfl⟩

/-- No formula is begun twice, and those that have been begun are those that are not unresolved any
more. -/
theorem History.once {paths : List DocPath} {m : Machine} (h : History env document paths m) :
    paths.Nodup ∧ ∀ path, path ∈ paths ↔
      (∃ source, document.get? path = some (.formula source)) ∧
        m.pass.state? path ≠ some .unresolved := by
  induction h with
  | start =>
    refine ⟨List.nodup_nil, fun path => ⟨fun mem => (List.not_mem_nil mem).elim, ?_⟩⟩
    rintro ⟨formula, other⟩
    obtain ⟨state, here⟩ := (start_coherent document).exists_state?_iff.mpr formula
    exact absurd (state?_start here ▸ here) other
  | @step paths m m' history step ih =>
    obtain ⟨nodup, known⟩ := ih
    rcases begun_cases step history.coherent with ⟨none, same⟩ | ⟨fresh, one, unresolved, others⟩
    · rw [none, List.append_nil]
      exact ⟨nodup, fun path => by rw [known, Ne, Ne, same]⟩
    · have new : fresh ∉ paths := fun mem => ((known fresh).mp mem).2 unresolved
      have formula := history.coherent.exists_state?_iff.mp ⟨_, unresolved⟩
      rw [one]
      refine ⟨?_, fun path => ?_⟩
      · exact List.Nodup.append nodup (List.nodup_singleton _) (by simpa using new)
      · rw [List.mem_append, List.mem_singleton, known, Ne, Ne, others]
        by_cases same : path = fresh
        · subst same
          simp [formula]
        · simp [same]

/-! ## What can be asked of a working tree -/

/-- What can be asked of a working tree from outside. -/
inductive Request where
  | resolve (path : DocPath)
  | load (place : Place)
  | field (key : String) (place : Place)
  | element (index : Int) (place : Place)
  | express (scope : Scope) (text : String)
  | walk

/-- What is left after an answer, whatever the answer is. -/
def Request.answer (env : Environment) (request : Request) (pass : Pass) : Pass :=
  let ask := askFor none (resolveWithin env (depthOf pass.tree))
  match request with
  | resolve path => (Resolution.resolve env path pass).2
  | load place => (place.load ask pass).2
  | field key place => (place.field ask key pass).2
  | element index place => (place.element ask index pass).2
  | express scope text => (evaluate env ask scope text pass).2
  | walk => Traversal.visitDocument env pass

def answerAll (env : Environment) (requests : List Request) (pass : Pass) : Pass :=
  requests.foldl (fun pass request => request.answer env pass) pass

/-- What a plan describes is an execution when nothing else is under way. -/
theorem execution_of_describes {α : Type} {plan : Plan α} {x : (DocPath → Eval Value) → Eval α}
    {pass : Pass} (coherent : Coherent document ⟨[], pass⟩) (fits : plan.Fits document)
    (describes : ∀ ask, Steady document ask → Plan.Describes env ask document plan (x ask)) :
    Execution env document ⟨[], pass⟩
      ⟨[], (x (askFor none (resolveWithin env (depthOf pass.tree))) pass).2⟩ := by
  -- the machine works out values, so that the result of the plan is dropped
  have express : Step env document ⟨[], pass⟩ ⟨[⟨none, plan >>= fun _ => pure .null⟩], pass⟩ :=
    .express (fits.bind fun _ => trivial)
  have runs := (follows_resolveWithin env document (depthOf pass.tree)).finishes_run _ _
    (step_coherent express coherent) (lt_depthOf coherent.shape)
  rw [describes _ (steady_askFor (steady_resolveWithin env _) none) pass coherent.shape]
  refine .head express (.tail runs.execution ?_)
  rw [Plan.run_bind, Eval.bind_apply]
  rcases plan.run env (askFor none (resolveWithin env (depthOf pass.tree))) pass with ⟨_ | _, _⟩ <;>
    exact .finish

theorem execution_walk {pass : Pass} (coherent : Coherent document ⟨[], pass⟩) :
    Execution env document ⟨[], pass⟩ ⟨[], Traversal.visitDocument env pass⟩ ∧
      ∀ path state, (Traversal.visitDocument env pass).state? path = some state →
        state.IsSettled := by
  obtain ⟨reached, settled⟩ := execution_foldl (fun pass' path kept =>
    execution_resolveWithin kept (Nat.lt_add_right 1 (lt_depthOf coherent.shape)) path)
    pass.tree.formulas coherent
  rw [Traversal.visitDocument_eq]
  refine ⟨reached, fun path state here => ?_⟩
  have formula := (execution_coherent reached coherent).exists_state?_iff.mp ⟨state, here⟩
  obtain ⟨source, here'⟩ := formula
  obtain ⟨before, cell⟩ := Tree.cell?_of_shape coherent.shape here'
  exact settled path (Tree.mem_formulas_of_cell? cell) state here

theorem execution_answer {pass : Pass} (coherent : Coherent document ⟨[], pass⟩)
    (request : Request) :
    Execution env document ⟨[], pass⟩ ⟨[], request.answer env pass⟩ := by
  cases request with
  | resolve path => exact (execution_resolve coherent path).1
  | load place =>
    exact execution_of_describes (x := fun ask => place.load ask) coherent (Plan.expressed_load place).fits
      fun _ _ => Plan.describes_load place
  | field key place =>
    exact execution_of_describes (x := fun ask => place.field ask key) coherent
      (Plan.expressed_field key place).fits fun _ _ => Plan.describes_field key place
  | element index place =>
    exact execution_of_describes (x := fun ask => place.element ask index) coherent
      (Plan.expressed_element index place).fits fun _ _ => Plan.describes_element index place
  | express scope text =>
    exact execution_of_describes (x := fun ask => evaluate env ask scope text) coherent
      (Plan.fits_ofText scope text) fun _ steady => Plan.describes_ofText steady scope text
  | walk => exact (execution_walk coherent).1

theorem history_answerAll (requests : List Request) {paths : List DocPath} {pass : Pass}
    (h : History env document paths ⟨[], pass⟩) :
    ∃ more, History env document (paths ++ more) ⟨[], answerAll env requests pass⟩ := by
  induction requests generalizing paths pass with
  | nil => exact ⟨[], by rwa [List.append_nil]⟩
  | cons request rest ih =>
    obtain ⟨first, history⟩ := h.exists_append (execution_answer h.coherent request)
    obtain ⟨others, later⟩ := ih history
    exact ⟨first ++ others, by rw [← List.append_assoc]; exact later⟩

theorem settled_answerAll_walk (env : Environment) (document : Value) (requests : List Request)
    (path : DocPath) (state : CellState)
    (here : (answerAll env (requests ++ [.walk]) (Pass.start document)).state? path = some state) :
    state.IsSettled := by
  obtain ⟨_, before⟩ := history_answerAll requests
    (History.start : History env document [] ⟨[], Pass.start document⟩)
  rw [answerAll, List.foldl_append] at here
  exact (execution_walk before.coherent).2 path state here

/-- Asking for a formula that has come to an end changes nothing, whoever asks and however the formulas
that it needed would be asked for now. -/
theorem settle_of_settled {pass : Pass} {path : DocPath} {state : CellState}
    (here : pass.state? path = some state) (settled : state.IsSettled) (env : Environment)
    (ask : DocPath → Eval Value) (scope : Scope) : (settle env ask scope path pass).2 = pass := by
  obtain ⟨outcome, reply⟩ : ∃ outcome, pass.reply? path = some outcome := by
    rw [Pass.reply?, here]
    cases state with
    | unresolved | inProgress => exact settled.elim
    | resolved value => exact ⟨_, rfl⟩
    | failed kind => exact ⟨_, rfl⟩
  rw [settle_of_reply reply]

/-- Whatever is asked of a working tree, in any order, makes a history of steps. At each moment of a
history the tree has the document's shape, the formulas in progress are those under evaluation, and the
formulas begun so far, each of them once, are those that are not unresolved; a step changes the state
of a formula only from unresolved to in progress and from there to its end, where asking for it has no
effect any more. After a traversal every formula has been begun and has come to an end. -/
theorem life_of_formulas (env : Environment) (document : Value) :
    (∀ requests : List Request, ∃ paths,
      History env document paths ⟨[], answerAll env requests (Pass.start document)⟩) ∧
    (∀ paths m, History env document paths m →
      m.pass.tree.blank = Tree.ofValue document ∧
      (∀ path, m.pass.state? path = some .inProgress ↔ path ∈ owners m.stack) ∧
      (owners m.stack).Nodup ∧
      paths.Nodup ∧
      (∀ path, path ∈ paths ↔ (∃ source, document.get? path = some (.formula source)) ∧
        m.pass.state? path ≠ some .unresolved) ∧
      (∀ m', Step env document m m' → ∀ path state', m'.pass.state? path = some state' →
        ∃ state, m.pass.state? path = some state ∧ (state = state' ∨ state.Moves state')) ∧
      ∀ path state, m.pass.state? path = some state → state.IsSettled →
        (∀ m', Execution env document m m' → m'.pass.state? path = some state) ∧
        ∀ env' ask scope, (settle env' ask scope path m.pass).2 = m.pass) ∧
    ∀ requests : List Request, ∃ paths,
      History env document paths
        ⟨[], answerAll env (requests ++ [.walk]) (Pass.start document)⟩ ∧
      paths.Nodup ∧
      (∀ path, path ∈ paths ↔ ∃ source, document.get? path = some (.formula source)) ∧
      ∀ path state,
        (answerAll env (requests ++ [.walk]) (Pass.start document)).state? path = some state →
          state.IsSettled := by
  refine ⟨fun requests => history_answerAll requests .start, fun paths m history => ?_,
    fun requests => ?_⟩
  · have coherent := history.coherent
    obtain ⟨nodup, known⟩ := history.once
    exact ⟨coherent.shape, coherent.active, coherent.nodup, nodup, known,
      fun m' step path state' => step_moves step coherent, fun path state here settled =>
        ⟨fun m' later => execution_keeps_settled later coherent here settled,
          settle_of_settled here settled⟩⟩
  · obtain ⟨paths, history⟩ := history_answerAll (requests ++ [.walk])
      (History.start : History env document [] ⟨[], Pass.start document⟩)
    have settled := settled_answerAll_walk env document requests
    obtain ⟨nodup, known⟩ := history.once
    refine ⟨paths, history, nodup, fun path => ?_, settled⟩
    refine (known path).trans (and_iff_left_of_imp fun formula unresolved => ?_)
    exact settled path _ unresolved

end Machine

end FormulaDoc
