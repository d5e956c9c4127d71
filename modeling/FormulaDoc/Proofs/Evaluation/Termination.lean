import Mathlib.Data.Finset.Card
import FormulaDoc.Proofs.Evaluation.Execution

/-!
# Every evaluation ends

While something is under way there is exactly one next step. It begins a formula that was unresolved,
or ends an evaluation, or brings the innermost one closer to its end, so that nothing goes on forever.
No more formulas are under evaluation at once than there are, and the recursion comes to the same with
any number of levels above that.
-/
namespace FormulaDoc

open Relation Resolution

namespace Plan

/-! ## What is left of a plan -/

/-- What may be left of a plan once its next request is dealt with. -/
inductive Rest : Plan Value → Plan Value → Prop where
  | deliver {plan path} (outcome : Except EvalError Value) : plan.asked? = some path →
      Rest (plan.deliver outcome) plan
  | gather {path next} (waiting : List DocPath) : Rest (.await path waiting next) (.gather path next)
  | collect {path next} (outcome : Except EvalError Value) :
      Rest (.done outcome >>= next) (.await path [] next)
  | call {name args next} (outcome : Except EvalError Value) :
      Rest (.done outcome >>= next) (.call name args next)

theorem acc_done (outcome : Except EvalError Value) : Acc Rest (.done outcome) := by
  constructor
  intro plan rest
  cases rest with
  | deliver _ asked => cases asked

theorem acc_done_bind {next : Value → Plan Value} (ih : ∀ value, Acc Rest (next value))
    (outcome : Except EvalError Value) : Acc Rest (.done outcome >>= next) := by
  cases outcome with
  | ok value => exact ih value
  | error e => exact acc_done (.error e)

theorem acc_await {next : Value → Plan Value} (ih : ∀ value, Acc Rest (next value))
    (path : DocPath) (waiting : List DocPath) : Acc Rest (.await path waiting next) := by
  induction waiting with
  | nil =>
    constructor
    intro plan rest
    cases rest with
    | deliver _ asked => cases asked
    | collect outcome => exact acc_done_bind ih outcome
  | cons first waiting fewer =>
    constructor
    intro plan rest
    cases rest with
    | deliver outcome _ =>
      cases outcome with
      | ok _ => exact fewer
      | error e => exact acc_done (.error e)

/-- A plan does not go on forever, whatever it is told. -/
theorem wellFounded_rest : WellFounded Rest := by
  constructor
  intro plan
  induction plan with
  | done outcome => exact acc_done outcome
  | ask path next ih =>
    constructor
    intro plan rest
    cases rest with
    | deliver outcome _ =>
      cases outcome with
      | ok value => exact ih value
      | error e => exact acc_done (.error e)
  | gather path next ih =>
    constructor
    intro plan rest
    cases rest with
    | deliver _ asked => cases asked
    | gather waiting => exact acc_await ih path waiting
  | await path waiting next ih => exact acc_await ih path waiting
  | call name args next ih =>
    constructor
    intro plan rest
    cases rest with
    | deliver _ asked => cases asked
    | call outcome => exact acc_done_bind ih outcome

end Plan

/-! ## Formulas that may still be begun -/

def Pass.fresh (pass : Pass) : Finset DocPath :=
  pass.tree.formulas.toFinset.filter fun path => (pass.state? path).any CellState.isUnresolved

theorem Pass.mem_fresh_iff {pass : Pass} {path : DocPath} :
    path ∈ pass.fresh ↔ pass.state? path = some .unresolved := by
  simp only [fresh, Finset.mem_filter, List.mem_toFinset]
  constructor
  · rintro ⟨_, unresolved⟩
    cases here : pass.state? path with
    | none => simp [here] at unresolved
    | some state =>
      rw [here] at unresolved
      cases state with
      | unresolved => rfl
      | inProgress | resolved _ | failed _ => cases unresolved
  · intro here
    obtain ⟨cell, found, _⟩ := Option.map_eq_some_iff.mp here
    refine ⟨Tree.mem_formulas_of_cell? found, ?_⟩
    rw [here]
    rfl

namespace Machine

variable {env : Environment} {document : Value}

theorem step_fresh {m m' : Machine} (h : Step env document m m') : m'.pass.fresh ⊆ m.pass.fresh := by
  intro path mem
  rw [Pass.mem_fresh_iff] at mem ⊢
  exact step_unresolved h mem

theorem fresh_ssubset {pass pass' : Pass} {path : DocPath} (fewer : pass'.fresh ⊆ pass.fresh)
    (before : pass.state? path = some .unresolved)
    (after : pass'.state? path ≠ some .unresolved) : pass'.fresh ⊂ pass.fresh := by
  refine Finset.ssubset_iff_subset_ne.mpr ⟨fewer, ?_⟩
  intro same
  have mem : path ∈ pass'.fresh := same ▸ Pass.mem_fresh_iff.mpr before
  exact after (Pass.mem_fresh_iff.mp mem)

/-! ## No step forever -/

/-- How many formulas may still be begun, how many evaluations are under way, and what the innermost
one has still to do. -/
def outlook (m : Machine) : Nat × Nat × Plan Value :=
  (m.pass.fresh.card, m.stack.length, (m.stack.head?.map Frame.plan).getD (.done (.ok .null)))

/-- Whether less is to be done: fewer formulas may be begun, or as many of them and fewer evaluations
are under way, or as many of these and the innermost one has less to do. -/
def Less : Nat × Nat × Plan Value → Nat × Nat × Plan Value → Prop :=
  Prod.Lex Nat.lt (Prod.Lex Nat.lt Plan.Rest)

theorem wellFounded_less : WellFounded Less :=
  WellFounded.prod_lex Nat.lt_wfRel.wf (WellFounded.prod_lex Nat.lt_wfRel.wf Plan.wellFounded_rest)

/-- Each step of an evaluation leaves less to be done. -/
theorem step_less {m m' : Machine} (h : Step env document m m') (busy : m.stack ≠ []) :
    Less m'.outlook m.outlook := by
  have fewer : m'.pass.fresh.card ≤ m.pass.fresh.card := Finset.card_le_card (step_fresh h)
  have shrinks := step_fresh h
  cases h with
  | begin _ | express _ => exact absurd rfl busy
  | @enter owner plan rest pass path source asked cell =>
    have begun : ((pass.note owner path).setState path .inProgress).state? path ≠
        some .unresolved := by
      rw [Pass.state?_setState, if_pos rfl, Pass.state?_note, state?_unresolved cell]
      exact nofun
    have proper := fresh_ssubset shrinks (state?_unresolved cell) begun
    exact .left _ _ (Finset.card_lt_card proper)
  | @leave path outcome rest pass =>
    have shorter : (deliver (verdict path outcome) rest).length < rest.length + 1 := by
      cases rest with
      | nil => exact Nat.one_pos
      | cons below rest => exact Nat.lt_succ_self _
    exact .right' _ fewer (.left _ _ shorter)
  | finish => exact .right' _ fewer (.left _ _ Nat.one_pos)
  | reply asked _ => exact .right' _ fewer (.right _ (.deliver _ asked))
  | gather => exact .right' _ fewer (.right _ (.gather _))
  | collect => exact .right' _ fewer (.right _ (.collect _))
  | call => exact .right' _ fewer (.right _ (.call _))

/-- No evaluation goes on forever, also where formulas need themselves. -/
theorem wellFounded_step (env : Environment) (document : Value) :
    WellFounded fun m' m => m.stack ≠ [] ∧ Step env document m m' := by
  have descends : Subrelation (fun m' m => m.stack ≠ [] ∧ Step env document m m')
      (InvImage Less outlook) := by
    rintro m' m ⟨busy, step⟩
    exact step_less step busy
  exact descends.wf (InvImage.wf outlook wellFounded_less)

/-! ## One next step -/

theorem step_unique {m m' m'' : Machine} (h : Step env document m m')
    (h' : Step env document m m'') (busy : m.stack ≠ []) : m' = m'' := by
  -- a formula that has to be begun gives no reply
  have apart : ∀ {pass : Pass} {path source outcome},
      pass.tree.cell? path = some ⟨source, .unresolved⟩ → pass.reply? path ≠ some outcome := by
    intro pass path source outcome cell reply
    rw [Pass.reply?_eq_none_iff.mpr ⟨source, cell⟩] at reply
    cases reply
  cases h with
  | begin _ | express _ => exact absurd rfl busy
  | enter asked cell =>
    cases h' with
    | enter asked' cell' =>
      cases asked.symm.trans asked'
      cases cell.symm.trans cell'
      rfl
    | reply asked' reply =>
      cases asked.symm.trans asked'
      exact absurd reply (apart cell)
    | _ => cases asked
  | reply asked reply =>
    cases h' with
    | enter asked' cell =>
      cases asked.symm.trans asked'
      exact absurd reply (apart cell)
    | reply asked' reply' =>
      cases asked.symm.trans asked'
      cases reply.symm.trans reply'
      rfl
    | _ => cases asked
  | leave | finish | gather | collect | call =>
    cases h' with
    | enter asked _ | reply asked _ => cases asked
    | _ => rfl

/-- An evaluation is never stuck. -/
theorem exists_step {m : Machine} (coherent : Coherent document m) (busy : m.stack ≠ []) :
    ∃ m', Step env document m m' := by
  obtain ⟨_ | ⟨⟨owner, plan⟩, rest⟩, pass⟩ := m
  · exact absurd rfl busy
  · cases asked : plan.asked? with
    | some path =>
      cases reply : pass.reply? path with
      | some outcome => exact ⟨_, .reply asked reply⟩
      | none =>
        obtain ⟨source, cell⟩ := Pass.reply?_eq_none_iff.mp reply
        exact ⟨_, .enter asked cell⟩
    | none =>
      cases plan with
      | done outcome =>
        cases owner with
        | some path => exact ⟨_, .leave⟩
        | none =>
          cases rest with
          | nil => exact ⟨_, .finish⟩
          | cons below rest =>
            -- whatever is above another evaluation belongs to a formula
            obtain ⟨path, owner, _⟩ := (List.isChain_cons_cons.mp coherent.linked).1
            cases owner
      | ask _ _ => cases asked
      | gather _ _ => exact ⟨_, .gather⟩
      | await _ waiting _ =>
        cases waiting with
        | nil => exact ⟨_, .collect⟩
        | cons _ _ => cases asked
      | call _ _ _ => exact ⟨_, .call⟩

theorem existsUnique_step {m : Machine} (coherent : Coherent document m) (busy : m.stack ≠ []) :
    ∃! m', Step env document m m' := by
  obtain ⟨m', step⟩ := exists_step coherent busy
  exact ⟨m', step, fun m'' other => step_unique other step busy⟩

/-- Nothing follows within an evaluation that has come to its end. -/
theorem Run.eq_of_done {owner : Option DocPath} {outcome : Except EvalError Value} {pass : Pass}
    {m : Machine} (h : Run env document ⟨[⟨owner, .done outcome⟩], pass⟩ m) :
    m = ⟨[⟨owner, .done outcome⟩], pass⟩ := by
  rcases h.cases_head with same | ⟨next, ⟨step, _, busy⟩, _⟩
  · exact same.symm
  · cases step with
    | enter asked _ | reply asked _ => cases asked
    | leave | finish => exact absurd rfl busy

/-- A run comes to one end only. -/
theorem Run.unique {m : Machine} {owner owner' : Option DocPath}
    {outcome outcome' : Except EvalError Value} {pass pass' : Pass}
    (h : Run env document m ⟨[⟨owner, .done outcome⟩], pass⟩)
    (h' : Run env document m ⟨[⟨owner', .done outcome'⟩], pass'⟩) :
    outcome = outcome' ∧ pass = pass' := by
  have one : Relator.RightUnique (Inner env document) :=
    fun _ _ _ first second => step_unique first.1 second.1 first.2.1
  rcases ReflTransGen.total_of_right_unique one h h' with on | on
  · have same := Run.eq_of_done on
    cases same
    exact ⟨rfl, rfl⟩
  · have same := Run.eq_of_done on
    cases same
    exact ⟨rfl, rfl⟩

/-! ## Levels of recursion -/

variable {depth depth' : Nat}

theorem resolveWithin_levels {pass : Pass} (coherent : Coherent document ⟨[], pass⟩)
    (enough : (Tree.ofValue document).formulas.length < depth)
    (enough' : (Tree.ofValue document).formulas.length < depth') (path : DocPath) :
    resolveWithin env depth path pass = resolveWithin env depth' path pass := by
  cases reply : pass.reply? path with
  | some outcome =>
    rw [resolveWithin_of_reply (Nat.zero_lt_of_lt enough) reply,
      resolveWithin_of_reply (Nat.zero_lt_of_lt enough') reply]
  | none =>
    obtain ⟨source, cell⟩ := Pass.reply?_eq_none_iff.mp reply
    obtain ⟨outcome, last, resolved, runs⟩ := run_resolveWithin coherent enough cell
    obtain ⟨outcome', last', resolved', runs'⟩ := run_resolveWithin coherent enough' cell
    obtain ⟨rfl, rfl⟩ := Run.unique runs runs'
    rw [resolved, resolved']

theorem resolveEach_levels {pass : Pass} (coherent : Coherent document ⟨[], pass⟩)
    (enough : (Tree.ofValue document).formulas.length ≤ depth)
    (enough' : (Tree.ofValue document).formulas.length ≤ depth') (order : List DocPath) :
    Traversal.resolveEach env depth order pass = Traversal.resolveEach env depth' order pass := by
  induction order generalizing pass with
  | nil => rfl
  | cons path order ih =>
    have less := Nat.lt_succ_of_le enough
    have same : resolveWithin env (depth + 1) path pass = resolveWithin env (depth' + 1) path pass :=
      resolveWithin_levels coherent less (Nat.lt_succ_of_le enough') path
    have reached : Execution env document ⟨[], pass⟩ _ := (execution_resolveWithin coherent less path).1
    have later := ih (execution_coherent reached coherent)
    rw [same] at later
    rw [Traversal.resolveEach, Traversal.resolveEach, List.foldl_cons, List.foldl_cons, same]
    exact later

theorem evaluate_levels (text : String) (enough : (Tree.ofValue document).formulas.length < depth)
    (enough' : (Tree.ofValue document).formulas.length < depth') :
    evaluate env (askFor none (resolveWithin env depth)) Scope.root text (Pass.start document) =
      evaluate env (askFor none (resolveWithin env depth')) Scope.root text
        (Pass.start document) := by
  have runs := run_evaluate env text document enough
  have runs' := run_evaluate env text document enough'
  obtain ⟨outcome, after⟩ := Run.unique runs runs'
  exact Prod.ext outcome after

end Machine

/-- Evaluation always ends. Steps within an evaluation cannot go on forever. At every moment no more
formulas are under evaluation than the document has, and there is exactly one next step until nothing
is under way. The evaluation of a document and that of an expression are made of such steps, up to
their end, and they come to the same however many levels of recursion are allowed, once there are more
of them than formulas. -/
theorem Engine.evaluation_ends (engine : Engine) (around : Surroundings) (document : Value) :
    let env := engine.environment around
    let formulas := (Tree.ofValue document).formulas
    (WellFounded fun m' m => m.stack ≠ [] ∧ Machine.Step env document m m') ∧
    (∀ m, Machine.Execution env document ⟨[], Pass.start document⟩ m →
      (Machine.owners m.stack).length ≤ formulas.length ∧
      (m.stack ≠ [] → ∃! m', Machine.Step env document m m')) ∧
    Machine.Execution env document ⟨[], Pass.start document⟩
      ⟨[], engine.finalPass around document⟩ ∧
    (∀ text, Machine.Run env document
      ⟨[⟨none, Plan.ofText document Scope.root text⟩], Pass.start document⟩
      ⟨[⟨none, .done (engine.runExpression around text document).1⟩],
        (engine.runExpression around text document).2⟩) ∧
    ∀ depth, formulas.length < depth →
      Traversal.resolveEach env depth formulas (Pass.start document) =
        engine.finalPass around document ∧
      ∀ text, Resolution.evaluate env (askFor none (resolveWithin env depth)) Scope.root text
        (Pass.start document) = engine.runExpression around text document := by
  intro env formulas
  have enough : formulas.length < depthOf (Pass.start document).tree := Nat.lt_succ_self _
  refine ⟨Machine.wellFounded_step env document, ?_, ?_, ?_, ?_⟩
  · intro m reached
    have coherent := Machine.execution_coherent reached (Machine.start_coherent document)
    exact ⟨coherent.length_owners_le, Machine.existsUnique_step coherent⟩
  · exact (engine.complete_finalPass around document).reached
  · intro text
    exact Machine.run_evaluate env text document enough
  · intro depth more
    constructor
    · rw [finalPass, Traversal.visitDocument_eq]
      exact Machine.resolveEach_levels (Machine.start_coherent document) (Nat.le_of_lt more)
        (Nat.le_of_lt enough) formulas
    · intro text
      exact Machine.evaluate_levels text more enough

end FormulaDoc
