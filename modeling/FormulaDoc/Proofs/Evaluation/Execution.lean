import Mathlib.Data.List.Perm.Subperm
import FormulaDoc.Engine
import FormulaDoc.Proofs.Evaluation.Machine
import FormulaDoc.Proofs.Evaluation.Scoping

/-!
# Evaluation is an execution

Resolving a formula by recursion takes the machine through the same passes, step by step. The levels
that the recursion is allowed are never used up: a formula in each of them is in progress, and there
are no more formulas than levels.
-/
namespace FormulaDoc

open Resolution

variable {env : Environment} {document : Value}

namespace Pass

theorem reply?_eq_none_iff {pass : Pass} {path : DocPath} :
    pass.reply? path = none ↔ ∃ source, pass.tree.cell? path = some ⟨source, .unresolved⟩ := by
  rw [reply?, state?]
  rcases pass.tree.cell? path with _ | ⟨source, _ | _ | _ | _⟩ <;> simp

end Pass

namespace Resolution

variable {ask : DocPath → Eval Value}

theorem settle_of_reply {pass : Pass} {path : DocPath} {outcome : Except EvalError Value}
    (h : pass.reply? path = some outcome) (scope : Scope) :
    settle env ask scope path pass = (outcome, pass) := by
  rw [Pass.reply?, Pass.state?] at h
  rw [settle, Eval.bind_apply, Eval.read]
  rcases found : pass.tree.cell? path with _ | ⟨source, _ | _ | _ | _⟩ <;>
    simp only [found, Option.map_none, Option.map_some, Option.some.injEq, reduceCtorEq] at h <;>
    subst h <;> rfl

theorem settle_of_unresolved {pass : Pass} {path : DocPath} {source : String}
    (h : pass.tree.cell? path = some ⟨source, .unresolved⟩) (scope : Scope) :
    settle env ask scope path pass = start env ask scope path source pass := by
  rw [settle, Eval.bind_apply, Eval.read, h]

theorem steady_askFor (steady : Steady document ask) (asker : Option DocPath) :
    Steady document (askFor asker ask) :=
  fun path pass shape => steady path (pass.note asker path) shape

/-- Beginning a formula runs its plan and keeps what comes of it. -/
theorem start_eq (steady : Steady document ask) {pass : Pass} (path : DocPath) (source : String)
    (shape : pass.tree.blank = Tree.ofValue document) :
    start env ask (Scope.ofFormula path) path source pass =
      let ran := (Machine.frameOf document path source).plan.run env (askFor (some path) ask)
        (pass.setState path .inProgress)
      (verdict path ran.1, ran.2.conclude path ran.1) := by
  have described : evaluate env (askFor (some path) ask) (Scope.ofFormula path) source
      (pass.setState path .inProgress) = _ :=
    Plan.describes_ofText (steady_askFor steady (some path)) (Scope.ofFormula path) source _
      ((Tree.blank_setState _ _ _).trans shape)
  simp only [start, described, conclude_eq, Machine.frameOf]

theorem steady_resolveWithin (env : Environment) (depth : Nat) :
    Steady document (resolveWithin env depth) := by
  induction depth with
  | zero => exact fun _ _ shape => shape
  | succ depth ih =>
    intro path pass shape
    show (settle env (resolveWithin env depth) (Scope.ofFormula path) path pass).2.tree.blank = _
    cases reply : pass.reply? path with
    | some outcome =>
      rw [settle_of_reply reply]
      exact shape
    | none =>
      obtain ⟨source, cell⟩ := Pass.reply?_eq_none_iff.mp reply
      rw [settle_of_unresolved cell, start_eq ih path source shape, Pass.blank_conclude]
      exact Plan.steady_run (steady_askFor ih _) _ ((Tree.blank_setState _ _ _).trans shape)

end Resolution

namespace Machine

/-- No more formulas are under evaluation than there are. -/
theorem Coherent.length_owners_le {stack : List Frame} {pass : Pass}
    (h : Coherent document ⟨stack, pass⟩) :
    (owners stack).length ≤ (Tree.ofValue document).formulas.length := by
  refine (List.subperm_of_subset h.nodup fun path mem => ?_).length_le
  obtain ⟨cell, found, _⟩ := Option.map_eq_some_iff.mp ((h.active path).mpr mem)
  rw [← h.shape, Tree.formulas_eq_cellsWithin, Tree.cellsWithin_blank]
  exact Tree.mem_formulas_of_cell? found

/-- Whether some levels are enough for all formulas that are not under evaluation yet. -/
def Roomy (document : Value) (depth : Nat) (stack : List Frame) : Prop :=
  (Tree.ofValue document).formulas.length < depth + (owners stack).length

/-- The machine asks for formulas as a function does that has some levels left. -/
def Follows (env : Environment) (document : Value) (depth : Nat) (ask : DocPath → Eval Value) :
    Prop :=
  ∀ owner plan rest pass path, Coherent document ⟨⟨owner, plan⟩ :: rest, pass⟩ →
    Roomy document depth (⟨owner, plan⟩ :: rest) → plan.asked? = some path →
    Run env document ⟨⟨owner, plan⟩ :: rest, pass⟩
      ⟨⟨owner, plan.deliver (askFor owner ask path pass).1⟩ :: rest, (askFor owner ask path pass).2⟩

variable {ask : DocPath → Eval Value} {depth : Nat}

section Running

variable {owner : Option DocPath} {rest : List Frame}

/-- The plan of the innermost evaluation runs to its end. -/
def Finishes (env : Environment) (document : Value) (depth : Nat) (ask : DocPath → Eval Value)
    (owner : Option DocPath) (rest : List Frame) (plan : Plan Value) : Prop :=
  ∀ pass, Coherent document ⟨⟨owner, plan⟩ :: rest, pass⟩ →
    Roomy document depth (⟨owner, plan⟩ :: rest) →
    Run env document ⟨⟨owner, plan⟩ :: rest, pass⟩
      ⟨⟨owner, .done (plan.run env (askFor owner ask) pass).1⟩ :: rest,
        (plan.run env (askFor owner ask) pass).2⟩

/-- A plan that asks for a formula finishes if it does so with every value that it may get. -/
theorem Follows.finishes (follows : Follows env document depth ask) {plan : Plan Value}
    {path : DocPath} (asked : plan.asked? = some path)
    (unfolds : ∀ pass, plan.run env (askFor owner ask) pass =
      match askFor owner ask path pass with
      | (.ok value, pass') => (plan.deliver (.ok value)).run env (askFor owner ask) pass'
      | (.error e, pass') => (.error e, pass'))
    (next : ∀ value, Finishes env document depth ask owner rest (plan.deliver (.ok value))) :
    Finishes env document depth ask owner rest plan := by
  intro pass coherent roomy
  have first := follows owner plan rest pass path coherent roomy asked
  rw [unfolds]
  rcases answer : askFor owner ask path pass with ⟨e | value, pass'⟩ <;> rw [answer] at first
  · rw [Plan.deliver_error asked] at first
    exact first
  · exact first.trans (next value pass' (execution_coherent first.execution coherent) roomy)

theorem finishes_done_bind {next : Value → Plan Value} {outcome : Except EvalError Value}
    (ih : ∀ value, Finishes env document depth ask owner rest (next value)) :
    Finishes env document depth ask owner rest (.done outcome >>= next) := by
  cases outcome with
  | error e => exact fun pass _ _ => .refl
  | ok value => exact ih value

theorem Follows.finishes_await (follows : Follows env document depth ask) (path : DocPath)
    (waiting : List DocPath) {next : Value → Plan Value}
    (ih : ∀ value, Finishes env document depth ask owner rest (next value)) :
    Finishes env document depth ask owner rest (.await path waiting next) := by
  induction waiting with
  | nil =>
    intro pass coherent roomy
    have step : Step env document ⟨⟨owner, .await path [] next⟩ :: rest, pass⟩ _ := .collect
    have later := finishes_done_bind ih pass (step_coherent step coherent) roomy
    refine .head step.inner ?_
    rw [Plan.run_bind] at later
    exact later
  | cons q waiting ihw =>
    refine follows.finishes (show _ = some q from rfl) (fun pass => ?_) fun _ => ihw
    simp only [Plan.run_await, Plan.settleNode, Place.askAll, Plan.deliver, Eval.bind_apply]
    rcases askFor owner ask q pass with ⟨_ | _, _⟩ <;> rfl

/-- The machine runs a plan to its end as a function does whose requests it follows. -/
theorem Follows.finishes_run (follows : Follows env document depth ask) (plan : Plan Value) :
    Finishes env document depth ask owner rest plan := by
  induction plan with
  | done outcome => exact fun pass _ _ => .refl
  | ask path next ih =>
    refine follows.finishes (show _ = some path from rfl) (fun pass => ?_) ih
    rw [Plan.run_ask, Eval.bind_apply]
    rcases askFor owner ask path pass with ⟨_ | _, _⟩ <;> rfl
  | gather path next ih =>
    intro pass coherent roomy
    have step : Step env document ⟨⟨owner, .gather path next⟩ :: rest, pass⟩ _ := .gather
    exact .head step.inner (follows.finishes_await path _ ih pass (step_coherent step coherent) roomy)
  | await path waiting next ih => exact follows.finishes_await path waiting ih
  | call name args next ih =>
    intro pass coherent roomy
    have step : Step env document ⟨⟨owner, .call name args next⟩ :: rest, pass⟩ _ := .call
    have later := finishes_done_bind ih _ (step_coherent step coherent) roomy
    refine .head step.inner ?_
    rw [Plan.run_bind] at later
    exact later

end Running

/-- Recursion with enough levels left is what the machine does. -/
theorem follows_resolveWithin (env : Environment) (document : Value) (depth : Nat) :
    Follows env document depth (resolveWithin env depth) := by
  induction depth with
  | zero =>
    intro owner plan rest pass path coherent roomy
    have := coherent.length_owners_le
    rw [Roomy] at roomy
    omega
  | succ depth ih =>
    intro owner plan rest pass path coherent roomy asked
    have noted : (pass.note owner path).tree.blank = Tree.ofValue document := coherent.shape
    rw [show askFor owner (resolveWithin env (depth + 1)) path pass =
      settle env (resolveWithin env depth) (Scope.ofFormula path) path (pass.note owner path) from
      rfl]
    cases reply : (pass.note owner path).reply? path with
    | some outcome =>
      rw [settle_of_reply reply]
      have step : Step env document ⟨⟨owner, plan⟩ :: rest, pass⟩ _ := .reply asked reply
      exact .single step.inner
    | none =>
      obtain ⟨source, cell⟩ := Pass.reply?_eq_none_iff.mp reply
      rw [settle_of_unresolved cell,
        start_eq (steady_resolveWithin env depth) path source noted]
      have enter : Step env document ⟨⟨owner, plan⟩ :: rest, pass⟩ _ := .enter asked cell
      refine .head enter.inner (.tail (ih.finishes_run _ _ (step_coherent enter coherent) ?_)
        (Step.inner .leave))
      rw [Roomy] at roomy ⊢
      simp only [owners, List.filterMap_cons, List.length_cons] at roomy ⊢
      omega

theorem resolveWithin_of_reply (positive : 0 < depth) {pass : Pass} {path : DocPath}
    {outcome : Except EvalError Value} (reply : pass.reply? path = some outcome) :
    resolveWithin env depth path pass = (outcome, pass) := by
  obtain ⟨depth, rfl⟩ : ∃ d, depth = d + 1 := ⟨depth - 1, by omega⟩
  exact settle_of_reply reply (Scope.ofFormula path)

/-- An unresolved formula goes in progress, is run to its end, and keeps what it has come to. -/
theorem run_resolveWithin {pass : Pass} (coherent : Coherent document ⟨[], pass⟩)
    (enough : (Tree.ofValue document).formulas.length < depth) {path : DocPath} {source : String}
    (cell : pass.tree.cell? path = some ⟨source, .unresolved⟩) :
    ∃ outcome last, resolveWithin env depth path pass =
        (verdict path outcome, last.conclude path outcome) ∧
      Run env document ⟨[frameOf document path source], pass.setState path .inProgress⟩
        ⟨[⟨some path, .done outcome⟩], last⟩ := by
  obtain ⟨depth, rfl⟩ : ∃ d, depth = d + 1 := ⟨depth - 1, by omega⟩
  have begun : Step env document ⟨[], pass⟩ _ := .begin cell
  have runs := (follows_resolveWithin env document depth).finishes_run
    (frameOf document path source).plan _ (step_coherent begun coherent) enough
  refine ⟨_, _, ?_, runs⟩
  rw [resolveWithin, settle_of_unresolved cell,
    start_eq (steady_resolveWithin env depth) path source coherent.shape]

/-- Resolving one formula is an execution, and afterwards it has come to an end. -/
theorem execution_resolveWithin {pass : Pass} (coherent : Coherent document ⟨[], pass⟩)
    (enough : (Tree.ofValue document).formulas.length < depth) (path : DocPath) :
    Execution env document ⟨[], pass⟩ ⟨[], (resolveWithin env depth path pass).2⟩ ∧
      ∀ state, (resolveWithin env depth path pass).2.state? path = some state →
        state.IsSettled := by
  cases reply : pass.reply? path with
  | some outcome =>
    rw [resolveWithin_of_reply (Nat.zero_lt_of_lt enough) reply]
    refine ⟨.refl, ?_⟩
    intro state here
    cases state with
    | unresolved => simp [Pass.reply?, here] at reply
    | inProgress => exact (List.not_mem_nil ((coherent.active path).mp here)).elim
    | _ => trivial
  | none =>
    obtain ⟨source, cell⟩ := Pass.reply?_eq_none_iff.mp reply
    obtain ⟨outcome, last, resolved, runs⟩ := run_resolveWithin coherent enough cell
    have begun : Step env document ⟨[], pass⟩ _ := .begin cell
    rw [resolved]
    refine ⟨.head begun (.tail runs.execution .leave), ?_⟩
    intro state here
    rw [Pass.state?_conclude, if_pos rfl] at here
    obtain ⟨_, _, rfl⟩ := Option.map_eq_some_iff.mp here
    exact CellState.isSettled_ofOutcome _

/-! ## Complete passes -/

/-- A pass that an execution from the beginning leaves when every formula has come to an end. -/
structure Complete (env : Environment) (document : Value) (pass : Pass) : Prop where
  reached : Execution env document ⟨[], Pass.start document⟩ ⟨[], pass⟩
  settled : ∀ path state, pass.state? path = some state → state.IsSettled

theorem Complete.coherent {pass : Pass} (h : Complete env document pass) :
    Coherent document ⟨[], pass⟩ := execution_coherent h.reached (start_coherent document)

/-- Formulas resolved one after another by a function that resolves each of them. -/
theorem execution_foldl {resolved : Pass → DocPath → Pass}
    (each : ∀ pass path, Coherent document ⟨[], pass⟩ →
      Execution env document ⟨[], pass⟩ ⟨[], resolved pass path⟩ ∧
        ∀ state, (resolved pass path).state? path = some state → state.IsSettled)
    (order : List DocPath) {pass : Pass} (coherent : Coherent document ⟨[], pass⟩) :
    Execution env document ⟨[], pass⟩ ⟨[], order.foldl resolved pass⟩ ∧
      ∀ path ∈ order, ∀ state, (order.foldl resolved pass).state? path = some state →
        state.IsSettled := by
  induction order generalizing pass with
  | nil => exact ⟨.refl, fun _ mem => (List.not_mem_nil mem).elim⟩
  | cons first order ih =>
    obtain ⟨here, done⟩ := each pass first coherent
    have kept := execution_coherent here coherent
    obtain ⟨later, others⟩ := ih kept
    refine ⟨here.trans later, fun path mem state found => ?_⟩
    rcases List.mem_cons.mp mem with rfl | mem
    · obtain ⟨middle, before⟩ := kept.exists_state?_iff.mpr
        ((execution_coherent later kept).exists_state?_iff.mp ⟨state, found⟩)
      rw [List.foldl_cons,
        execution_keeps_settled later kept before (done middle before)] at found
      exact Option.some.inj found ▸ done middle before
    · exact others path mem state found

/-- Formulas resolved one after another leave a complete pass if they are all formulas. -/
theorem complete_foldl {resolved : Pass → DocPath → Pass}
    (each : ∀ pass path, Coherent document ⟨[], pass⟩ →
      Execution env document ⟨[], pass⟩ ⟨[], resolved pass path⟩ ∧
        ∀ state, (resolved pass path).state? path = some state → state.IsSettled)
    {order : List DocPath}
    (covers : ∀ path source, document.get? path = some (.formula source) → path ∈ order) :
    Complete env document (order.foldl resolved (Pass.start document)) := by
  obtain ⟨reached, settled⟩ := execution_foldl each order (start_coherent document)
  refine ⟨reached, fun path state here => ?_⟩
  have coherent := execution_coherent reached (start_coherent document)
  obtain ⟨source, formula⟩ := coherent.exists_state?_iff.mp ⟨state, here⟩
  exact settled path (covers path source formula) state here

theorem mem_formulas_of_get? {path : DocPath} {source : String}
    (h : document.get? path = some (.formula source)) : path ∈ (Tree.ofValue document).formulas := by
  obtain ⟨state, cell⟩ := Tree.cell?_of_shape (Tree.blank_ofValue document) h
  exact Tree.mem_formulas_of_cell? cell

theorem lt_depthOf {tree : Tree} (shape : tree.blank = Tree.ofValue document) :
    (Tree.ofValue document).formulas.length < depthOf tree := by
  rw [depthOf, Tree.formulas_eq_cellsWithin tree, ← Tree.cellsWithin_blank, shape]
  exact Nat.lt_succ_self _

/-- Resolving one formula is an execution, with the levels that its tree asks for. -/
theorem execution_resolve {pass : Pass} (coherent : Coherent document ⟨[], pass⟩) (path : DocPath) :
    Execution env document ⟨[], pass⟩ ⟨[], (resolve env path pass).2⟩ ∧
      ∀ state, (resolve env path pass).2.state? path = some state → state.IsSettled :=
  execution_resolveWithin coherent (lt_depthOf coherent.shape) path

theorem complete_resolve (env : Environment) {order : List DocPath}
    (covers : ∀ path source, document.get? path = some (.formula source) → path ∈ order) :
    Complete env document
      (order.foldl (fun pass path => (resolve env path pass).2) (Pass.start document)) :=
  complete_foldl (fun _ path coherent => execution_resolve coherent path) covers

/-- An expression that is not part of the document runs to its end, with any number of levels above
the number of formulas. -/
theorem run_evaluate (env : Environment) (text : String) (data : Value) {depth : Nat}
    (enough : (Tree.ofValue data).formulas.length < depth) :
    let ran := evaluate env (askFor none (resolveWithin env depth)) Scope.root text (Pass.start data)
    Run env data ⟨[⟨none, Plan.ofText data Scope.root text⟩], Pass.start data⟩
      ⟨[⟨none, .done ran.1⟩], ran.2⟩ := by
  intro ran
  have shape : (Pass.start data).tree.blank = Tree.ofValue data := Tree.blank_ofValue data
  have steady : Steady data (resolveWithin env depth) := steady_resolveWithin env depth
  have express : Step env data ⟨[], Pass.start data⟩
      ⟨[⟨none, Plan.ofText data Scope.root text⟩], Pass.start data⟩ :=
    .express (Plan.fits_ofText Scope.root text)
  have begun := step_coherent express (start_coherent data)
  have described : ran = _ :=
    Plan.describes_ofText (steady_askFor steady none) Scope.root text (Pass.start data) shape
  rw [described]
  exact (follows_resolveWithin env data depth).finishes_run _ _ begun enough

end Machine

/-! ## Traversal -/

namespace Traversal

variable (env : Environment) (depth : Nat)

def resolveEach (order : List DocPath) (pass : Pass) : Pass :=
  order.foldl (fun pass path => (resolveWithin env (depth + 1) path pass).2) pass

/-- Traversal resolves all formulas of a document in document order. -/
theorem visitDocument_eq (pass : Pass) :
    visitDocument env pass = resolveEach env (depthOf pass.tree) pass.tree.formulas pass := by
  rw [visitDocument_eq_settleEach, settlings_eq, settleEach, List.foldl_map]
  rfl

theorem complete_visitDocument (env : Environment) (document : Value) :
    Machine.Complete env document (visitDocument env (Pass.start document)) := by
  rw [visitDocument_eq]
  refine Machine.complete_foldl (fun pass path coherent => ?_)
    fun path source => Machine.mem_formulas_of_get?
  refine Machine.execution_resolveWithin coherent ?_ path
  exact Nat.lt_add_right 1 (Nat.lt_succ_self _)

end Traversal

namespace Engine

def finalPass (engine : Engine) (around : Surroundings) (document : Value) : Pass :=
  Traversal.visitDocument (engine.environment around) (Pass.start document)

theorem complete_finalPass (engine : Engine) (around : Surroundings) (document : Value) :
    Machine.Complete (engine.environment around) document (engine.finalPass around document) :=
  Traversal.complete_visitDocument _ _

/-- The evaluation of an expression that is not part of the document is an execution as well. It may
leave formulas that nothing has needed. -/
theorem execution_runExpression (engine : Engine) (around : Surroundings) (text : String)
    (data : Value) :
    Machine.Execution (engine.environment around) data ⟨[], Pass.start data⟩
      ⟨[], (engine.runExpression around text data).2⟩ := by
  have runs := Machine.run_evaluate (engine.environment around) text data (Nat.lt_succ_self _)
  exact .head (.express (Plan.fits_ofText Scope.root text)) (.tail runs.execution .finish)

end Engine

end FormulaDoc
