import Mathlib.Data.Fintype.Pigeonhole
import Mathlib.Data.Set.Finite.List
import FormulaDoc.Proofs.Evaluation.Accounting
import FormulaDoc.Proofs.Evaluation.Sinking

/-!
# Cyclic references

The formulas that the evaluation of a formula asks for are its edges. A formula is found to be in
progress by one member of a cycle only; that it is asked for while it runs makes every evaluation on
the stack fail, and the kind of fault goes down the stack with it. In the end the formulas that fail
as cyclic are exactly those from which the edges lead into a cycle.
-/
namespace FormulaDoc

open Relation

/-- In a finite set with a way on from everywhere, every way leads into a cycle. -/
theorem exists_cycle_of_finite {α : Type} {r : α → α → Prop} {s : Set α} (finite : s.Finite)
    (next : ∀ a ∈ s, ∃ b ∈ s, r a b) {a : α} (mem : a ∈ s) :
    ∃ b, ReflTransGen r a b ∧ TransGen r b b := by
  have : Finite s := finite
  have next' : ∀ x : s, ∃ y : s, r x y := fun x => by
    obtain ⟨b, inside, edge⟩ := next x x.2
    exact ⟨⟨b, inside⟩, edge⟩
  choose f hf using next'
  have walk : ∀ (n : ℕ) (x : s), ReflTransGen r x (f^[n] x : s) := by
    intro n
    induction n with
    | zero => exact fun x => .refl
    | succ n ih => exact fun x => .head (hf x) (ih (f x))
  have proper : ∀ (n : ℕ) (x : s), TransGen r x (f^[n + 1] x : s) :=
    fun n x => .head' (hf x) (walk n (f x))
  obtain ⟨i, j, apart, same⟩ :=
    Finite.exists_ne_map_eq_of_infinite fun n : ℕ => f^[n] (⟨a, mem⟩ : s)
  wlog less : i < j generalizing i j
  · exact this j i apart.symm same.symm (by omega)
  obtain ⟨d, rfl⟩ : ∃ d, j = d + 1 + i := ⟨j - i - 1, by omega⟩
  refine ⟨(f^[i] ⟨a, mem⟩ : s), walk i ⟨a, mem⟩, ?_⟩
  have around := proper d (f^[i] ⟨a, mem⟩)
  rw [← Function.iterate_add_apply] at around
  exact same ▸ around

namespace Pass

def AskedFor (pass : Pass) (path other : DocPath) : Prop := (some path, other) ∈ pass.needs

/-- A formula has come to an end and is not part of a cycle nor led to one. -/
def Calm (pass : Pass) (path : DocPath) : Prop :=
  ∀ state, pass.state? path = some state → state.IsSettled ∧ state ≠ .failed .cyclicReference

/-- A calm formula that has asked for such formulas only. -/
inductive Grounded (pass : Pass) : DocPath → Prop where
  | intro {path} : pass.Calm path → (∀ other, pass.AskedFor path other → Grounded pass other) →
      Grounded pass path

theorem Grounded.calm {pass : Pass} {path : DocPath} (h : pass.Grounded path) : pass.Calm path := by
  cases h with
  | intro calm _ => exact calm

theorem Grounded.edge {pass : Pass} {path other : DocPath} (h : pass.Grounded path)
    (edge : pass.AskedFor path other) : pass.Grounded other := by
  cases h with
  | intro _ edges => exact edges other edge

theorem Grounded.reach {pass : Pass} {path other : DocPath} (h : pass.Grounded path)
    (way : ReflTransGen pass.AskedFor path other) : pass.Grounded other := by
  induction way with
  | refl => exact h
  | tail _ edge ih => exact ih.edge edge

theorem Grounded.not_cycle {pass : Pass} {path : DocPath} (h : pass.Grounded path) :
    ¬ TransGen pass.AskedFor path path := by
  induction h with
  | intro _ _ ih =>
    intro cycle
    obtain ⟨other, edge, way⟩ := TransGen.head'_iff.mp cycle
    exact ih other edge (.tail' way edge)

/-- A grounded formula stays so while calm formulas neither change nor ask for more. -/
theorem Grounded.mono {pass pass' : Pass} (calm : ∀ path, pass.Calm path → pass'.Calm path)
    (edges : ∀ path other, pass.Calm path → pass'.AskedFor path other → pass.AskedFor path other)
    {path : DocPath} (h : pass.Grounded path) : pass'.Grounded path := by
  induction h with
  | intro here _ ih => exact .intro (calm _ here) fun other edge => ih other (edges _ _ here edge)

end Pass

namespace Machine

variable {env : Environment} {document : Value}

/-! ## Edges -/

/-- An edge is new only where the innermost evaluation asks for a formula. -/
theorem step_needs {m m' : Machine} (h : Step env document m m') :
    m'.pass.needs = m.pass.needs ∨ ∃ owner plan rest path, m.stack = ⟨owner, plan⟩ :: rest ∧
      plan.asked? = some path ∧ m'.pass.needs = (owner, path) :: m.pass.needs := by
  cases h with
  | enter asked cell => exact .inr ⟨_, _, _, _, rfl, asked, rfl⟩
  | reply asked reply => exact .inr ⟨_, _, _, _, rfl, asked, rfl⟩
  | leave => exact .inl (Pass.needs_conclude _ _ _)
  | call => exact .inl (Interpreter.needs_call _ _ _ _)
  | _ => exact .inl rfl

theorem step_askedFor {m m' : Machine} (h : Step env document m m') {path other : DocPath}
    (edge : m'.pass.AskedFor path other) :
    m.pass.AskedFor path other ∨ path ∈ owners m.stack := by
  rw [Pass.AskedFor] at edge ⊢
  rcases step_needs h with same | ⟨owner, plan, rest, asked, stack, _, more⟩
  · exact .inl (same ▸ edge)
  · rw [more, List.mem_cons] at edge
    rcases edge with new | old
    · cases new
      exact .inr (by simp [owners, stack])
    · exact .inl old

theorem step_needs_mono {m m' : Machine} (h : Step env document m m') :
    m.pass.needs ⊆ m'.pass.needs := by
  rcases step_needs h with same | ⟨owner, plan, rest, asked, _, _, more⟩
  · rw [same]
    exact List.Subset.refl _
  · rw [more]
    exact List.subset_cons_self _ _

theorem step_tail {m m' : Machine} (h : Step env document m m') {frame : Frame}
    (mem : frame ∈ m'.stack.tail) : frame ∈ m.stack := by
  cases h with
  | begin _ | express _ | finish => cases mem
  | enter _ _ => exact mem
  | @leave path outcome rest pass =>
    cases rest with
    | nil => cases mem
    | cons below rest => exact List.mem_cons_of_mem _ (List.mem_cons_of_mem _ mem)
  | _ => exact List.mem_cons_of_mem _ mem

/-- What is known of the edges at every moment: only a formula that has been begun asks for others,
and whoever waits for the evaluation above it has an edge to it. -/
structure Traced (m : Machine) : Prop where
  awake : ∀ path other, m.pass.AskedFor path other → m.pass.state? path ≠ some .unresolved
  noted : ∀ frame ∈ m.stack.tail, ∀ path, frame.plan.asked? = some path →
    (frame.owner, path) ∈ m.pass.needs

theorem start_traced (document : Value) : Traced ⟨[], Pass.start document⟩ :=
  ⟨fun _ _ edge => (List.not_mem_nil edge).elim, fun _ mem => (List.not_mem_nil mem).elim⟩

/-- Whatever an evaluation waits for is an edge once the next step is taken. -/
theorem Traced.step_waits {m m' : Machine} (hm : Traced m) (h : Step env document m m')
    {frame : Frame} (mem : frame ∈ m.stack) {path : DocPath}
    (asked : frame.plan.asked? = some path) : (frame.owner, path) ∈ m'.pass.needs := by
  -- an edge from below the innermost evaluation is there before the step, and the step keeps it
  have kept : frame ∈ m.stack.tail → (frame.owner, path) ∈ m'.pass.needs :=
    fun deeper => step_needs_mono h (hm.noted frame deeper path asked)
  cases h with
  | begin _ | express _ => cases mem
  | enter request _ | reply request _ =>
    rcases List.mem_cons.mp mem with rfl | deeper
    · cases request.symm.trans asked
      exact List.mem_cons_self
    · exact kept deeper
  | _ =>
    rcases List.mem_cons.mp mem with rfl | deeper
    · cases asked
    · exact kept deeper

theorem step_traced {m m' : Machine} (h : Step env document m m')
    (coherent : Coherent document m) (hm : Traced m) : Traced m' := by
  refine ⟨fun path other edge fresh => ?_, fun frame mem path asked =>
    hm.step_waits h (step_tail h mem) asked⟩
  have before := step_unresolved h fresh
  rcases step_askedFor h edge with old | busy
  · exact hm.awake path other old before
  · rw [(coherent.active path).mpr busy] at before
    cases before

/-! ## Formulas outside of cycles -/

theorem step_calm {m m' : Machine} (h : Step env document m m')
    (coherent : Coherent document m) {path : DocPath} (calm : m.pass.Calm path) :
    m'.pass.Calm path := by
  intro state here
  obtain ⟨before, there⟩ := coherent.exists_state?_iff.mpr
    ((step_coherent h coherent).exists_state?_iff.mp ⟨state, here⟩)
  rw [step_keeps_settled h coherent there (calm before there).1] at here
  exact Option.some.inj here ▸ calm before there

theorem step_grounded {m m' : Machine} (h : Step env document m m')
    (coherent : Coherent document m) {path : DocPath} (grounded : m.pass.Grounded path) :
    m'.pass.Grounded path := by
  refine grounded.mono (fun other calm => step_calm h coherent calm) fun other next calm edge => ?_
  refine (step_askedFor h edge).resolve_right fun busy => ?_
  exact (calm _ ((coherent.active other).mpr busy)).1

/-- What is known of formulas outside of cycles: all that a calm one has asked for is calm as well,
and so is all that an evaluation has asked for which goes on, except for what it waits for. -/
structure Cleared (m : Machine) : Prop where
  grounded : ∀ path, m.pass.Calm path → m.pass.Grounded path
  pending : ∀ frame ∈ m.stack, ∀ path, frame.owner = some path → ¬ frame.plan.Sinks →
    ∀ other, m.pass.AskedFor path other →
      m.pass.Grounded other ∨ frame.plan.asked? = some other

theorem start_cleared (document : Value) : Cleared ⟨[], Pass.start document⟩ :=
  ⟨fun _ calm => .intro calm fun _ edge => (List.not_mem_nil edge).elim,
    fun _ mem => (List.not_mem_nil mem).elim⟩

/-- A calm formula is grounded from the moment that it comes to an end. -/
theorem step_calm_grounded {m m' : Machine} (h : Step env document m m')
    (coherent : Coherent document m) (hm : Cleared m) {path : DocPath}
    (calm : m'.pass.Calm path) : m'.pass.Grounded path := by
  by_cases before : m.pass.Calm path
  · exact step_grounded h coherent (hm.grounded path before)
  · rw [Pass.Calm] at before
    push Not at before
    obtain ⟨state, there, moving⟩ := before
    obtain ⟨state', here⟩ := (step_coherent h coherent).exists_state?_iff.mpr
      (coherent.exists_state?_iff.mp ⟨state, there⟩)
    obtain ⟨settled, kind⟩ := calm state' here
    rcases step_settles h here settled with same | ⟨outcome, rest, stack, rfl, rfl⟩
    · rw [there] at same
      cases same
      exact absurd (moving settled) kind
    · refine .intro calm fun other edge => step_grounded h coherent ?_
      rw [Pass.AskedFor, Pass.needs_conclude] at edge
      have ended : ¬ (Plan.done outcome).Sinks := by
        rintro ⟨e, failed, cyclic⟩
        cases failed
        exact kind (congrArg CellState.failed cyclic)
      rcases hm.pending _ (stack ▸ List.mem_cons_self) path rfl ended other edge with known | asked
      · exact known
      · cases asked

/-- A formula whose value or failure lets an evaluation go on is calm. -/
theorem calm_of_reply {pass : Pass} {path : DocPath} {outcome : Except EvalError Value}
    (h : pass.reply? path = some outcome) {plan : Plan Value} (asked : plan.asked? = some path)
    (floats : ¬ (plan.deliver outcome).Sinks) : pass.Calm path := by
  intro state here
  rw [Pass.reply?, here] at h
  cases state with
  | unresolved => cases h
  | resolved value => exact ⟨trivial, by simp⟩
  | inProgress =>
    cases h
    rw [Plan.sinks_deliver_iff asked] at floats
    exact absurd rfl floats
  | failed kind =>
    cases h
    rw [Plan.sinks_deliver_iff asked, kind_dependencyFailed_iff] at floats
    exact ⟨trivial, fun same => floats (CellState.failed.inj same)⟩

/-- The end of an evaluation that lets another one go on leaves a calm formula. -/
theorem calm_of_verdict {pass : Pass} {path : DocPath} {outcome : Except EvalError Value}
    (h : pass.state? path = some (.ofOutcome outcome)) {plan : Plan Value}
    (asked : plan.asked? = some path)
    (floats : ¬ (plan.deliver (Resolution.verdict path outcome)).Sinks) : pass.Calm path := by
  intro state here
  rw [h] at here
  cases here
  refine ⟨CellState.isSettled_ofOutcome outcome, ?_⟩
  cases outcome with
  | ok value => simp [CellState.ofOutcome]
  | error e =>
    rw [Resolution.verdict, Plan.sinks_deliver_iff asked, kind_dependencyFailed_iff] at floats
    exact fun same => floats (CellState.failed.inj same)

theorem Coherent.owner_ne {frame other : Frame} {rest : List Frame} {pass : Pass}
    (h : Coherent document ⟨frame :: rest, pass⟩) (mem : other ∈ rest) {path : DocPath}
    (owner : other.owner = some path) : frame.owner ≠ some path := by
  intro same
  have nodup := h.nodup
  simp only [owners, List.filterMap_cons, same, List.nodup_cons] at nodup
  exact nodup.1 (List.mem_filterMap.mpr ⟨other, mem, owner⟩)

/-- New edges of an evaluation lead to what it waits for. -/
theorem step_edge {m m' : Machine} (h : Step env document m m') (coherent : Coherent document m)
    {frame : Frame} (mem : frame ∈ m.stack) {path other : DocPath}
    (owner : frame.owner = some path) (edge : m'.pass.AskedFor path other) :
    m.pass.AskedFor path other ∨ frame.plan.asked? = some other := by
  rw [Pass.AskedFor] at edge ⊢
  rcases step_needs h with same | ⟨asker, plan, rest, needed, stack, asked, more⟩
  · exact .inl (same ▸ edge)
  · rw [more, List.mem_cons] at edge
    rcases edge with new | old
    · cases new
      obtain ⟨_, pass⟩ := m
      subst stack
      rcases List.mem_cons.mp mem with rfl | later
      · exact .inr asked
      · exact absurd rfl (coherent.owner_ne later owner)
    · exact .inl old

theorem step_cleared {m m' : Machine} (h : Step env document m m')
    (coherent : Coherent document m) (traced : Traced m) (hm : Cleared m) : Cleared m' := by
  have calmed : ∀ path, m'.pass.Calm path → m'.pass.Grounded path :=
    fun path => step_calm_grounded h coherent hm
  refine ⟨calmed, fun frame mem path owner floats other edge => ?_⟩
  -- what an evaluation from before the step has asked for once the step is taken
  have before : ∀ frame ∈ m.stack, frame.owner = some path → ¬ frame.plan.Sinks →
      m'.pass.Grounded other ∨ frame.plan.asked? = some other := by
    intro frame mem owner floats
    rcases step_edge h coherent mem owner edge with old | asked
    · exact (hm.pending frame mem path owner floats other old).imp_left (step_grounded h coherent)
    · exact .inr asked
  have delivered : ∀ frame ∈ m.stack, ∀ needed, frame.owner = some path →
      frame.plan.asked? = some needed → m'.pass.Calm needed → m'.pass.Grounded other := by
    intro frame mem needed owner asked calm
    rcases before frame mem owner (Plan.not_sinks_of_asked asked) with known | same
    · exact known
    · rw [asked] at same
      exact Option.some.inj same ▸ calmed needed calm
  have done : ∀ frame ∈ m.stack, frame.owner = some path → frame.plan.asked? = none →
      (∀ outcome, frame.plan ≠ .done outcome) → m'.pass.Grounded other := by
    intro frame mem owner quiet going
    rcases before frame mem owner (Plan.not_sinks_of_ne_done going) with known | asked
    · exact known
    · rw [quiet] at asked
      cases asked
  cases step_origin h coherent mem with
  | kept older => exact before frame older owner floats
  | @formula begun source cell =>
    cases owner
    rcases step_askedFor h edge with old | busy
    · exact absurd (state?_unresolved cell) (traced.awake _ _ old)
    · exact absurd busy (coherent.not_mem_owners cell)
  | expression _ => cases owner
  | reply asker asked reply =>
    exact .inl (delivered _ asker _ owner asked
      (step_calm h coherent (calm_of_reply reply asked floats)))
  | verdict asker asked ended =>
    exact .inl (delivered _ asker _ owner asked (calm_of_verdict ended asked floats))
  | gather loader => exact .inl (done _ loader owner rfl (by simp))
  | collect loader => exact .inl (done _ loader owner rfl (by simp))
  | call caller => exact .inl (done _ caller owner rfl (by simp))

/-! ## Complete passes -/

theorem execution_traced {m m' : Machine} (h : Execution env document m m')
    (coherent : Coherent document m) (hm : Traced m) : Traced m' := by
  induction h with
  | refl => exact hm
  | tail before step ih => exact step_traced step (execution_coherent before coherent) ih

theorem execution_cleared {m m' : Machine} (h : Execution env document m m')
    (coherent : Coherent document m) (traced : Traced m) (hm : Cleared m) : Cleared m' := by
  induction h with
  | refl => exact hm
  | tail before step ih =>
    exact step_cleared step (execution_coherent before coherent)
      (execution_traced before coherent traced) ih

theorem execution_trapped {m m' : Machine} (h : Execution env document m m')
    (coherent : Coherent document m) (traced : Traced m) (hm : Trapped m.pass.AskedFor m) :
    Trapped m'.pass.AskedFor m' := by
  induction h with
  | refl => exact hm
  | tail before step ih =>
    have noted := execution_traced before coherent traced
    refine step_trapped step (execution_coherent before coherent)
      (fun path other edge => step_needs_mono step edge) (fun frame mem path other owner asked => ?_) ih
    have edge := noted.step_waits step mem asked
    rw [owner] at edge
    exact edge

/-- In the end the formulas that have failed as cyclic are those that lead into a cycle. -/
theorem Complete.cyclic_iff {pass : Pass} (h : Complete env document pass) (path : DocPath) :
    pass.state? path = some (.failed .cyclicReference) ↔
      ∃ other, ReflTransGen pass.AskedFor path other ∧ TransGen pass.AskedFor other other := by
  have coherent := start_coherent document
  have traced := start_traced document
  constructor
  · intro failed
    have trapped := execution_trapped h.reached coherent traced (start_trapped _ document)
    have finite : {p | pass.state? p = some (.failed .cyclicReference)}.Finite := by
      refine (List.finite_toSet pass.tree.formulas).subset fun p here => ?_
      obtain ⟨cell, found, _⟩ := Option.map_eq_some_iff.mp here
      exact Tree.mem_formulas_of_cell? found
    refine exists_cycle_of_finite finite (fun p here => ?_) failed
    obtain ⟨other, edge, next⟩ := trapped p (.inl here)
    rcases next with failed | ⟨mem, _⟩
    · exact ⟨other, failed, edge⟩
    · cases mem
  · rintro ⟨other, way, cycle⟩
    by_contra apart
    have calm : pass.Calm path := fun state here =>
      ⟨h.settled path state here, fun same => apart (same ▸ here)⟩
    have cleared := execution_cleared h.reached coherent traced (start_cleared document)
    exact ((cleared.grounded path calm).reach way).not_cycle cycle

end Machine

/-- A formula is reported as cyclic exactly if the formulas that were asked for, from it on, lead to
one that lies on a cycle. -/
theorem Engine.cyclicReference_reported_iff (engine : Engine) (around : Surroundings)
    (document : Value) (path : DocPath) :
    (∃ failure, engine.evaluate around document = .error failure ∧
      ∃ fault ∈ failure.faults, fault.path = path ∧ fault.kind = .cyclicReference) ↔
    ∃ other, ReflTransGen (engine.finalPass around document).AskedFor path other ∧
      TransGen (engine.finalPass around document).AskedFor other other := by
  rw [← (engine.complete_finalPass around document).cyclic_iff, ← mem_report_iff]
  constructor
  · rintro ⟨failure, failed, found⟩
    rwa [evaluate_eq_error_iff.mp failed] at found
  · rintro ⟨fault, mem, here⟩
    exact ⟨⟨_, List.ne_nil_of_mem mem⟩, evaluate_eq_error_iff.mpr rfl, fault, mem, here⟩

end FormulaDoc
