import FormulaDoc.Proofs.Evaluation.Execution

/-!
# Sinking

That a formula is needed while it is in progress makes the innermost evaluation fail, and with it all
evaluations on the stack: each of them waits for the one above, and the kind of failure goes down from
one to the next. Formulas under evaluation are doomed from that moment on.
-/
namespace FormulaDoc

/-- A plan that fails as part of a cycle or because of one. -/
def Plan.Sinks {α : Type} (plan : Plan α) : Prop :=
  ∃ e, plan = .fail e ∧ e.kind = .cyclicReference

theorem Plan.Proceeds.not_sinks {α : Type} {document : Value} {plan : Plan α}
    (proceeds : plan.Proceeds document) : ¬ plan.Sinks := by
  rintro ⟨e, rfl, kind⟩
  exact proceeds.kind_ne kind

theorem Plan.not_sinks_of_ne_done {α : Type} {plan : Plan α}
    (going : ∀ outcome, plan ≠ .done outcome) : ¬ plan.Sinks := by
  rintro ⟨e, same, _⟩
  exact going _ same

theorem Plan.not_sinks_of_asked {α : Type} {plan : Plan α} {path : DocPath}
    (asked : plan.asked? = some path) : ¬ plan.Sinks :=
  not_sinks_of_ne_done (ne_done_of_asked asked)

/-- An error that a plan gets sinks it if a cycle is the cause. -/
theorem Plan.sinks_deliver_iff {α : Type} {plan : Plan α} {path : DocPath}
    (asked : plan.asked? = some path) {e : EvalError} :
    (plan.deliver (.error e)).Sinks ↔ e.kind = .cyclicReference := by
  rw [Plan.deliver_error asked]
  constructor
  · rintro ⟨e', same, kind⟩
    cases same
    exact kind
  · exact fun kind => ⟨e, rfl, kind⟩

namespace Machine

variable {env : Environment} {document : Value}

/-- The innermost evaluation fails because of a cycle, so that all of them will. -/
def Sinking : List Frame → Prop
  | [] => False
  | frame :: _ => frame.plan.Sinks

/-- A formula that has failed because of a cycle or is bound to. -/
def Doomed (m : Machine) (path : DocPath) : Prop :=
  m.pass.state? path = some (.failed .cyclicReference) ∨ (path ∈ owners m.stack ∧ Sinking m.stack)

theorem kind_dependencyFailed_iff {path : DocPath} {kind : FaultKind} :
    (EvalError.dependencyFailed path kind).kind = .cyclicReference ↔ kind = .cyclicReference := by
  simp only [EvalError.kind]
  split <;> simp_all

/-- What is doomed remains so: a failure because of a cycle goes down the stack. -/
theorem step_doomed {m m' : Machine} (h : Step env document m m')
    (coherent : Coherent document m) {path : DocPath} (doomed : Doomed m path) :
    Doomed m' path := by
  rcases doomed with failed | ⟨mem, sinking⟩
  · exact .inl (step_keeps_settled h coherent failed trivial)
  · cases h with
    | begin _ | express _ => cases mem
    | enter asked _ | reply asked _ => exact absurd sinking (Plan.not_sinks_of_asked asked)
    | @leave ended outcome rest pass =>
      obtain ⟨e, same, kind⟩ := sinking
      cases same
      rcases List.mem_cons.mp mem with rfl | later
      · left
        rw [Pass.state?_conclude, if_pos rfl, (coherent.active path).mpr mem]
        exact congrArg (some ∘ CellState.failed) kind
      · right
        rw [owners_deliver]
        refine ⟨later, ?_⟩
        cases rest with
        | nil => cases later
        | cons below rest =>
          exact (Plan.sinks_deliver_iff (coherent.asked rfl)).mpr
            (kind_dependencyFailed_iff.mpr kind)
    | finish => cases mem
    | _ =>
      obtain ⟨e, same, _⟩ := sinking
      cases same

/-- An error because of a cycle comes from a formula that is under evaluation or has failed so. -/
theorem doomed_of_reply {owner : Option DocPath} {plan : Plan Value} {rest : List Frame}
    {pass : Pass} (coherent : Coherent document ⟨⟨owner, plan⟩ :: rest, pass⟩) {path : DocPath}
    {e : EvalError} (reply : pass.reply? path = some (.error e)) (kind : e.kind = .cyclicReference)
    {plan' : Plan Value} {pass' : Pass} (same : pass'.tree = pass.tree)
    (sinking : plan'.Sinks) : Doomed ⟨⟨owner, plan'⟩ :: rest, pass'⟩ path := by
  rw [Pass.reply?] at reply
  split at reply
  · cases reply
    cases kind
  · cases reply
  · next busy =>
    right
    exact ⟨(coherent.active path).mp busy, sinking⟩
  · next failure failed =>
    cases reply
    left
    rw [Pass.state?_of_tree same, failed, kind_dependencyFailed_iff.mp kind]
  · cases reply

/-- What makes all evaluations fail is that the innermost one has asked for a doomed formula. -/
theorem step_sinking {m m' : Machine} (h : Step env document m m')
    (coherent : Coherent document m) (sinking : Sinking m'.stack) :
    (Sinking m.stack ∧ ∀ path ∈ owners m'.stack, path ∈ owners m.stack) ∨
      ∃ owner plan plan' rest path, m.stack = ⟨owner, plan⟩ :: rest ∧
        plan.asked? = some path ∧ m'.stack = ⟨owner, plan'⟩ :: rest ∧ Doomed m' path := by
  cases h with
  | begin _ | enter _ _ => exact absurd sinking (Plan.fits_ofText _ _).proceeds.not_sinks
  | express plan => exact absurd sinking plan.proceeds.not_sinks
  | @reply owner plan rest pass path outcome asked reply =>
    refine .inr ⟨_, _, _, _, path, rfl, asked, rfl, ?_⟩
    cases outcome with
    | ok value =>
      have fits := proceeds_of_asked (coherent.fits _ List.mem_cons_self) asked
      exact absurd sinking (fits.deliver value).not_sinks
    | error e =>
      have kind := (Plan.sinks_deliver_iff asked).mp sinking
      exact doomed_of_reply coherent reply kind rfl sinking
  | @leave ended outcome rest pass =>
    left
    cases rest with
    | nil => exact sinking.elim
    | cons below rest =>
      have within : ∀ path ∈ owners (deliver (Resolution.verdict ended outcome) (below :: rest)),
          path ∈ ended :: owners (below :: rest) := by
        intro path mem
        rw [owners_deliver] at mem
        exact List.mem_cons_of_mem _ mem
      refine ⟨?_, within⟩
      have asked := coherent.asked rfl
      cases outcome with
      | ok value =>
        have fits := proceeds_of_asked (coherent.fits below (by simp)) asked
        exact absurd sinking (fits.deliver value).not_sinks
      | error e =>
        exact ⟨e, rfl, kind_dependencyFailed_iff.mp ((Plan.sinks_deliver_iff asked).mp sinking)⟩
  | finish => exact sinking.elim
  | gather =>
    obtain ⟨e, same, _⟩ := sinking
    cases same
  | collect =>
    have fits := proceeds_of_ne_done (coherent.fits _ List.mem_cons_self) (by simp)
    exact absurd sinking (fits_collected_bind fits.2 _ _).proceeds.not_sinks
  | call =>
    have fits := proceeds_of_ne_done (coherent.fits _ List.mem_cons_self) (by simp)
    exact absurd sinking (fits_call_bind fits _ _ _ _).proceeds.not_sinks

/-- Whatever is under evaluation below the innermost waits for what is above it. -/
theorem Coherent.waits_above {frame : Frame} {rest : List Frame} {pass : Pass}
    (h : Coherent document ⟨frame :: rest, pass⟩) {path : DocPath} (mem : path ∈ owners rest) :
    ∃ below ∈ rest, below.owner = some path ∧
      ∃ other ∈ owners (frame :: rest), below.plan.asked? = some other := by
  have linked := h.linked
  clear h
  induction rest generalizing frame with
  | nil => cases mem
  | cons next rest ih =>
    obtain ⟨⟨above, owner, asked⟩, later⟩ := List.isChain_cons_cons.mp linked
    obtain ⟨holder, inside, same⟩ := List.mem_filterMap.mp mem
    rcases List.mem_cons.mp inside with rfl | deeper
    · exact ⟨holder, List.mem_cons_self, same, above, by simp [owners, owner], asked⟩
    · obtain ⟨below, there, path, other, held, waits⟩ :=
        ih (List.mem_filterMap.mpr ⟨holder, deeper, same⟩) later
      obtain ⟨holder, inside, same⟩ := List.mem_filterMap.mp held
      exact ⟨below, List.mem_cons_of_mem _ there, path, other,
        List.mem_filterMap.mpr ⟨holder, List.mem_cons_of_mem _ inside, same⟩, waits⟩

/-- Every doomed formula is related to another one. -/
def Trapped (edge : DocPath → DocPath → Prop) (m : Machine) : Prop :=
  ∀ path, Doomed m path → ∃ other, edge path other ∧ Doomed m other

theorem start_trapped (edge : DocPath → DocPath → Prop) (document : Value) :
    Trapped edge ⟨[], Pass.start document⟩ := by
  rintro path (failed | ⟨mem, _⟩)
  · cases state?_start failed
  · cases mem

/-- Doomed formulas stay related to one another, if a formula under evaluation is related to what its
evaluation waits for. -/
theorem step_trapped {m m' : Machine} (h : Step env document m m')
    (coherent : Coherent document m) {edge edge' : DocPath → DocPath → Prop}
    (grows : ∀ path other, edge path other → edge' path other)
    (waits : ∀ frame ∈ m.stack, ∀ path other, frame.owner = some path →
      frame.plan.asked? = some other → edge' path other)
    (hm : Trapped edge m) : Trapped edge' m' := by
  intro path doomed
  by_cases before : Doomed m path
  · obtain ⟨other, related, next⟩ := hm path before
    exact ⟨other, grows path other related, step_doomed h coherent next⟩
  · rcases doomed with failed | ⟨mem, sinking⟩
    · refine absurd ?_ before
      rcases step_settles h failed trivial with old | ⟨outcome, rest, stack, same, _⟩
      · exact .inl old
      · refine .inr ⟨by simp [stack, owners], ?_⟩
        cases outcome with
        | ok value => cases same
        | error e =>
          rw [stack]
          exact ⟨e, rfl, (CellState.failed.inj same).symm⟩
    · rcases step_sinking h coherent sinking with
        ⟨sank, within⟩ | ⟨owner, plan, plan', rest, asked, stack, request, stack', next⟩
      · exact absurd (.inr ⟨within path mem, sank⟩) before
      · obtain ⟨_, pass⟩ := m
        subst stack
        rw [stack'] at mem
        obtain ⟨frame, inside, same⟩ := List.mem_filterMap.mp mem
        rcases List.mem_cons.mp inside with rfl | deeper
        · exact ⟨asked, waits _ List.mem_cons_self path asked same request, next⟩
        · obtain ⟨below, there, owned, other, held, waiting⟩ :=
            coherent.waits_above (List.mem_filterMap.mpr ⟨frame, deeper, same⟩)
          refine ⟨other, waits below (List.mem_cons_of_mem _ there) path other owned waiting, ?_⟩
          exact .inr ⟨stack' ▸ held, sinking⟩

end Machine

end FormulaDoc
