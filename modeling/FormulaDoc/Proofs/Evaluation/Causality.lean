import FormulaDoc.Proofs.Evaluation.Cycle

/-!
# Causes before their effects

A formula that fails because another one did is recorded after it. Where a formula fails because another
one is still in progress, that one is part of the same cycle, and its own failure is recorded when its
evaluation ends: later, or at the same place if the formula needs itself. So the first error of a
failure is always a cause of its own.
-/
namespace FormulaDoc

/-- What has an index in a list with one more entry: an old entry, or the new one at the end. -/
theorem getElem?_concat_cases {α : Type} {entries : List α} {last found : α} {i : Nat}
    (h : (entries ++ [last])[i]? = some found) :
    (entries[i]? = some found ∧ (entries ++ [last]).take i = entries.take i) ∨
      (found = last ∧ (entries ++ [last]).take i = entries) := by
  by_cases old : i < entries.length
  · left
    rw [List.getElem?_append_left old] at h
    exact ⟨h, List.take_append_of_le_length (Nat.le_of_lt old)⟩
  · right
    have later : entries.length ≤ i := Nat.le_of_not_lt old
    rw [List.getElem?_append_right later] at h
    have first : i - entries.length = 0 := by
      by_contra beyond
      rw [List.getElem?_eq_none (by simp; omega)] at h
      cases h
    have same : i = entries.length := by omega
    rw [first] at h
    exact ⟨(Option.some.inj h).symm, by rw [same, List.take_left]⟩

theorem exists_lt_of_mem_take {α : Type} {entries : List α} {found : α} {i : Nat}
    (h : found ∈ entries.take i) : ∃ j < i, entries[j]? = some found := by
  obtain ⟨j, here⟩ := List.mem_iff_getElem?.mp h
  have early : j < i := by
    by_contra late
    rw [List.getElem?_take_eq_none (Nat.le_of_not_lt late)] at here
    cases here
  rw [List.getElem?_take_of_lt early] at here
  exact ⟨j, early, here⟩

namespace Machine

variable {env : Environment} {document : Value}

/-! ## Where failures come from -/

/-- A plan that proceeds fails by an error of its own only. -/
theorem own_of_proceeds {plan : Plan Value} (proceeds : plan.Proceeds document) {e : EvalError}
    (same : plan = .fail e) : e.Own := by
  subst same
  exact proceeds

theorem fail_of_deliver {plan : Plan Value} {path : DocPath} {outcome : Except EvalError Value}
    (fits : plan.Proceeds document ∨ ∃ e, plan = .fail e) (asked : plan.asked? = some path)
    {e : EvalError} (same : plan.deliver outcome = .fail e) (foreign : ¬ e.Own) :
    outcome = .error e := by
  cases outcome with
  | ok value =>
    have proceeds := (proceeds_of_asked fits asked).deliver value
    exact absurd (own_of_proceeds proceeds same) foreign
  | error e' =>
    rw [Plan.deliver_error asked] at same
    cases same
    rfl

/-- An evaluation that fails by an error that is not its own has failed before, or has just got the
error from the formula that it asked for. -/
theorem Origin.failure {m m' : Machine} {frame : Frame} (h : Origin env document m m' frame)
    (coherent : Coherent document m) {e : EvalError} (same : frame.plan = .fail e)
    (foreign : ¬ e.Own) :
    frame ∈ m.stack ∨ ∃ plan path, ⟨frame.owner, plan⟩ ∈ m.stack ∧ plan.asked? = some path ∧
      (m.pass.reply? path = some (.error e) ∨
        ∃ kind, e = .dependencyFailed path kind ∧ m'.pass.state? path = some (.failed kind)) := by
  cases h with
  | kept mem => exact .inl mem
  | formula _ => exact absurd (own_of_proceeds (Plan.fits_ofText _ _).proceeds same) foreign
  | expression fits => exact absurd (own_of_proceeds fits.proceeds same) foreign
  | @reply owner plan path outcome mem asked reply =>
    have error := fail_of_deliver (coherent.fits _ mem) asked same foreign
    exact .inr ⟨plan, path, mem, asked, .inl (error ▸ reply)⟩
  | @verdict owner plan path outcome mem asked ended =>
    have error := fail_of_deliver (coherent.fits _ mem) asked same foreign
    cases outcome with
    | ok value => cases error
    | error e' =>
      cases error
      exact .inr ⟨plan, path, mem, asked, .inr ⟨e'.kind, rfl, ended⟩⟩
  | gather _ => cases same
  | collect mem =>
    have before := proceeds_of_ne_done (coherent.fits _ mem) (by simp)
    exact absurd (own_of_proceeds (fits_collected_bind before.2 _ _).proceeds same) foreign
  | call mem =>
    have before := proceeds_of_ne_done (coherent.fits _ mem) (by simp)
    exact absurd (own_of_proceeds (fits_call_bind before _ _ _ _).proceeds same) foreign

theorem failed_of_reply {pass : Pass} {path needed : DocPath} {kind : FaultKind}
    (h : pass.reply? path = some (.error (.dependencyFailed needed kind))) :
    path = needed ∧ pass.state? path = some (.failed kind) := by
  rw [Pass.reply?] at h
  split at h <;> cases h
  exact ⟨rfl, by assumption⟩

theorem inProgress_of_reply {pass : Pass} {path needed : DocPath}
    (h : pass.reply? path = some (.error (.cyclicReference needed))) :
    path = needed ∧ pass.state? path = some .inProgress := by
  rw [Pass.reply?] at h
  split at h <;> cases h
  exact ⟨rfl, by assumption⟩

/-- Errors are recorded only where the evaluation of a formula ends with one. -/
theorem step_errors {m m' : Machine} (h : Step env document m m') :
    m'.pass.errors = m.pass.errors ∨ ∃ path e rest, m.stack = ⟨some path, .fail e⟩ :: rest ∧
      m'.pass.errors = m.pass.errors ++ [(path, e)] := by
  cases h with
  | @leave path outcome rest pass =>
    cases outcome with
    | ok value => exact .inl rfl
    | error e => exact .inr ⟨path, e, rest, rfl, rfl⟩
  | call => exact .inl (Interpreter.errors_call _ _ _ _)
  | _ => exact .inl rfl

/-- What is recorded has been recorded before or is what an evaluation under way has come to. -/
theorem step_recorded {m m' : Machine} (h : Step env document m m') {path : DocPath} {e : EvalError}
    (mem : (path, e) ∈ m'.pass.errors) :
    (path, e) ∈ m.pass.errors ∨ ⟨some path, .fail e⟩ ∈ m.stack := by
  rcases step_errors h with same | ⟨ended, cause, rest, stack, more⟩
  · exact .inl (same ▸ mem)
  · rw [more, List.mem_append, List.mem_singleton] at mem
    rcases mem with older | new
    · exact .inl older
    · cases new
      exact .inr (stack ▸ List.mem_cons_self)

/-- Errors are added at the end of the list only. -/
theorem step_errors_grow {m m' : Machine} (h : Step env document m m') :
    m.pass.errors <+: m'.pass.errors := by
  rcases step_errors h with same | ⟨path, e, rest, _, more⟩
  · rw [same]
  · rw [more]
    exact List.prefix_append _ _

theorem execution_errors_grow {m m' : Machine} (h : Execution env document m m') :
    m.pass.errors <+: m'.pass.errors := by
  induction h with
  | refl => exact List.prefix_rfl
  | tail _ step ih => exact ih.trans (step_errors_grow step)

/-! ## The order of errors -/

/-- What is known of failures at every moment. A recorded one that another formula is the cause of has
asked for that one, which is recorded before it or bound to be recorded later; and an evaluation that is
about to fail so has its cause recorded already or below it on the stack. -/
structure Explained (m : Machine) : Prop where
  depends : ∀ i path needed kind,
    m.pass.errors[i]? = some (path, .dependencyFailed needed kind) →
      m.pass.AskedFor path needed ∧ ∃ e, (needed, e) ∈ m.pass.errors.take i ∧ e.kind = kind
  cycles : ∀ i path needed, m.pass.errors[i]? = some (path, .cyclicReference needed) →
    m.pass.AskedFor path needed ∧ needed ∉ (m.pass.errors.take i).map Prod.fst ∧ Doomed m needed
  failing : ∀ frame ∈ m.stack, ∀ needed kind, frame.plan = .fail (.dependencyFailed needed kind) →
    (frame.owner, needed) ∈ m.pass.needs ∧ ∃ e, (needed, e) ∈ m.pass.errors ∧ e.kind = kind
  closing : ∀ frame rest needed, m.stack = frame :: rest →
    frame.plan = .fail (.cyclicReference needed) →
      (frame.owner, needed) ∈ m.pass.needs ∧ needed ∈ owners m.stack

theorem start_explained (document : Value) : Explained ⟨[], Pass.start document⟩ := by
  have none : ∀ i : Nat, (Pass.start document).errors[i]? = none := fun _ => List.getElem?_nil
  constructor
  · intro i path needed kind here
    rw [none i] at here
    cases here
  · intro i path needed here
    rw [none i] at here
    cases here
  · intro frame mem
    exact absurd mem List.not_mem_nil
  · intro frame rest needed stack
    cases stack

/-- Whoever fails because a formula did has that failure on record. -/
theorem step_failing {m m' : Machine} (h : Step env document m m')
    (coherent : Coherent document m) (accounted : Accounted m.pass) (traced : Traced m)
    (hm : Explained m) {frame : Frame} (mem : frame ∈ m'.stack) {needed : DocPath}
    {kind : FaultKind} (same : frame.plan = .fail (.dependencyFailed needed kind)) :
    (frame.owner, needed) ∈ m'.pass.needs ∧ ∃ e, (needed, e) ∈ m'.pass.errors ∧ e.kind = kind := by
  have accounted' := step_accounted h coherent accounted
  rcases (step_origin h coherent mem).failure coherent same id with
    older | ⟨plan, path, asker, asked, cause⟩
  · obtain ⟨noted, e, recorded, ofKind⟩ := hm.failing frame older needed kind same
    exact ⟨step_needs_mono h noted, e, (step_errors_grow h).subset recorded, ofKind⟩
  · have noted : (frame.owner, path) ∈ m'.pass.needs := traced.step_waits h asker asked
    have failed : path = needed ∧ m'.pass.state? path = some (.failed kind) := by
      rcases cause with reply | ⟨ofKind, error, failed⟩
      · obtain ⟨here, failed⟩ := failed_of_reply reply
        exact ⟨here, step_keeps_settled h coherent failed trivial⟩
      · cases error
        exact ⟨rfl, failed⟩
    obtain ⟨rfl, failed⟩ := failed
    exact ⟨noted, (accounted'.recorded path kind).mp failed⟩

/-- Whoever fails because a formula is in progress is part of its evaluation. -/
theorem step_closing {m m' : Machine} (h : Step env document m m')
    (coherent : Coherent document m) {frame : Frame} {rest : List Frame} {needed : DocPath}
    (stack : m'.stack = frame :: rest) (same : frame.plan = .fail (.cyclicReference needed)) :
    (frame.owner, needed) ∈ m'.pass.needs ∧ needed ∈ owners m'.stack := by
  cases h with
  | begin _ =>
    cases stack
    exact (own_of_proceeds (Plan.fits_ofText _ _).proceeds same).elim
  | enter _ _ =>
    cases stack
    exact (own_of_proceeds (Plan.fits_ofText _ _).proceeds same).elim
  | express fits =>
    cases stack
    exact (own_of_proceeds fits.proceeds same).elim
  | @reply owner plan rest pass path outcome asked reply =>
    cases stack
    have fits := coherent.fits _ List.mem_cons_self
    rw [fail_of_deliver fits asked same id] at reply
    obtain ⟨rfl, busy⟩ := inProgress_of_reply reply
    exact ⟨List.mem_cons_self, (coherent.active path).mp busy⟩
  | @leave path outcome rest pass =>
    cases rest with
    | nil => cases stack
    | cons below rest =>
      cases stack
      have fits := coherent.fits below (by simp)
      have error := fail_of_deliver fits (coherent.asked rfl) same id
      cases outcome <;> cases error
  | finish => cases stack
  | gather =>
    cases stack
    cases same
  | collect =>
    cases stack
    have before := proceeds_of_ne_done (coherent.fits _ List.mem_cons_self) (by simp)
    exact (own_of_proceeds (fits_collected_bind before.2 _ _).proceeds same).elim
  | call =>
    cases stack
    have before := proceeds_of_ne_done (coherent.fits _ List.mem_cons_self) (by simp)
    exact (own_of_proceeds (fits_call_bind before _ _ _ _).proceeds same).elim

theorem step_depends {m m' : Machine} (h : Step env document m m') (hm : Explained m) {i : Nat}
    {path needed : DocPath} {kind : FaultKind}
    (here : m'.pass.errors[i]? = some (path, .dependencyFailed needed kind)) :
    m'.pass.AskedFor path needed ∧ ∃ e, (needed, e) ∈ m'.pass.errors.take i ∧ e.kind = kind := by
  rcases step_errors h with same | ⟨ended, e, rest, stack, more⟩
  · rw [same] at here ⊢
    obtain ⟨asked, cause⟩ := hm.depends i path needed kind here
    exact ⟨step_needs_mono h asked, cause⟩
  · rw [more] at here ⊢
    rcases getElem?_concat_cases here with ⟨old, before⟩ | ⟨new, before⟩
    · obtain ⟨asked, cause⟩ := hm.depends i path needed kind old
      rw [before]
      exact ⟨step_needs_mono h asked, cause⟩
    · cases new
      obtain ⟨asked, cause⟩ := hm.failing _ (stack ▸ List.mem_cons_self) needed kind rfl
      rw [before]
      exact ⟨step_needs_mono h asked, cause⟩

theorem step_cycles {m m' : Machine} (h : Step env document m m')
    (coherent : Coherent document m) (accounted : Accounted m.pass) (hm : Explained m) {i : Nat}
    {path needed : DocPath}
    (here : m'.pass.errors[i]? = some (path, .cyclicReference needed)) :
    m'.pass.AskedFor path needed ∧ needed ∉ (m'.pass.errors.take i).map Prod.fst ∧
      Doomed m' needed := by
  rcases step_errors h with same | ⟨ended, e, rest, stack, more⟩
  · rw [same] at here ⊢
    obtain ⟨asked, later, doomed⟩ := hm.cycles i path needed here
    exact ⟨step_needs_mono h asked, later, step_doomed h coherent doomed⟩
  · rw [more] at here ⊢
    rcases getElem?_concat_cases here with ⟨old, before⟩ | ⟨new, before⟩
    · obtain ⟨asked, later, doomed⟩ := hm.cycles i path needed old
      rw [before]
      exact ⟨step_needs_mono h asked, later, step_doomed h coherent doomed⟩
    · cases new
      obtain ⟨asked, inside⟩ := hm.closing _ rest needed stack rfl
      have busy := (coherent.active needed).mpr inside
      have sinking : Sinking m.stack := by
        rw [stack]
        exact ⟨_, rfl, rfl⟩
      rw [before]
      exact ⟨step_needs_mono h asked, accounted.not_mem busy id,
        step_doomed h coherent (.inr ⟨inside, sinking⟩)⟩

theorem step_explained {m m' : Machine} (h : Step env document m m')
    (coherent : Coherent document m) (accounted : Accounted m.pass) (traced : Traced m)
    (hm : Explained m) : Explained m' where
  depends _ _ _ _ := step_depends h hm
  cycles _ _ _ := step_cycles h coherent accounted hm
  failing _ mem _ _ := step_failing h coherent accounted traced hm mem
  closing _ _ _ := step_closing h coherent

theorem execution_explained {m m' : Machine} (h : Execution env document m m')
    (coherent : Coherent document m) (accounted : Accounted m.pass) (traced : Traced m)
    (hm : Explained m) : Explained m' := by
  induction h with
  | refl => exact hm
  | tail before step ih =>
    have coherent' := execution_coherent before coherent
    have accounted' := execution_accounted before coherent accounted
    exact step_explained step coherent' accounted' (execution_traced before coherent traced) ih

theorem Complete.explained {pass : Pass} (h : Complete env document pass) :
    Explained ⟨[], pass⟩ :=
  execution_explained h.reached (start_coherent document) (start_accounted document)
    (start_traced document) (start_explained document)

/-- In the end a formula that was still in progress when another one needed it is on record as cyclic,
not before the other one, and at the same place only if it is the same formula. -/
theorem Complete.exists_cyclic {pass : Pass} (h : Complete env document pass) {i : Nat}
    {path needed : DocPath} (here : pass.errors[i]? = some (path, .cyclicReference needed)) :
    ∃ j ≥ i, ∃ e, pass.errors[j]? = some (needed, e) ∧ e.kind = .cyclicReference ∧
      (j = i ↔ needed = path) := by
  obtain ⟨_, later, doomed⟩ := h.explained.cycles i path needed here
  have failed : pass.state? needed = some (.failed .cyclicReference) := by
    rcases doomed with failed | ⟨mem, _⟩
    · exact failed
    · cases mem
  obtain ⟨e, recorded, kind⟩ := (h.accounted.recorded needed _).mp failed
  obtain ⟨j, there⟩ := List.mem_iff_getElem?.mp recorded
  have notBefore : i ≤ j := by
    by_contra early
    have inside : (needed, e) ∈ pass.errors.take i := by
      apply List.mem_of_getElem?
      rw [List.getElem?_take_of_lt (Nat.lt_of_not_le early)]
      exact there
    exact later (List.mem_map.mpr ⟨_, inside, rfl⟩)
  refine ⟨j, notBefore, e, there, kind, ?_⟩
  constructor
  · rintro rfl
    rw [here] at there
    cases there
    rfl
  · rintro rfl
    -- a formula is recorded once, so that one formula has one place
    have first : (pass.errors.map Prod.fst)[j]? = some needed := by simp [there]
    have second : (pass.errors.map Prod.fst)[i]? = some needed := by simp [here]
    have bound : j < (pass.errors.map Prod.fst).length := by
      rw [List.length_map]
      exact (List.getElem?_eq_some_iff.mp there).1
    exact (List.getElem?_inj bound h.accounted.nodup).mp (first.trans second.symm)

end Machine

/-- The failure of an evaluation lists its errors in causal order. Where one names a formula that had
failed, its own formula had asked for that one, and that one is listed before with the kind named.
Where one names a formula in progress, its own formula had asked for that one, which is listed as cyclic
at the same place if it is the same formula and later otherwise. The first error names no formula that
had failed. -/
theorem Engine.evaluate_lists_causes_first (engine : Engine) (around : Surroundings)
    (document : Value) :
    let pass := engine.finalPass around document
    (∀ failure, engine.evaluate around document = .error failure ↔
      failure.faults = pass.errors.map fun found => Fault.ofError found.1 found.2) ∧
    (∀ (i : Nat) (path needed : DocPath) (kind : FaultKind),
      pass.errors[i]? = some (path, .dependencyFailed needed kind) → pass.AskedFor path needed ∧
        ∃ j < i, ∃ e, pass.errors[j]? = some (needed, e) ∧ e.kind = kind) ∧
    (∀ (i : Nat) (path needed : DocPath),
      pass.errors[i]? = some (path, .cyclicReference needed) → pass.AskedFor path needed ∧
        ∃ j ≥ i, ∃ e, pass.errors[j]? = some (needed, e) ∧ e.kind = .cyclicReference ∧
          (j = i ↔ needed = path)) ∧
    ∀ path needed kind, pass.errors.head? ≠ some (path, .dependencyFailed needed kind) := by
  intro pass
  have complete := engine.complete_finalPass around document
  have depends : ∀ (i : Nat) (path needed : DocPath) (kind : FaultKind),
      pass.errors[i]? = some (path, .dependencyFailed needed kind) →
        pass.AskedFor path needed ∧
          ∃ j < i, ∃ e, pass.errors[j]? = some (needed, e) ∧ e.kind = kind := by
    intro i path needed kind here
    obtain ⟨asked, e, before, ofKind⟩ := complete.explained.depends i path needed kind here
    obtain ⟨j, early, there⟩ := exists_lt_of_mem_take before
    exact ⟨asked, j, early, e, there, ofKind⟩
  refine ⟨fun failure => evaluate_eq_error_iff, depends, ?_, ?_⟩
  · intro i path needed here
    exact ⟨(complete.explained.cycles i path needed here).1, complete.exists_cyclic here⟩
  · intro path needed kind first
    rw [List.head?_eq_getElem?] at first
    obtain ⟨_, j, early, _⟩ := depends 0 path needed kind first
    exact Nat.not_lt_zero j early

end FormulaDoc
