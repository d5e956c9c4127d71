import FormulaDoc.Proofs.Evaluation.Machine

/-!
# Answers

How plans end when it is known how formulas end, without any state. What is not known of a formula
leaves open how a plan ends that needs it. Knowing nothing at first, and then from level to level how
the formulas end that need only what is known already, gives all formulas an answer that do not lead
into a cycle.
-/
namespace FormulaDoc

/-- What is known of how a computation ends: with a value, with a kind of failure, or nothing yet. -/
abbrev Answer (α : Type) := Option (Except FaultKind α)

namespace Answer

variable {α β γ : Type}

def bind : Answer α → (α → Answer β) → Answer β
  | some (.ok a), f => f a
  | some (.error kind), _ => some (.error kind)
  | none, _ => none

def ofOutcome (outcome : Except EvalError α) : Answer α := some (outcome.mapError EvalError.kind)

def value? : Answer α → Option α
  | some (.ok a) => some a
  | _ => none

theorem bind_assoc (x : Answer α) (f : α → Answer β) (g : β → Answer γ) :
    (x.bind f).bind g = x.bind fun a => (f a).bind g := by
  rcases x with _ | _ | _ <;> rfl

theorem value?_eq_some_iff {x : Answer α} {a : α} : x.value? = some a ↔ x = some (.ok a) := by
  rcases x with _ | _ | _ <;> simp [value?]

theorem value?_bind (x : Answer α) (f : α → Answer β) :
    (x.bind f).value? = x.value?.bind fun a => (f a).value? := by
  rcases x with _ | _ | _ <;> rfl

/-- Everything that one answer tells another one tells as well. -/
def Within (x y : Answer α) : Prop := ∀ r, x = some r → y = some r

theorem Within.refl (x : Answer α) : x.Within x := fun _ h => h

theorem Within.bind {x y : Answer α} {f g : α → Answer β} (first : x.Within y)
    (rest : ∀ a, (f a).Within (g a)) : (x.bind f).Within (y.bind g) := by
  intro r h
  rcases x with _ | kind | a
  · cases h
  · rw [first _ rfl]
    exact h
  · rw [first _ rfl]
    exact rest a r h

theorem Within.value? {x y : Answer α} (h : x.Within y) {a : α} (here : x.value? = some a) :
    y.value? = some a := by
  rw [value?_eq_some_iff] at here ⊢
  exact h _ here

end Answer

section Answers

variable (env : Environment) (document : Value) (known : DocPath → Answer Value)

/-- What asking for a formula comes to; a failure of its is a reference fault of whoever asked. -/
def Answer.ofFormula (path : DocPath) : Answer Value :=
  match known path with
  | some (.error _) => some (.error .reference)
  | answer => answer

/-- What loading a node comes to when some of the formulas inside are asked for first. -/
def Answer.ofNode (path : DocPath) : List DocPath → Answer Value
  | [] =>
    ((document.get? path).bind fun part => part.fill? (fun found => (known found).value?) path).map
      .ok
  | first :: rest => (ofFormula known first).bind fun _ => ofNode path rest

theorem Answer.ofNode_nil (path : DocPath) :
    ofNode document known path [] =
      ((document.get? path).bind fun part =>
        part.fill? (fun found => (known found).value?) path).map .ok := rfl

theorem Answer.ofNode_cons (path first : DocPath) (rest : List DocPath) :
    ofNode document known path (first :: rest) =
      (ofFormula known first).bind fun _ => ofNode document known path rest := rfl

def Interpreter.firstCall (env : Environment) (name : String) (args : List Value) :
    Except EvalError Value :=
  (call env name args (Pass.start .null)).1

namespace Plan

def answer {α : Type} : Plan α → Answer α
  | done outcome => Answer.ofOutcome outcome
  | ask path next => (Answer.ofFormula known path).bind fun value => (next value).answer
  | gather path next =>
    (Answer.ofNode document known path (document.formulasWithin path)).bind fun value =>
      (next value).answer
  | await path waiting next =>
    (Answer.ofNode document known path waiting).bind fun value => (next value).answer
  | call name args next =>
    (Answer.ofOutcome (Interpreter.firstCall env name args)).bind fun value => (next value).answer

section Equations

variable {α : Type}

theorem answer_ask (path : DocPath) (next : Value → Plan α) :
    (ask path next).answer env document known =
      (Answer.ofFormula known path).bind fun value => (next value).answer env document known := rfl

theorem answer_gather (path : DocPath) (next : Value → Plan α) :
    (gather path next).answer env document known =
      (Answer.ofNode document known path (document.formulasWithin path)).bind fun value =>
        (next value).answer env document known := rfl

theorem answer_await (path : DocPath) (waiting : List DocPath) (next : Value → Plan α) :
    (await path waiting next).answer env document known =
      (Answer.ofNode document known path waiting).bind fun value =>
        (next value).answer env document known := rfl

theorem answer_call (name : String) (args : List Value) (next : Value → Plan α) :
    (call name args next).answer env document known =
      (Answer.ofOutcome (Interpreter.firstCall env name args)).bind fun value =>
        (next value).answer env document known := rfl

end Equations

def ofFormula (path : DocPath) : Plan Value :=
  match document.get? path with
  | some (.formula source) => ofText document (Scope.ofFormula path) source
  | _ => fail (.noProperty "formula" path)

end Plan

/-- How formulas end that are known at a level. -/
def answerWithin : Nat → DocPath → Answer Value
  | 0, _ => none
  | level + 1, path => (Plan.ofFormula document path).answer env document (answerWithin level)

/-- How a formula ends. -/
def EndsWith (path : DocPath) (result : Except FaultKind Value) : Prop :=
  ∃ level, answerWithin env document level path = some result

end Answers

variable {env : Environment} {document : Value} {known known' : DocPath → Answer Value}

/-! ## More is known from level to level -/

namespace Answer

theorem within_ofFormula (more : ∀ path, (known path).Within (known' path)) (path : DocPath) :
    (ofFormula known path).Within (ofFormula known' path) := by
  intro r h
  rw [ofFormula] at h ⊢
  rcases here : known path with _ | _ | _ <;> rw [here] at h
  · cases h
  · rw [more path _ here]
    exact h
  · rw [more path _ here]
    exact h

theorem within_ofNode (more : ∀ path, (known path).Within (known' path)) (path : DocPath)
    (waiting : List DocPath) :
    (ofNode document known path waiting).Within (ofNode document known' path waiting) := by
  induction waiting with
  | nil =>
    intro r h
    obtain ⟨value, filled, rfl⟩ := Option.map_eq_some_iff.mp h
    obtain ⟨part, here, filled⟩ := Option.bind_eq_some_iff.mp filled
    have filled' := Value.fill?_mono (fun found _ => (more found).value?) filled
    rw [ofNode_nil, here, Option.bind_some, filled', Option.map_some]
  | cons first rest ih => exact (within_ofFormula more first).bind fun _ => ih

/-- Formulas that have a value make no difference to what a node comes to. -/
theorem ofNode_filter {path : DocPath} {keep : DocPath → Bool} {waiting : List DocPath}
    (settled : ∀ found ∈ waiting, keep found = false → ∃ value, known found = some (.ok value)) :
    ofNode document known path (waiting.filter keep) = ofNode document known path waiting := by
  induction waiting with
  | nil => rfl
  | cons first rest ih =>
    have later := ih fun found mem => settled found (List.mem_cons_of_mem _ mem)
    cases kept : keep first with
    | true =>
      rw [List.filter_cons_of_pos kept, ofNode_cons, ofNode_cons, later]
    | false =>
      obtain ⟨value, here⟩ := settled first List.mem_cons_self kept
      rw [List.filter_cons_of_neg (by simp [kept]), later, ofNode_cons, ofFormula, here, bind]

/-- Leaving out formulas that can only have a value loses nothing. -/
theorem within_ofNode_filter {path : DocPath} {keep : DocPath → Bool} {waiting : List DocPath}
    (settled : ∀ found ∈ waiting, keep found = false →
      ∀ r, known found = some r → ∃ value, r = .ok value) :
    (ofNode document known path waiting).Within
      (ofNode document known path (waiting.filter keep)) := by
  induction waiting with
  | nil => exact .refl _
  | cons first rest ih =>
    have later := ih fun found mem => settled found (List.mem_cons_of_mem _ mem)
    cases kept : keep first with
    | true =>
      rw [List.filter_cons_of_pos kept]
      exact (Within.refl _).bind fun _ => later
    | false =>
      intro r h
      rw [List.filter_cons_of_neg (by simp [kept])]
      rw [ofNode_cons, ofFormula] at h
      rcases here : known first with _ | result <;> rw [here] at h
      · cases h
      · obtain ⟨value, rfl⟩ := settled first List.mem_cons_self kept result here
        exact later r h

end Answer

theorem Plan.within_answer {α : Type} (more : ∀ path, (known path).Within (known' path))
    (plan : Plan α) : (plan.answer env document known).Within (plan.answer env document known') := by
  induction plan with
  | done outcome => exact .refl _
  | ask path next ih => exact (Answer.within_ofFormula more path).bind ih
  | gather path next ih => exact (Answer.within_ofNode more path _).bind ih
  | await path waiting next ih => exact (Answer.within_ofNode more path waiting).bind ih
  | call name args next ih => exact (Answer.Within.refl _).bind ih

theorem within_answerWithin_succ (level : Nat) (path : DocPath) :
    (answerWithin env document level path).Within (answerWithin env document (level + 1) path) := by
  induction level generalizing path with
  | zero =>
    intro r h
    cases h
  | succ level ih => exact Plan.within_answer ih _

theorem within_answerWithin {level level' : Nat} (h : level ≤ level') (path : DocPath) :
    (answerWithin env document level path).Within (answerWithin env document level' path) := by
  induction h with
  | refl => exact .refl _
  | step _ ih => exact fun r here => within_answerWithin_succ _ path r (ih r here)

theorem EndsWith.unique {path : DocPath} {r r' : Except FaultKind Value}
    (h : EndsWith env document path r) (h' : EndsWith env document path r') : r = r' := by
  obtain ⟨level, here⟩ := h
  obtain ⟨level', there⟩ := h'
  have first := within_answerWithin (Nat.le_max_left level level') path _ here
  have second := within_answerWithin (Nat.le_max_right level level') path _ there
  rw [first] at second
  exact Option.some.inj second

theorem EndsWith.eq_of_known {path : DocPath} {r r' : Except FaultKind Value}
    (h : EndsWith env document path r) {level : Nat}
    (here : answerWithin env document level path = some r') : r' = r :=
  EndsWith.unique ⟨level, here⟩ h

theorem exists_level {ending : DocPath → Except FaultKind Value} {paths : List DocPath}
    (h : ∀ path ∈ paths, EndsWith env document path (ending path)) :
    ∃ level, ∀ path ∈ paths, answerWithin env document level path = some (ending path) := by
  induction paths with
  | nil => exact ⟨0, fun _ mem => (List.not_mem_nil mem).elim⟩
  | cons first rest ih =>
    obtain ⟨level, here⟩ := h first List.mem_cons_self
    obtain ⟨level', later⟩ := ih fun path mem => h path (List.mem_cons_of_mem _ mem)
    refine ⟨max level level', fun path mem => ?_⟩
    rcases List.mem_cons.mp mem with rfl | mem
    · exact within_answerWithin (Nat.le_max_left _ _) path _ here
    · exact within_answerWithin (Nat.le_max_right _ _) path _ (later path mem)

theorem Plan.answer_bind {α β : Type} (plan : Plan α) (f : α → Plan β) :
    (plan >>= f).answer env document known =
      (plan.answer env document known).bind fun a => (f a).answer env document known := by
  induction plan with
  | done outcome => cases outcome <;> rfl
  | ask path next ih => simp only [ask_bind, answer_ask, Answer.bind_assoc, ih]
  | gather path next ih => simp only [gather_bind, answer_gather, Answer.bind_assoc, ih]
  | await path waiting next ih => simp only [await_bind, answer_await, Answer.bind_assoc, ih]
  | call name args next ih => simp only [call_bind, answer_call, Answer.bind_assoc, ih]

/-! ## What is left of a plan -/

/-- What is left of a plan comes to the same as the whole: at every level that the whole needs, and at
some level if the rest comes to anything. -/
structure Residual (env : Environment) (document : Value) (whole rest : Plan Value) : Prop where
  forth : ∀ level, (whole.answer env document (answerWithin env document level)).Within
    (rest.answer env document (answerWithin env document level))
  back : ∀ level r, rest.answer env document (answerWithin env document level) = some r →
    ∃ level', whole.answer env document (answerWithin env document level') = some r

namespace Residual

theorem refl (plan : Plan Value) : Residual env document plan plan :=
  ⟨fun _ => .refl _, fun level _ h => ⟨level, h⟩⟩

theorem trans {first second third : Plan Value} (h : Residual env document first second)
    (h' : Residual env document second third) : Residual env document first third := by
  refine ⟨fun level r here => h'.forth level r (h.forth level r here), fun level r here => ?_⟩
  obtain ⟨level', there⟩ := h'.back level r here
  exact h.back level' r there

theorem of_answer_eq {whole rest : Plan Value}
    (h : ∀ level, rest.answer env document (answerWithin env document level) =
      whole.answer env document (answerWithin env document level)) :
    Residual env document whole rest :=
  ⟨fun level _ here => (h level).trans here, fun level _ here => ⟨level, (h level).symm.trans here⟩⟩

end Residual

theorem Plan.answer_fail {α : Type} (e : EvalError) :
    (fail e : Plan α).answer env document known = some (.error e.kind) := rfl

theorem Plan.answer_of_asked {plan : Plan Value} {path : DocPath}
    (asked : plan.asked? = some path) :
    plan.answer env document known =
      (Answer.ofFormula known path).bind fun value =>
        (plan.deliver (.ok value)).answer env document known := by
  cases plan with
  | ask _ _ =>
    cases asked
    rfl
  | await _ waiting _ =>
    cases waiting with
    | nil => cases asked
    | cons _ _ =>
      cases asked
      exact Answer.bind_assoc _ _ _
  | _ => cases asked

namespace Residual

variable {plan : Plan Value} {path : DocPath}

/-- What is left of a plan comes to the same if it does so whenever the needed formula is known. -/
theorem of_asked (asked : plan.asked? = some path) {result : Except FaultKind Value}
    (ends : EndsWith env document path result) {rest : Plan Value}
    (same : ∀ known : DocPath → Answer Value, known path = some result →
      rest.answer env document known = plan.answer env document known) :
    Residual env document plan rest := by
  refine ⟨fun level r h => ?_, fun level r h => ?_⟩
  · rw [same, h]
    rw [Plan.answer_of_asked asked, Answer.ofFormula] at h
    rcases here : answerWithin env document level path with _ | found
    · rw [here] at h
      cases h
    · rw [ends.eq_of_known here]
  · obtain ⟨level', here⟩ := ends
    refine ⟨max level level', ?_⟩
    rw [← same _ (within_answerWithin (Nat.le_max_right level level') path _ here)]
    exact Plan.within_answer (within_answerWithin (Nat.le_max_left level level')) _ r h

/-- Getting the value of a formula leaves a plan with the same end. -/
theorem deliver_ok (asked : plan.asked? = some path) {value : Value}
    (ends : EndsWith env document path (.ok value)) :
    Residual env document plan (plan.deliver (.ok value)) :=
  of_asked asked ends fun known here => by
    rw [Plan.answer_of_asked asked, Answer.ofFormula, here, Answer.bind]

/-- Getting the failure of a formula leaves a plan with the same end: a reference fault. -/
theorem deliver_error (asked : plan.asked? = some path) {kind : FaultKind}
    (ends : EndsWith env document path (.error kind)) {e : EvalError}
    (fault : e.kind = .reference) :
    Residual env document plan (plan.deliver (.error e)) :=
  of_asked asked ends fun known here => by
    rw [Plan.answer_of_asked asked, Answer.ofFormula, here, Plan.deliver_error asked,
      Plan.answer_fail, fault]
    rfl

/-- Formulas that have a value already need not be asked for before a node is loaded. -/
theorem gather {next : Value → Plan Value} {keep : DocPath → Bool} {values : DocPath → Value}
    (settled : ∀ found ∈ document.formulasWithin path, keep found = false →
      EndsWith env document found (.ok (values found))) :
    Residual env document (.gather path next)
      (.await path ((document.formulasWithin path).filter keep) next) := by
  refine ⟨fun level => ?_, fun level r h => ?_⟩
  · refine Answer.Within.bind (Answer.within_ofNode_filter fun found mem dropped r here => ?_)
      fun _ => .refl _
    exact ⟨values found, (settled found mem dropped).eq_of_known here⟩
  · have dropped : ∀ found ∈ (document.formulasWithin path).filter fun found => !keep found,
        EndsWith env document found (.ok (values found)) := fun found mem =>
      settled found (List.mem_filter.mp mem).1 (by simpa using (List.mem_filter.mp mem).2)
    obtain ⟨level', known⟩ := exists_level dropped
    refine ⟨max level level', ?_⟩
    have more := Plan.within_answer (within_answerWithin (Nat.le_max_left level level')) _ r h
    rw [Plan.answer_await, Answer.ofNode_filter] at more
    · exact more
    · intro found mem unkept
      have here := known found (List.mem_filter.mpr ⟨mem, by simp [unkept]⟩)
      exact ⟨_, within_answerWithin (Nat.le_max_right level level') found _ here⟩

/-- A node whose formulas all have a value is loaded with them. -/
theorem collect (wellFormed : document.WellFormed) {next : Value → Plan Value} {part : Value}
    (here : document.get? path = some part) {values : DocPath → Value}
    (ends : ∀ found ∈ document.formulasWithin path,
      EndsWith env document found (.ok (values found))) :
    Residual env document (.await path [] next) (next (part.replaceFormulas values path)) := by
  have filled : ∀ known : DocPath → Answer Value,
      (∀ found ∈ document.formulasWithin path, known found = some (.ok (values found))) →
      Plan.answer env document known (.await path [] next) =
        (next (part.replaceFormulas values path)).answer env document known := by
    intro known all
    rw [Plan.answer_await, Answer.ofNode_nil, here, Option.bind_some,
      Value.fill?_eq_of_known wellFormed here fun found mem =>
        Answer.value?_eq_some_iff.mpr (all found mem)]
    rfl
  refine ⟨fun level r h => ?_, fun level r h => ?_⟩
  · rw [← filled, h]
    intro found mem
    rcases loaded : Answer.ofNode document (answerWithin env document level) path [] with _ | result
    · rw [Plan.answer_await, loaded] at h
      cases h
    · rw [Answer.ofNode_nil, here] at loaded
      obtain ⟨value, full, _⟩ := Option.map_eq_some_iff.mp loaded
      obtain ⟨value, known⟩ := Value.known_of_fill? here full found mem
      rw [Answer.value?_eq_some_iff] at known
      rw [known, ← (ends found mem).eq_of_known known]
  · obtain ⟨level', known⟩ := exists_level ends
    refine ⟨max level level', ?_⟩
    rw [filled]
    · exact Plan.within_answer (within_answerWithin (Nat.le_max_left level level')) _ r h
    · intro found mem
      exact within_answerWithin (Nat.le_max_right level level') found _ (known found mem)

end Residual

end FormulaDoc
