import FormulaDoc.Proofs.Evaluation.Checked
import FormulaDoc.Proofs.Evaluation.Navigation

/-!
# Fallbacks are never taken

A checked evaluation never gets stuck, and comes to what evaluation comes to. Places and scopes lead to
nodes of the document, whose shape stays the same however much is resolved in between. A formula that
has come to an end stays as it is, so that all formulas inside a node still have their values when the
last of them gets its own.
-/
namespace FormulaDoc

variable {document : Value} {α β : Type}

/-- A later pass has a tree of the same shape. The formulas that had been begun are as they were, those
in progress among them: what is resolved in between comes to an end in between. -/
structure Pass.Before (pass later : Pass) : Prop where
  shape : later.tree.blank = pass.tree.blank
  kept : ∀ path state, pass.state? path = some state → state ≠ .unresolved →
    later.state? path = some state

namespace Pass

theorem before_of_tree {pass later : Pass} (same : later.tree = pass.tree) : pass.Before later := by
  constructor
  · rw [same]
  · intro path state here _
    rw [state?_of_tree same]
    exact here

theorem Before.refl (pass : Pass) : pass.Before pass := before_of_tree rfl

theorem Before.trans {first second third : Pass} (h : first.Before second)
    (h' : second.Before third) : first.Before third := by
  constructor
  · exact h'.shape.trans h.shape
  · intro path state here begun
    exact h'.kept path state (h.kept path state here begun) begun

/-- A formula that has not been begun may take any state. -/
theorem Before.setState {pass later : Pass} {path : DocPath} (h : pass.Before later)
    (fresh : pass.state? path = some .unresolved) (state : CellState) :
    pass.Before (later.setState path state) := by
  constructor
  · exact (Tree.blank_setState _ _ _).trans h.shape
  · intro other found here begun
    rw [state?_setState]
    by_cases same : path = other
    · subst same
      rw [fresh] at here
      exact absurd (Option.some.inj here).symm begun
    · rw [if_neg same]
      exact h.kept other found here begun

theorem Before.conclude {pass later : Pass} {path : DocPath} (h : pass.Before later)
    (fresh : pass.state? path = some .unresolved) (outcome : Except EvalError Value) :
    pass.Before (later.conclude path outcome) := by
  cases outcome with
  | ok value => exact h.setState fresh _
  | error e => exact (h.setState fresh _).trans (before_of_tree rfl)

end Pass

/-- The tree of a pass has a node exactly where the document has one. -/
theorem isSome_get?_of_shape {tree : Tree} (shape : tree.blank = Tree.ofValue document)
    (path : DocPath) : (tree.get? path).isSome = (document.get? path).isSome := by
  simpa using congrArg Option.isSome (Tree.get?_of_shape shape path)

theorem exists_get?_of_shape {tree : Tree} (shape : tree.blank = Tree.ofValue document)
    {path : DocPath} (here : (document.get? path).isSome) : ∃ part, tree.get? path = some part := by
  rw [← isSome_get?_of_shape shape] at here
  exact Option.isSome_iff_exists.mp here

/-- What a place leads to in the document is there. -/
def Place.Stands (document : Value) : Place → Prop
  | .computed _ => True
  | .node path => (document.get? path).isSome

/-- All levels of a scope are there in the document. -/
def Scope.Stands (document : Value) (scope : Scope) : Prop :=
  ∀ path ∈ scope.path :: scope.enclosing, (document.get? path).isSome

namespace Scope

theorem Stands.parent {scope outer : Scope} (stands : scope.Stands document)
    (h : scope.parent? = some outer) : outer.Stands document := by
  intro path mem
  apply stands
  rw [parent?] at h
  split at h
  · cases h
  · next enclosing =>
    cases h
    rw [enclosing]
    exact List.mem_cons_of_mem _ mem

theorem Stands.ancestor {scope outer : Scope} {depth : Nat} (stands : scope.Stands document)
    (h : scope.ancestor? depth = some outer) : outer.Stands document := by
  induction depth generalizing scope with
  | zero => exact Option.some.inj h ▸ stands
  | succ depth ih =>
    obtain ⟨above, up, further⟩ := Option.bind_eq_some_iff.mp h
    exact ih (stands.parent up) further

theorem Stands.path {scope : Scope} (stands : scope.Stands document) :
    (document.get? scope.path).isSome := stands _ List.mem_cons_self

theorem Stands.container {scope : Scope} {path : DocPath} (stands : scope.Stands document)
    (h : scope.containerPath? = some path) : (document.get? path).isSome := by
  rw [containerPath?] at h
  split at h
  · cases h
    exact stands.path
  · obtain ⟨outer, up, same⟩ := Option.map_eq_some_iff.mp h
    exact same ▸ (stands.parent up).path

theorem Stands.inside {scope : Scope} {path : DocPath} (stands : scope.Stands document)
    (here : (document.get? path).isSome) (kind : ScopeKind) :
    (scope.inside kind path).Stands document := by
  intro other mem
  rcases List.mem_cons.mp mem with rfl | mem
  · exact here
  · exact stands other mem

theorem isSome_parent {path : DocPath} {step : Step}
    (here : (document.get? (path.child step)).isSome) : (document.get? path).isSome := by
  have shape := Tree.blank_ofValue document
  rw [← isSome_get?_of_shape shape] at here ⊢
  rw [DocPath.child, Tree.get?_append] at here
  exact Option.isSome_of_isSome_bind here

theorem stands_ofContainer {path : DocPath} (here : (document.get? path).isSome) :
    (ofContainer path).Stands document := by
  induction path using List.reverseRecOn with
  | nil =>
    intro other mem
    rw [List.mem_singleton.mp mem]
    rfl
  | append_singleton path step ih =>
    rw [← DocPath.child, ← inside_ofContainer]
    exact (ih (isSome_parent here)).inside here _

theorem stands_ofFormula {path : DocPath} (here : (document.get? path).isSome) :
    (ofFormula path).Stands document := by
  cases path using List.reverseRecOn with
  | nil =>
    intro other mem
    rw [List.mem_singleton.mp mem]
    rfl
  | append_singleton before step =>
    rw [← DocPath.child, ofFormula_child]
    exact (stands_ofContainer (isSome_parent here)).inside here _

end Scope

namespace Checked

/-- From a pass on, a checked evaluation goes through and comes to the same as an evaluation, in a
later pass and with a result as wanted. -/
structure Lands (wanted : α → Pass → Prop) (checked : Checked α) (x : Eval α) (pass : Pass) :
    Prop where
  same : checked pass = some (x pass)
  before : pass.Before (x pass).2
  wanted : ∀ a later, x pass = (.ok a, later) → wanted a later

section Steps

variable {wanted : α → Pass → Prop} {between : β → Pass → Prop} {pass : Pass}

theorem Lands.bind {checked : Checked β} {x : Eval β} {f : β → Checked α} {g : β → Eval α}
    (first : Lands between checked x pass)
    (rest : ∀ b later, pass.Before later → between b later → Lands wanted (f b) (g b) later) :
    Lands wanted (checked >>= f) (x >>= g) pass := by
  obtain ⟨same, before, reached⟩ := first
  have checkedStep : (checked >>= f) pass = (checked pass).bind (next f) := rfl
  rw [same, Option.bind_some] at checkedStep
  have step := Eval.bind_apply x g pass
  rcases came : x pass with ⟨e | b, later⟩
  · rw [came] at before checkedStep step
    constructor
    · rw [checkedStep, step, next]
    · rw [step]
      exact before
    · intro a after ended
      rw [step] at ended
      cases ended
  · rw [came] at before checkedStep step
    obtain ⟨same', before', reached'⟩ := rest b later before (reached b later came)
    constructor
    · rw [checkedStep, step, next]
      exact same'
    · rw [step]
      exact before.trans before'
    · intro a after ended
      rw [step] at ended
      exact reached' a after ended

/-- A check that passes leaves no trace. -/
theorem Lands.check {test : Pass → Bool} {checked : Checked α} {x : Eval α}
    (passes : test pass = true) (rest : Lands wanted checked x pass) :
    Lands wanted (check test >>= fun _ => checked) x pass := by
  have step : (Checked.check test >>= fun _ => checked) pass =
      (Checked.check test pass).bind (next fun _ => checked) := rfl
  refine ⟨?_, rest.before, rest.wanted⟩
  rw [step, Checked.check, if_pos passes]
  exact rest.same

theorem lands_pure {a : α} (good : wanted a pass) : Lands wanted (pure a) (pure a) pass := by
  refine ⟨rfl, .refl pass, ?_⟩
  rintro _ _ ⟨⟩
  exact good

theorem lands_fail (e : EvalError) : Lands wanted (lift (Eval.fail e)) (Eval.fail e) pass := by
  refine ⟨rfl, .refl pass, ?_⟩
  rintro _ _ ⟨⟩

theorem lands_ofExcept {outcome : Except EvalError α}
    (good : ∀ a, outcome = .ok a → wanted a pass) :
    Lands wanted (lift (Eval.ofExcept outcome)) (Eval.ofExcept outcome) pass := by
  refine ⟨rfl, .refl pass, ?_⟩
  intro a later ended
  cases ended
  exact good a rfl

/-- What is read from a pass is there to go on with. -/
theorem Lands.read {f : Pass → β} {checked : β → Checked α} {x : β → Eval α}
    (rest : Lands wanted (checked (f pass)) (x (f pass)) pass) :
    Lands wanted (lift (Eval.read f) >>= checked) (Eval.read f >>= x) pass :=
  ⟨rest.same, rest.before, rest.wanted⟩

theorem node_apply (shape : pass.tree.blank = Tree.ofValue document) {path : DocPath}
    (here : (document.get? path).isSome) : node path pass = some (.ok (.node path), pass) := by
  have step : node path pass =
      (Checked.check (fun pass => (pass.tree.get? path).isSome) pass).bind
        (next fun _ => pure (.node path)) := rfl
  rw [step, Checked.check, isSome_get?_of_shape shape, if_pos here]
  rfl

/-- An evaluation may go on from a node that is there. -/
theorem Lands.node (shape : pass.tree.blank = Tree.ofValue document) {path : DocPath}
    (here : (document.get? path).isSome) {checked : Place → Checked α} {x : Eval α}
    (rest : Lands wanted (checked (.node path)) x pass) :
    Lands wanted (Checked.node path >>= checked) x pass := by
  have step : (Checked.node path >>= checked) pass =
      (Checked.node path pass).bind (next checked) := rfl
  refine ⟨?_, rest.before, rest.wanted⟩
  rw [step, node_apply shape here]
  exact rest.same

theorem lands_within (shape : pass.tree.blank = Tree.ofValue document) {scope : Scope}
    (stands : scope.Stands document) {checked : Checked α} {x : Eval α}
    (rest : Lands wanted checked x pass) :
    Lands wanted (within scope >>= fun _ => checked) x pass := by
  apply Lands.check _ rest
  rw [List.all_eq_true]
  intro path mem
  rw [isSome_get?_of_shape shape]
  exact stands path mem

end Steps

/-- On all passes of a document, a checked evaluation lands where the evaluation does. -/
def Safe (document : Value) (wanted : α → Prop) (checked : Checked α) (x : Eval α) : Prop :=
  ∀ pass, pass.tree.blank = Tree.ofValue document → Lands (fun a _ => wanted a) checked x pass

section Safety

variable {wanted : α → Prop} {between : β → Prop}

theorem Safe.bind {checked : Checked β} {x : Eval β} {f : β → Checked α} {g : β → Eval α}
    (first : Safe document between checked x)
    (rest : ∀ b, between b → Safe document wanted (f b) (g b)) :
    Safe document wanted (checked >>= f) (x >>= g) := by
  intro pass shape
  apply (first pass shape).bind
  intro b later before there
  exact rest b there later (before.shape.trans shape)

theorem safe_pure {a : α} (good : wanted a) : Safe document wanted (pure a) (pure a) :=
  fun _ _ => lands_pure good

theorem safe_fail (e : EvalError) : Safe document wanted (lift (Eval.fail e)) (Eval.fail e) :=
  fun _ _ => lands_fail e

theorem safe_ofExcept {outcome : Except EvalError α} (good : ∀ a, outcome = .ok a → wanted a) :
    Safe document wanted (lift (Eval.ofExcept outcome)) (Eval.ofExcept outcome) :=
  fun _ _ => lands_ofExcept good

/-- What has been computed stands by itself. -/
theorem safe_computed (outcome : Except EvalError Value) :
    Safe document (Place.Stands document) (lift (Eval.ofExcept (outcome.map Place.computed)))
      (Eval.ofExcept (outcome.map Place.computed)) := by
  apply safe_ofExcept
  intro place came
  cases outcome with
  | error e => cases came
  | ok value =>
    cases came
    trivial

theorem safe_call (env : Environment) (name : String) (args : List Value) :
    Safe document (fun _ => True) (lift (Interpreter.call env name args))
      (Interpreter.call env name args) := by
  intro pass _
  constructor
  · rfl
  · exact Pass.before_of_tree (Interpreter.tree_call env name args pass)
  · intros
    trivial

theorem safe_node {path : DocPath} (here : (document.get? path).isSome) :
    Safe document (Place.Stands document) (node path) (pure (.node path)) := by
  intro pass shape
  constructor
  · exact node_apply shape here
  · exact .refl pass
  · rintro _ _ ⟨⟩
    exact here

end Safety

/-- A formula that has been asked for has its value. -/
def Answered (path : DocPath) (_ : Value) (pass : Pass) : Prop :=
  ∃ value, pass.state? path = some (.resolved value)

/-- On the passes of a document, asking for any of its formulas is the same with and without checks. -/
def Answers (document : Value) (checked : DocPath → Checked Value) (ask : DocPath → Eval Value) :
    Prop :=
  ∀ path pass, pass.tree.blank = Tree.ofValue document →
    (∃ source, document.get? path = some (.formula source)) →
    Lands (Answered path) (checked path) (ask path) pass

/-! ## Navigation -/

section Navigation

variable {checked : DocPath → Checked Value} {ask : DocPath → Eval Value} {pass : Pass}

theorem Answers.askAll (answers : Answers document checked ask)
    (shape : pass.tree.blank = Tree.ofValue document) {paths : List DocPath}
    (formulas : ∀ path ∈ paths, ∃ source, document.get? path = some (.formula source)) :
    Lands (fun _ later => ∀ path ∈ paths, ∃ value, later.state? path = some (.resolved value))
      (Checked.askAll checked paths) (Place.askAll ask paths) pass := by
  induction paths generalizing pass with
  | nil =>
    apply lands_pure
    intro _ mem
    exact absurd mem List.not_mem_nil
  | cons first rest ih =>
    refine (answers first pass shape (formulas first List.mem_cons_self)).bind ?_
    rintro _ middle before ⟨value, here⟩
    have others := ih (before.shape.trans shape)
      fun path mem => formulas path (List.mem_cons_of_mem _ mem)
    refine ⟨others.same, others.before, ?_⟩
    intro done later ended path mem
    rcases List.mem_cons.mp mem with rfl | mem
    · have kept := others.before.kept path _ here (by simp)
      rw [ended] at kept
      exact ⟨value, kept⟩
    · exact others.wanted done later ended path mem

/-- The formulas inside a node that have no value yet, by their paths in the tree. -/
theorem mem_pending_iff (wellFormed : document.WellFormed) {tree part : Tree}
    (shape : tree.blank = Tree.ofValue document) {path : DocPath} (here : tree.get? path = some part)
    {found : DocPath} : found ∈ part.pending path ↔
      path <+: found ∧ ∃ cell, tree.cell? found = some cell ∧ (!cell.state.isResolved) = true := by
  have within : found ∈ tree.cellsWithin (fun state => !state.isResolved) path ↔ _ :=
    Tree.mem_cellsWithin_iff (Tree.keyed_of_shape shape wellFormed)
  rw [Tree.cellsWithin, here] at within
  exact within

/-- Once all formulas inside a node have been asked for, each of them has a value. -/
theorem resolved_of_asked (wellFormed : document.WellFormed)
    (shape : pass.tree.blank = Tree.ofValue document) {later : Pass} (before : pass.Before later)
    {path : DocPath} {tree : Tree} (here : pass.tree.get? path = some tree)
    (asked : ∀ found ∈ tree.pending path, ∃ value, later.state? found = some (.resolved value))
    {found : DocPath} (inside : path <+: found) {source : String}
    (formula : document.get? found = some (.formula source)) :
    ∃ value, later.state? found = some (.resolved value) := by
  obtain ⟨state, there⟩ := Tree.cell?_of_shape shape formula
  by_cases done : state.isResolved = true
  · cases state with
    | resolved value => exact ⟨value, before.kept found _ (Pass.state?_of_cell? there) (by simp)⟩
    | _ => cases done
  · apply asked
    refine (mem_pending_iff wellFormed shape here).mpr ⟨inside, _, there, ?_⟩
    simpa using done

/-- Once all formulas inside a node have been asked for, the node has a value. -/
theorem toValue?_of_asked (wellFormed : document.WellFormed)
    (shape : pass.tree.blank = Tree.ofValue document) {later : Pass} (before : pass.Before later)
    {path : DocPath} {tree : Tree} (here : pass.tree.get? path = some tree)
    (asked : ∀ found ∈ tree.pending path, ∃ value, later.state? found = some (.resolved value)) :
    ∃ value, (later.tree.get? path).bind Tree.toValue? = some value := by
  have shape' : later.tree.blank = Tree.ofValue document := before.shape.trans shape
  have stands : (document.get? path).isSome := by
    rw [← isSome_get?_of_shape shape, here]
    rfl
  obtain ⟨tree', here'⟩ := exists_get?_of_shape shape' stands
  have nothing : tree'.pending path = [] := by
    rw [List.eq_nil_iff_forall_not_mem]
    intro found mem
    obtain ⟨inside, cell, there, unresolved⟩ := (mem_pending_iff wellFormed shape' here').mp mem
    have formula := Tree.source_of_shape shape' there
    obtain ⟨value, resolved⟩ := resolved_of_asked wellFormed shape before here asked inside formula
    rw [Pass.state?_of_cell? there] at resolved
    rw [Option.some.inj resolved] at unresolved
    cases unresolved
  rw [here', Option.bind_some]
  exact Option.isSome_iff_exists.mp ((Tree.pending_eq_nil_iff tree' path).mp nothing)

theorem Answers.load (answers : Answers document checked ask) (wellFormed : document.WellFormed)
    {place : Place} (stands : place.Stands document) :
    Safe document (fun _ => True) (Checked.load checked place) (place.load ask) := by
  intro pass shape
  cases place with
  | computed value => exact lands_pure trivial
  | node path =>
    obtain ⟨tree, here⟩ := exists_get?_of_shape shape stands
    have formulas : ∀ found ∈ tree.pending path,
        ∃ source, document.get? found = some (.formula source) := by
      intro found mem
      obtain ⟨_, cell, there, _⟩ := (mem_pending_iff wellFormed shape here).mp mem
      exact ⟨cell.source, Tree.source_of_shape shape there⟩
    apply Lands.read
    rw [here]
    apply (answers.askAll shape formulas).bind
    intro _ later before asked
    obtain ⟨value, found⟩ := toValue?_of_asked wellFormed shape before here asked
    apply Lands.read
    rw [found]
    exact lands_pure trivial

/-- Where a container has a child, its place may be gone to. -/
theorem lands_child {path : DocPath} {tree : Tree} {step : Step}
    (shape : pass.tree.blank = Tree.ofValue document) (here : pass.tree.get? path = some tree)
    (child : (tree.child? step).isSome) :
    Lands (fun place _ => Place.Stands document place) (node (path.child step))
      (pure (.node (path.child step))) pass := by
  apply safe_node _ pass shape
  rw [← isSome_get?_of_shape shape, Tree.get?_child here]
  exact child

/-- Going on in the value of a formula leads to a computed value. -/
theorem Answers.computed (answers : Answers document checked ask)
    (shape : pass.tree.blank = Tree.ofValue document) {path : DocPath} {cell : Cell}
    (here : pass.tree.get? path = some (.formula cell)) (f : Value → Except EvalError Value) :
    Lands (fun place _ => Place.Stands document place)
      (checked path >>= fun value => lift (Eval.ofExcept ((f value).map Place.computed)))
      (ask path >>= fun value => Eval.ofExcept ((f value).map Place.computed)) pass := by
  have formula := Tree.source_of_shape shape (Tree.cell?_eq_some_iff.mpr here)
  apply (answers path pass shape ⟨_, formula⟩).bind
  intro value later before _
  exact safe_computed (f value) later (before.shape.trans shape)

theorem Answers.field (answers : Answers document checked ask) (key : String) {place : Place}
    (stands : place.Stands document) :
    Safe document (Place.Stands document) (Checked.field checked key place)
      (place.field ask key) := by
  cases place with
  | computed value => exact safe_computed (value.field key)
  | node path =>
    intro pass shape
    obtain ⟨tree, here⟩ := exists_get?_of_shape shape stands
    apply Lands.read
    rw [here]
    cases tree with
    | scalar _ | array _ => exact lands_fail _
    | formula cell => exact answers.computed shape here fun value => value.field key
    | object members =>
      cases found : members.lookup key with
      | none =>
        simp only [found]
        exact lands_fail _
      | some child =>
        simp only [found]
        exact lands_child shape here (by simp [Tree.child?_key, found])

theorem Answers.element (answers : Answers document checked ask) (index : Int) {place : Place}
    (stands : place.Stands document) :
    Safe document (Place.Stands document) (Checked.element checked index place)
      (place.element ask index) := by
  cases place with
  | computed value => exact safe_computed (value.element index)
  | node path =>
    intro pass shape
    obtain ⟨tree, here⟩ := exists_get?_of_shape shape stands
    apply Lands.read
    rw [here]
    cases tree with
    | scalar _ | object _ => exact lands_fail _
    | formula cell => exact answers.computed shape here fun value => value.element index
    | array items =>
      cases found : position? index items.length with
      | none =>
        simp only [found]
        exact lands_fail _
      | some position =>
        simp only [found]
        have inside := lt_of_position? found
        exact lands_child shape here (by simpa [Tree.child?_index] using inside)

theorem Answers.select (answers : Answers document checked ask) (key : Value) {place : Place}
    (stands : place.Stands document) :
    Safe document (Place.Stands document) (Checked.select checked key place)
      (place.select ask key) := by
  simp only [Checked.select, Place.select]
  cases key.integer? with
  | some index => exact answers.element index stands
  | none =>
    cases key with
    | string name => exact answers.field name stands
    | _ => exact safe_fail _

theorem Answers.follow (answers : Answers document checked ask) (path : DocPath) {place : Place}
    (stands : place.Stands document) :
    Safe document (Place.Stands document) (Checked.follow checked path place)
      (place.follow ask path) := by
  induction path generalizing place with
  | nil => exact safe_pure stands
  | cons step rest ih =>
    cases step with
    | key name => exact (answers.field name stands).bind fun _ there => ih there
    | index position => exact (answers.element _ stands).bind fun _ there => ih there

variable {scope : Scope}

theorem Answers.namedPlace (answers : Answers document checked ask)
    (stands : scope.Stands document) (name : String) :
    Safe document (Place.Stands document) (Checked.namedPlace checked scope name)
      (scope.namedPlace ask name) := by
  intro pass shape
  rw [Checked.namedPlace, Scope.namedPlace]
  cases found : scope.containerPath? with
  | none => exact lands_fail _
  | some container =>
    have here : (Place.node container).Stands document := stands.container found
    exact .node shape here (answers.field name here pass shape)

theorem safe_ancestor (stands : scope.Stands document) (depth : Nat) :
    Safe document (fun found => Scope.Stands document found)
      (lift (Eval.ofExcept (scope.ancestor depth))) (Eval.ofExcept (scope.ancestor depth)) := by
  apply safe_ofExcept
  intro outer came
  rw [Scope.ancestor] at came
  split at came
  · next found up =>
    cases came
    exact stands.ancestor up
  · cases came

theorem Answers.loadStatic (answers : Answers document checked ask)
    (wellFormed : document.WellFormed) (stands : scope.Stands document) (depth : Nat)
    (path : DocPath) :
    Safe document (fun _ => True) (Checked.loadStatic checked scope depth path)
      (scope.loadStatic ask depth path) := by
  apply (safe_ancestor stands depth).bind
  intro outer there pass shape
  apply Lands.node shape there.path
  have begins : (Place.node outer.path).Stands document := there.path
  have followed := answers.follow path begins
  exact (followed.bind fun _ there => answers.load wellFormed there) pass shape

end Navigation

/-! ## Expressions -/

section Expressions

variable {env : Environment} {checked : DocPath → Checked Value} {ask : DocPath → Eval Value}
  {scope : Scope} {μ : Type}

theorem Answers.valueOf (answers : Answers document checked ask) (wellFormed : document.WellFormed)
    (stands : scope.Stands document) (e : Expr μ) {found : Checked Place} {place : Eval Place}
    (safe : Safe document (Place.Stands document) found place) :
    Safe document (fun _ => True) (Checked.valueOf checked scope e found)
      (Interpreter.valueOf ask scope e place) := by
  rw [Checked.valueOf, Interpreter.valueOf]
  cases e.staticPath? with
  | some found => exact answers.loadStatic wellFormed stands found.1 found.2
  | none => exact safe.bind fun _ there => answers.load wellFormed there

theorem safe_outcome (outcome : Except EvalError α) :
    Safe document (fun _ => True) (lift (Eval.ofExcept outcome)) (Eval.ofExcept outcome) :=
  safe_ofExcept fun _ _ => trivial

theorem safe_binary (op : BinaryOp) {left right : Checked Value} {x y : Eval Value}
    (first : Safe document (fun _ => True) left x) (second : Safe document (fun _ => True) right y) :
    Safe document (fun _ => True) (binary op left right) (Interpreter.binary op x y) := by
  rw [binary, Interpreter.binary]
  split
  · apply first.bind
    intro lhs _
    apply (safe_outcome _).bind
    intro decided _
    split
    · exact safe_pure trivial
    · apply second.bind
      intro rhs _
      exact (safe_outcome _).bind fun _ _ => safe_pure trivial
  · apply first.bind
    intro lhs _
    exact second.bind fun rhs _ => safe_outcome _

mutual

theorem Answers.place (answers : Answers document checked ask) (wellFormed : document.WellFormed)
    (stands : scope.Stands document) (e : Expr μ) :
    Safe document (Place.Stands document) (Checked.place env checked scope e)
      (Interpreter.place env ask scope e) := by
  match e with
  | .literal _ _ => exact safe_pure trivial
  | .ident _ name => exact answers.namedPlace stands name
  | .scope _ depth => exact (safe_ancestor stands depth).bind fun _ there => safe_node there.path
  | .root _ => exact safe_node rfl
  | .field _ receiver name =>
    exact (answers.place wellFormed stands receiver).bind fun _ there => answers.field name there
  | .index _ receiver position =>
    apply (answers.place wellFormed stands receiver).bind
    intro base there
    have key := answers.valueOf wellFormed stands position
      (answers.place wellFormed stands position)
    exact key.bind fun key _ => answers.select key there
  | .unary _ op operand =>
    have value := answers.valueOf wellFormed stands operand
      (answers.place wellFormed stands operand)
    exact value.bind fun _ _ => (safe_outcome _).bind fun _ _ => safe_pure trivial
  | .binary _ op left right =>
    have lhs := answers.valueOf wellFormed stands left
      (answers.place wellFormed stands left)
    have rhs := answers.valueOf wellFormed stands right
      (answers.place wellFormed stands right)
    exact (safe_binary op lhs rhs).bind fun _ _ => safe_pure trivial
  | .call _ name args =>
    apply (answers.values wellFormed stands args).bind
    intro values _
    exact (safe_call env name values).bind fun _ _ => safe_pure trivial

theorem Answers.values (answers : Answers document checked ask) (wellFormed : document.WellFormed)
    (stands : scope.Stands document) (es : List (Expr μ)) :
    Safe document (fun _ => True) (Checked.values env checked scope es)
      (Interpreter.values env ask scope es) := by
  match es with
  | [] => exact safe_pure trivial
  | e :: es =>
    have value := answers.valueOf wellFormed stands e (answers.place wellFormed stands e)
    apply value.bind
    intro first _
    exact (answers.values wellFormed stands es).bind fun _ _ => safe_pure trivial

end

end Expressions

/-! ## Formulas -/

section Formulas

variable {checked : DocPath → Checked Value} {ask : DocPath → Eval Value} {scope : Scope}

theorem Answers.evaluate (answers : Answers document checked ask) (env : Environment)
    (wellFormed : document.WellFormed) (stands : scope.Stands document) (source : String) :
    Safe document (fun _ => True) (Checked.evaluate env checked scope source)
      (Resolution.evaluate env ask scope source) := by
  intro pass shape
  apply lands_within shape stands
  rw [Resolution.evaluate]
  cases parse source with
  | error e => exact lands_fail _
  | ok e =>
    exact answers.valueOf wellFormed stands e (answers.place wellFormed stands e) pass shape

theorem Answers.askFor (answers : Answers document checked ask) (asker : Option DocPath) :
    Answers document (Checked.askFor checked asker) (Resolution.askFor asker ask) := by
  intro path pass shape formula
  obtain ⟨source, there⟩ := formula
  obtain ⟨state, cell⟩ := Tree.cell?_of_shape shape there
  apply Lands.check
  · rw [cell]
    rfl
  · have noted : Lands (fun _ _ => True) (lift (Eval.change (·.note asker path)))
        (Eval.change (·.note asker path)) pass :=
      ⟨rfl, Pass.before_of_tree rfl, fun _ _ _ => trivial⟩
    apply noted.bind
    intro _ later before _
    exact answers path later (before.shape.trans shape) ⟨source, there⟩

theorem Answers.start (answers : Answers document checked ask) (env : Environment)
    (wellFormed : document.WellFormed) (stands : scope.Stands document) {path : DocPath}
    {source : String} {pass : Pass} (shape : pass.tree.blank = Tree.ofValue document)
    (fresh : pass.tree.cell? path = some ⟨source, .unresolved⟩) :
    Lands (Answered path) (Checked.start env checked scope path source)
      (Resolution.start env ask scope path source) pass := by
  have unresolved : pass.state? path = some .unresolved := Pass.state?_of_cell? fresh
  have active : (pass.setState path .inProgress).state? path = some .inProgress := by
    rw [Pass.state?_setState, if_pos rfl, unresolved]
    rfl
  have begun : (pass.setState path .inProgress).tree.blank = Tree.ofValue document :=
    (Tree.blank_setState _ _ _).trans shape
  have evaluated := (answers.askFor (some path)).evaluate env wellFormed stands source _ begun
  -- the formula is still in progress when its own evaluation ends
  have there := evaluated.before.kept path _ active (by simp)
  have before := ((Pass.Before.refl pass).setState unresolved .inProgress).trans evaluated.before
  have same := evaluated.same
  rcases ran : Resolution.evaluate env (Resolution.askFor (some path) ask) scope source
    (pass.setState path .inProgress) with ⟨outcome, last⟩
  rw [ran] at there before same
  have ended : Resolution.start env ask scope path source pass =
      (Resolution.verdict path outcome, last.conclude path outcome) := by
    rw [Resolution.start, ran]
    exact Resolution.conclude_eq path outcome last
  constructor
  · rw [Checked.start, same, ended, Option.map_some, Resolution.conclude_eq]
  · rw [ended]
    exact before.conclude unresolved outcome
  · intro value later reached
    rw [ended] at reached
    cases outcome with
    | error e => cases reached
    | ok found =>
      cases reached
      refine ⟨value, ?_⟩
      rw [Pass.state?_conclude, if_pos rfl, there]
      rfl

theorem Answers.settle (answers : Answers document checked ask) (env : Environment)
    (wellFormed : document.WellFormed) (stands : scope.Stands document) {path : DocPath}
    {pass : Pass}
    (shape : pass.tree.blank = Tree.ofValue document)
    (formula : ∃ source, document.get? path = some (.formula source)) :
    Lands (Answered path) (Checked.settle env checked scope path)
      (Resolution.settle env ask scope path) pass := by
  obtain ⟨source, there⟩ := formula
  obtain ⟨state, cell⟩ := Tree.cell?_of_shape shape there
  apply Lands.read
  rw [cell]
  cases state with
  | unresolved => exact answers.start env wellFormed stands shape cell
  | resolved value => exact lands_pure ⟨value, Pass.state?_of_cell? cell⟩
  | inProgress | failed _ => exact lands_fail _

/-- Resolving formulas is the same with and without checks, at any depth. -/
theorem answers_resolveWithin (env : Environment) (wellFormed : document.WellFormed) (depth : Nat) :
    Answers document (resolveWithin env depth) (Resolution.resolveWithin env depth) := by
  induction depth with
  | zero => exact fun _ _ _ _ => lands_fail _
  | succ depth ih =>
    intro path pass shape formula
    obtain ⟨source, there⟩ := formula
    have stands : (Scope.ofFormula path).Stands document :=
      Scope.stands_ofFormula (Option.isSome_of_mem there)
    exact ih.settle env wellFormed stands shape ⟨source, there⟩

end Formulas

/-! ## Documents -/

section Documents

variable {env : Environment} {checked : DocPath → Checked Value} {ask : DocPath → Eval Value}

theorem Answers.settleAnyway (answers : Answers document checked ask)
    (wellFormed : document.WellFormed) {scope : Scope} (stands : scope.Stands document)
    {path : DocPath} (formula : ∃ source, document.get? path = some (.formula source)) :
    Safe document (fun _ => True) (regardless (Checked.settle env checked scope path))
      (Eval.change fun pass => (Resolution.settle env ask scope path pass).2) := by
  intro pass shape
  have settled := answers.settle env wellFormed stands shape formula
  constructor
  · rw [regardless, settled.same]
    rfl
  · exact settled.before
  · intros
    trivial

theorem Safe.andThen {first second : Checked Unit} {f g : Pass → Pass}
    (h : Safe document (fun _ => True) first (Eval.change f))
    (h' : Safe document (fun _ => True) second (Eval.change g)) :
    Safe document (fun _ => True) (first >>= fun _ => second) (Eval.change fun pass => g (f pass)) :=
  h.bind fun _ _ => h'

/-- What is at a path in a document, up to the states of formulas. -/
def At (document : Value) (path : DocPath) (tree : Tree) : Prop :=
  (Tree.ofValue document).get? path = some tree.blank

theorem At.isSome {path : DocPath} {tree : Tree} (here : At document path tree) :
    (document.get? path).isSome := by
  rw [← isSome_get?_of_shape (Tree.blank_ofValue document), here]
  rfl

theorem At.formula {path : DocPath} {cell : Cell} (here : At document path (.formula cell)) :
    ∃ source, document.get? path = some (.formula source) := by
  have found := Tree.cell?_eq_some_iff.mpr here
  exact ⟨_, Tree.source_of_shape (Tree.blank_ofValue document) found⟩

theorem At.item {path : DocPath} {items : List Tree} (here : At document path (.array items))
    {position : Nat} {item : Tree} (inside : items[position]? = some item) :
    At document (path.index position) item := by
  rw [At, DocPath.index, Tree.get?_child here, Tree.blank, Tree.child?_index,
    Tree.blankItems_eq_map, List.getElem?_map, inside]
  rfl

theorem At.member {path : DocPath} {members : List (String × Tree)}
    (wellFormed : document.WellFormed) (here : At document path (.object members))
    {member : String × Tree} (inside : member ∈ members) :
    At document (path.key member.1) member.2 := by
  have keyed := Tree.keyed_get? (Tree.keyed_ofValue wellFormed) here
  have found := lookup_of_mem_nodup (Tree.keyed_of_blank keyed).1 inside
  rw [At, DocPath.key, Tree.get?_child here, Tree.blank, Tree.child?_key,
    Tree.blankMembers_eq_map, lookup_map_values, found]
  rfl

mutual

theorem Answers.visit (answers : Answers document checked ask) (wellFormed : document.WellFormed)
    (path : DocPath) (step : Step) (tree : Tree) (here : At document (path.child step) tree) :
    Safe document (fun _ => True)
      (Checked.visit env checked (Scope.ofContainer path) (path.child step) tree)
      (Eval.change (Traversal.visit env ask (Scope.ofContainer path) (path.child step) tree)) := by
  match tree with
  | .scalar _ => exact safe_pure trivial
  | .formula _ =>
    rw [Checked.visit]
    apply answers.settleAnyway wellFormed _ here.formula
    rw [← Scope.ofFormula_child]
    exact Scope.stands_ofFormula here.isSome
  | .array items =>
    have inside : ∀ i item, items[i]? = some item →
        At document ((path.child step).index (0 + i)) item := by
      intro i item mem
      rw [Nat.zero_add]
      exact here.item mem
    have unfolds : Traversal.visit env ask (Scope.ofContainer path) (path.child step) (.array items) =
        Traversal.visitItems env ask (Scope.ofContainer (path.child step)) 0 items := by
      rw [← Scope.inside_ofContainer]
      rfl
    rw [Checked.visit, unfolds, Scope.inside_ofContainer]
    intro pass shape
    apply lands_within shape (Scope.stands_ofContainer here.isSome)
    exact answers.visitItems wellFormed (path.child step) 0 items inside pass shape
  | .object members =>
    have unfolds : Traversal.visit env ask (Scope.ofContainer path) (path.child step)
        (.object members) =
          Traversal.visitMembers env ask (Scope.ofContainer (path.child step)) members := by
      rw [← Scope.inside_ofContainer]
      rfl
    rw [Checked.visit, unfolds, Scope.inside_ofContainer]
    intro pass shape
    apply lands_within shape (Scope.stands_ofContainer here.isSome)
    exact answers.visitMembers wellFormed (path.child step) members
      (fun _ mem => here.member wellFormed mem) pass shape

theorem Answers.visitItems (answers : Answers document checked ask)
    (wellFormed : document.WellFormed) (path : DocPath) (position : Nat) (items : List Tree)
    (here : ∀ i item, items[i]? = some item → At document (path.index (position + i)) item) :
    Safe document (fun _ => True)
      (Checked.visitItems env checked (Scope.ofContainer path) position items)
      (Eval.change (Traversal.visitItems env ask (Scope.ofContainer path) position items)) := by
  match items with
  | [] => exact safe_pure trivial
  | item :: rest =>
    have later : ∀ i other, rest[i]? = some other →
        At document (path.index (position + 1 + i)) other := by
      intro i other inside
      rw [Nat.add_assoc, Nat.add_comm 1 i]
      exact here (i + 1) other inside
    have first := answers.visit wellFormed path (.index position) item (here 0 item rfl)
    have both := first.andThen (answers.visitItems wellFormed path (position + 1) rest later)
    rw [Checked.visitItems, Scope.path_ofContainer]
    have unfolds : Traversal.visitItems env ask (Scope.ofContainer path) position (item :: rest) =
        fun pass => Traversal.visitItems env ask (Scope.ofContainer path) (position + 1) rest
          (Traversal.visit env ask (Scope.ofContainer path) (path.index position) item pass) := by
      funext pass
      rw [Traversal.visitItems, Scope.path_ofContainer]
    rw [unfolds]
    exact both

theorem Answers.visitMembers (answers : Answers document checked ask)
    (wellFormed : document.WellFormed) (path : DocPath) (members : List (String × Tree))
    (here : ∀ member ∈ members, At document (path.key member.1) member.2) :
    Safe document (fun _ => True)
      (Checked.visitMembers env checked (Scope.ofContainer path) members)
      (Eval.change (Traversal.visitMembers env ask (Scope.ofContainer path) members)) := by
  match members with
  | [] => exact safe_pure trivial
  | (key, tree) :: rest =>
    have later : ∀ member ∈ rest, At document (path.key member.1) member.2 :=
      fun member mem => here member (List.mem_cons_of_mem _ mem)
    have first := answers.visit wellFormed path (.key key) tree (here _ List.mem_cons_self)
    have both := first.andThen (answers.visitMembers wellFormed path rest later)
    have unfolds : Traversal.visitMembers env ask (Scope.ofContainer path) ((key, tree) :: rest) =
        fun pass => Traversal.visitMembers env ask (Scope.ofContainer path) rest
          (Traversal.visit env ask (Scope.ofContainer path) (path.key key) tree pass) := by
      funext pass
      rw [Traversal.visitMembers, Scope.path_ofContainer]
    rw [Checked.visitMembers, Scope.path_ofContainer, unfolds]
    exact both

end

/-- Traversal goes through with all checks, and leaves the pass that it leaves without them. -/
theorem visitDocument_eq (env : Environment) (wellFormed : document.WellFormed) :
    visitDocument env (Pass.start document) =
      some (.ok (), Traversal.visitDocument env (Pass.start document)) := by
  have shape : (Pass.start document).tree.blank = Tree.ofValue document :=
    Tree.blank_ofValue document
  have answers := answers_resolveWithin env wellFormed
    (Resolution.depthOf (Pass.start document).tree)
  have here : At document DocPath.root (Pass.start document).tree := by
    rw [At, shape]
    rfl
  rw [visitDocument, Traversal.visitDocument]
  cases tree : (Pass.start document).tree with
  | scalar _ => rfl
  | formula _ =>
    rw [tree] at answers here
    have stands := Scope.stands_ofFormula here.isSome
    exact (answers.settleAnyway wellFormed stands here.formula _ shape).same
  | array items =>
    rw [tree] at answers here
    have inside : ∀ i item, items[i]? = some item → At document (DocPath.root.index (0 + i)) item := by
      intro i item mem
      rw [Nat.zero_add]
      exact here.item mem
    exact (answers.visitItems wellFormed DocPath.root 0 items inside _ shape).same
  | object members =>
    rw [tree] at answers here
    have inside : ∀ member ∈ members, At document (DocPath.root.key member.1) member.2 :=
      fun _ mem => here.member wellFormed mem
    exact (answers.visitMembers wellFormed DocPath.root members inside _ shape).same

end Documents

end Checked

namespace Engine

/-- No fallback is ever taken. Evaluation comes to the same when every place and every scope is looked
up in the working tree, every formula that is asked for has to be one, and neither a missing node nor a
node without a value has anything to fall back on; and so does the evaluation of an expression. -/
theorem evaluate_without_fallbacks (engine : Engine) (around : Surroundings) {document : Value}
    (wellFormed : document.WellFormed) :
    engine.checkedEvaluate around document = some (engine.evaluate around document) ∧
      ∀ text, engine.checkedExpression around text document =
        some (engine.runExpression around text document) := by
  constructor
  · rw [checkedEvaluate, Checked.visitDocument_eq _ wellFormed]
    rfl
  · intro text
    have shape : (Pass.start document).tree.blank = Tree.ofValue document :=
      Tree.blank_ofValue document
    have stands : (Scope.ofContainer DocPath.root).Stands document := Scope.stands_ofContainer rfl
    have answers := Checked.answers_resolveWithin (engine.environment around) wellFormed
      (Resolution.depthOf (Pass.start document).tree)
    exact ((answers.askFor none).evaluate _ wellFormed stands text _ shape).same

/-- Formulas that load a container with formulas inside, navigate through another formula, and lead out
of the document or into nothing. -/
theorem evaluate_without_fallbacks_nested :
    let engine : Engine := ⟨[Function.upper], FormulaKeys.default, some 0⟩
    let around : Surroundings := ⟨0, id⟩
    let document : Value := .object [("all", .array [.formula "super.super.a", .formula "UPPER(b)"]),
      ("a", .object [("up", .formula "super.super.b")]), ("b", .formula "all[0].up"),
      ("above", .formula "super.super"), ("missing", .formula "a.down"), ("c", .formula "all")]
    document.WellFormed ∧
      engine.checkedEvaluate around document = some (engine.evaluate around document) ∧
      ∀ text, engine.checkedExpression around text document =
        some (engine.runExpression around text document) := by
  intro engine around document
  have wellFormed : document.WellFormed := by
    simp [document, Value.WellFormed, Value.MembersWellFormed, Value.ItemsWellFormed]
  exact ⟨wellFormed, evaluate_without_fallbacks engine around wellFormed⟩

end Engine

end FormulaDoc
