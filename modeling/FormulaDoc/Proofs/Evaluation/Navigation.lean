import FormulaDoc.Proofs.Evaluation.Execution
import FormulaDoc.Proofs.Evaluation.Meaning

/-!
# Navigating before and after loading

From a node of the working tree one goes on along the tree, and into the value of a formula where one is
met; from a computed value one goes on inside of it. Once a node has been loaded, both ways lead to the
same: all formulas inside have a value, so that going on from the node only looks up what the loaded
value has at the same keys and positions.
-/
namespace FormulaDoc

open Resolution

/-- A way on: to a member by its key or to an item by its position, counted from the end if negative. -/
inductive Access where
  | key (name : String)
  | index (position : Int)

namespace Value

def access (value : Value) : Access → Except EvalError Value
  | .key name => value.field name
  | .index position => value.element position

/-- Where a sequence of accesses leads inside of a value. -/
def navigate : List Access → Value → Except EvalError Value
  | [], value => .ok value
  | first :: rest, value =>
    match value.access first with
    | .ok next => navigate rest next
    | .error e => .error e

theorem kind_of_field {value : Value} {key : String} {e : EvalError}
    (h : value.field key = .error e) : e.kind = .reference := by
  cases value with
  | object members =>
    simp only [field] at h
    cases found : members.lookup key with
    | none =>
      rw [found] at h
      cases h
      rfl
    | some member =>
      rw [found] at h
      cases h
  | _ =>
    cases h
    rfl

theorem kind_of_element {value : Value} {index : Int} {e : EvalError}
    (h : value.element index = .error e) : e.kind = .reference := by
  cases value with
  | array items =>
    simp only [element] at h
    cases found : (position? index items.length).bind (items[·]?) with
    | none =>
      rw [found] at h
      cases h
      rfl
    | some item =>
      rw [found] at h
      cases h
  | _ =>
    cases h
    rfl

theorem kind_of_access {value : Value} {access : Access} {e : EvalError}
    (h : value.access access = .error e) : e.kind = .reference := by
  cases access with
  | key name => exact kind_of_field h
  | index position => exact kind_of_element h

/-- There is nothing inside of a scalar. -/
theorem access_of_isScalar {value : Value} (scalar : value.isScalar) (access : Access) :
    ∃ what, value.access access = .error (.cannotAccess what value.typeName none) := by
  cases access with
  | key name =>
    cases value with
    | object _ => cases scalar
    | _ => exact ⟨EvalError.propertyAccess name, rfl⟩
  | index position =>
    cases value with
    | array _ => cases scalar
    | _ => exact ⟨EvalError.indexAccess position, rfl⟩

end Value

namespace Place

variable (ask : DocPath → Eval Value)

def access (place : Place) : Access → Eval Place
  | .key name => place.field ask name
  | .index position => place.element ask position

/-- Where a sequence of accesses leads from a place. -/
def navigate : List Access → Place → Eval Place
  | [], place => pure place
  | first :: rest, place => do
    let next ← place.access ask first
    navigate rest next

theorem access_computed (value : Value) (access : Access) :
    (computed value).access ask access = Eval.ofExcept ((value.access access).map computed) := by
  cases access <;> rfl

/-- Navigating from a computed place is navigating in its value. -/
theorem navigate_computed (accesses : List Access) (value : Value) :
    navigate ask accesses (computed value) =
      Eval.ofExcept ((value.navigate accesses).map computed) := by
  induction accesses generalizing value with
  | nil => rfl
  | cons first rest ih =>
    rw [navigate, access_computed, Value.navigate]
    cases value.access first with
    | error e => rfl
    | ok next => exact ih next

end Place

theorem lt_of_position? {index : Int} {length position : Nat}
    (h : position? index length = some position) : position < length := by
  simp only [position?, Option.ite_none_right_eq_some, Option.some.injEq, Int.ofNat_eq_natCast] at h
  obtain ⟨⟨low, high⟩, same⟩ := h
  omega

namespace Place

/-! ## Places that stand for a value -/

/-- A place stands for a value if it is a computed place with this value, or a node whose formulas all
have a value and make it this one. -/
def StandsFor (tree : Tree) (value : Value) : Place → Prop
  | computed found => found = value
  | node path => (tree.get? path).bind Tree.toValue? = some value

/-- Going on from a place comes out as going on in a value does: it leads to a place that stands for the
value found there, or both fail for want of something to refer to. Only requests are added. -/
inductive Reaches (pass : Pass) : Except EvalError Value → Except EvalError Place × Pass → Prop where
  | arrives {value place needs} : place.StandsFor pass.tree value →
      Reaches pass (.ok value) (.ok place, { pass with needs := needs })
  | fails {e e' needs} : e.kind = .reference → e'.kind = .reference →
      Reaches pass (.error e) (.error e', { pass with needs := needs })

theorem reaches_computed {pass : Pass} {outcome : Except EvalError Value}
    (missing : ∀ e, outcome = .error e → e.kind = .reference)
    (needs : List (Option DocPath × DocPath)) :
    Reaches pass outcome (outcome.map computed, { pass with needs := needs }) := by
  cases outcome with
  | ok value => exact .arrives rfl
  | error e => exact .fails (missing e rfl) (missing e rfl)

theorem Reaches.of_needs {pass : Pass} {needs : List (Option DocPath × DocPath)}
    {outcome : Except EvalError Value} {reply : Except EvalError Place × Pass}
    (h : Reaches { pass with needs := needs } outcome reply) : Reaches pass outcome reply := by
  cases h with
  | arrives stands => exact .arrives stands
  | fails missing missing' => exact .fails missing missing'

variable {env : Environment} {document value : Value} {pass : Pass} {path : DocPath}

/-- A node is loaded with the value that it stands for, and nothing is asked for. -/
theorem load_of_standsFor (ask : DocPath → Eval Value) {place : Place}
    (stands : place.StandsFor pass.tree value) : place.load ask pass = (.ok value, pass) := by
  cases place with
  | computed found =>
    cases stands
    rfl
  | node path =>
    obtain ⟨part, here, known⟩ := Option.bind_eq_some_iff.mp stands
    have nothing : part.pending path = [] :=
      (Tree.pending_eq_nil_iff part path).mpr (by rw [known]; rfl)
    simp only [load, Eval.bind_apply, Eval.read, here, nothing, askAll, Eval.pure_apply,
      Option.bind_some, known]

/-- A node that has been loaded stands for what it has been loaded with. -/
theorem standsFor_of_load {ask : DocPath → Eval Value} {pass' : Pass}
    (loaded : load ask (.node path) pass = (.ok value, pass')) :
    (node path).StandsFor pass'.tree value := by
  simp only [load, Eval.bind_apply, Eval.read] at loaded
  rcases here : pass.tree.get? path with _ | part <;> rw [here] at loaded
  · cases loaded
  · simp only [Eval.bind_apply] at loaded
    rcases asked : askAll ask (part.pending path) pass with ⟨_ | _, last⟩ <;>
      simp only [asked, Eval.read] at loaded
    · cases loaded
    · rcases taken : (last.tree.get? path).bind Tree.toValue? with _ | found <;>
        rw [taken] at loaded
      · cases loaded
      · cases loaded
        exact taken

variable {asker : Option DocPath} {depth : Nat}

/-- A formula that has a value gives it when it is asked for; only the request is noted. -/
theorem ask_of_resolved (asker : Option DocPath) (depth : Nat)
    (here : pass.state? path = some (.resolved value)) :
    askFor asker (resolveWithin env (depth + 1)) path pass = (.ok value, pass.note asker path) := by
  have reply : (pass.note asker path).reply? path = some (.ok value) := by
    rw [Pass.reply?, Pass.state?_note, here]
  exact Machine.resolveWithin_of_reply (Nat.succ_pos depth) reply

/-- What a node with a value is made of. -/
theorem cases_of_standsFor (shape : pass.tree.blank = Tree.ofValue document)
    (stands : (node path).StandsFor pass.tree value) :
    (pass.tree.get? path = some (.scalar value) ∧ value.isScalar) ∨
    (∃ items values, pass.tree.get? path = some (.array items) ∧
      Tree.itemValues? items = some values ∧ value = .array values) ∨
    (∃ members values, pass.tree.get? path = some (.object members) ∧
      Tree.memberValues? members = some values ∧ value = .object values) ∨
    ∃ source, pass.tree.get? path = some (.formula ⟨source, .resolved value⟩) := by
  obtain ⟨part, here, known⟩ := Option.bind_eq_some_iff.mp stands
  cases part with
  | scalar found =>
    cases known
    left
    rcases Plan.node_of_shape shape path with ⟨none, _⟩ | ⟨part, original, there, _, same⟩
    · rw [here] at none
      cases none
    · rw [here] at there
      cases there
      refine ⟨here, ?_⟩
      cases original with
      | array _ | object _ | formula _ => cases same
      | _ =>
        cases same
        rfl
  | array items =>
    obtain ⟨values, all, rfl⟩ := Option.map_eq_some_iff.mp known
    exact .inr (.inl ⟨items, values, here, all, rfl⟩)
  | object members =>
    obtain ⟨values, all, rfl⟩ := Option.map_eq_some_iff.mp known
    exact .inr (.inr (.inl ⟨members, values, here, all, rfl⟩))
  | formula cell =>
    obtain ⟨source, state⟩ := cell
    cases state with
    | resolved found =>
      cases known
      exact .inr (.inr (.inr ⟨source, here⟩))
    | _ => cases known

theorem standsFor_child {part child : Tree} {step : Step}
    (here : pass.tree.get? path = some part) (inside : part.child? step = some child)
    (known : child.toValue? = some value) :
    (node (path.child step)).StandsFor pass.tree value := by
  show (pass.tree.get? (path.child step)).bind Tree.toValue? = some value
  rw [Tree.get?_child here, inside, Option.bind_some, known]

theorem reaches_access_scalar (ask : DocPath → Eval Value)
    (here : pass.tree.get? path = some (.scalar value)) (scalar : value.isScalar) (access : Access) :
    Reaches pass (value.access access) ((node path).access ask access pass) := by
  obtain ⟨what, outcome⟩ := Value.access_of_isScalar scalar access
  have refused : ∃ what, (node path).access ask access pass =
      (.error (.cannotAccess what value.typeName (some path)), pass) := by
    cases access with
    | key name =>
      refine ⟨EvalError.propertyAccess name, ?_⟩
      simp only [Place.access, Place.field, Eval.bind_apply, Eval.read, here, Eval.fail, Tree.typeName]
    | index position =>
      refine ⟨EvalError.indexAccess position, ?_⟩
      simp only [Place.access, Place.element, Eval.bind_apply, Eval.read, here, Eval.fail, Tree.typeName]
  obtain ⟨what', refused⟩ := refused
  rw [outcome, refused]
  exact .fails rfl rfl

theorem reaches_access_array (ask : DocPath → Eval Value) {items : List Tree} {values : List Value}
    (here : pass.tree.get? path = some (.array items)) (all : Tree.itemValues? items = some values)
    (access : Access) :
    Reaches pass ((Value.array values).access access) ((node path).access ask access pass) := by
  cases access with
  | key name =>
    simp only [Place.access, Place.field, Eval.bind_apply, Eval.read, here, Value.access, Value.field]
    exact .fails rfl rfl
  | index index =>
    simp only [Place.access, Place.element, Eval.bind_apply, Eval.read, here, Value.access,
      Value.element, Tree.length_itemValues? all]
    cases found : position? index items.length with
    | none =>
      simp only [Option.bind_none]
      exact .fails rfl rfl
    | some position =>
      have bound : position < items.length := lt_of_position? found
      have item : items[position]? = some items[position] := List.getElem?_eq_getElem bound
      obtain ⟨next, known, there⟩ := Tree.exists_toValue?_of_getElem? all item
      simp only [Option.bind_some, there]
      apply Reaches.arrives
      exact standsFor_child here item known

theorem reaches_access_object (ask : DocPath → Eval Value) {members : List (String × Tree)}
    {values : List (String × Value)} (here : pass.tree.get? path = some (.object members))
    (all : Tree.memberValues? members = some values) (access : Access) :
    Reaches pass ((Value.object values).access access) ((node path).access ask access pass) := by
  cases access with
  | key name =>
    have same := Tree.lookup_memberValues? all name
    simp only [Place.access, Place.field, Eval.bind_apply, Eval.read, here, Value.access, Value.field]
    cases found : members.lookup name with
    | none =>
      rw [found, Option.map_none, eq_comm, Option.map_eq_none_iff] at same
      simp only [same]
      exact .fails rfl rfl
    | some member =>
      obtain ⟨next, known, there⟩ := Tree.exists_toValue?_of_lookup all found
      simp only [there]
      apply Reaches.arrives
      exact standsFor_child here found known
  | index index =>
    simp only [Place.access, Place.element, Eval.bind_apply, Eval.read, here, Value.access,
      Value.element]
    exact .fails rfl rfl

/-- A resolved formula is entered by asking for its value and going on in it. -/
theorem reaches_access_formula {source : String}
    (here : pass.tree.get? path = some (.formula ⟨source, .resolved value⟩)) (access : Access) :
    Reaches pass (value.access access)
      ((node path).access (askFor asker (resolveWithin env (depth + 1))) access pass) := by
  have known : pass.state? path = some (.resolved value) :=
    Pass.state?_of_cell? (Tree.cell?_eq_some_iff.mpr here)
  have entered : (node path).access (askFor asker (resolveWithin env (depth + 1))) access pass =
      ((value.access access).map computed, pass.note asker path) := by
    cases access <;>
      simp only [Place.access, Place.field, Place.element, Eval.bind_apply, Eval.read, here,
        ask_of_resolved asker depth known, Eval.ofExcept, Value.access]
  rw [entered]
  exact reaches_computed (fun _ => Value.kind_of_access) ((asker, path) :: pass.needs)

/-- One access, made to a place that stands for a value, comes out as it does in the value. -/
theorem reaches_access (shape : pass.tree.blank = Tree.ofValue document) {place : Place}
    (stands : place.StandsFor pass.tree value) (access : Access) :
    Reaches pass (value.access access)
      (place.access (askFor asker (resolveWithin env (depth + 1))) access pass) := by
  cases place with
  | computed found =>
    cases stands
    rw [access_computed]
    exact reaches_computed (fun _ => Value.kind_of_access) pass.needs
  | node path =>
    rcases cases_of_standsFor shape stands with ⟨here, scalar⟩ | ⟨items, values, here, all, rfl⟩ |
      ⟨members, values, here, all, rfl⟩ | ⟨source, here⟩
    · exact reaches_access_scalar _ here scalar access
    · exact reaches_access_array _ here all access
    · exact reaches_access_object _ here all access
    · exact reaches_access_formula here access

/-- A whole sequence of accesses, made from a place that stands for a value, comes out as it does in
the value. -/
theorem reaches_navigate (shape : pass.tree.blank = Tree.ofValue document) {place : Place}
    (stands : place.StandsFor pass.tree value) (accesses : List Access) :
    Reaches pass (value.navigate accesses)
      (place.navigate (askFor asker (resolveWithin env (depth + 1))) accesses pass) := by
  induction accesses generalizing value place pass with
  | nil => exact .arrives stands
  | cons first rest ih =>
    have firstly : Reaches pass (value.access first)
        (place.access (askFor asker (resolveWithin env (depth + 1))) first pass) :=
      reaches_access shape stands first
    rw [Place.navigate, Eval.bind_apply, Value.navigate]
    generalize value.access first = outcome at firstly ⊢
    generalize place.access _ first pass = reply at firstly ⊢
    cases firstly with
    | @arrives next reached needs stands =>
      -- Only requests have been added, so that the rest starts from the same tree.
      have shape : ({ pass with needs := needs } : Pass).tree.blank = Tree.ofValue document := shape
      exact (ih shape stands).of_needs
    | fails missing missing' => exact .fails missing missing'

theorem Reaches.state {outcome : Except EvalError Value} {reply : Except EvalError Place × Pass}
    (h : Reaches pass outcome reply) : reply.2 = { pass with needs := reply.2.needs } := by
  cases h <;> rfl

/-- Loading the end comes to the value that is found. -/
theorem Reaches.load (ask : DocPath → Eval Value) {outcome : Except EvalError Value}
    {walk : Eval Place} (h : Reaches pass outcome (walk pass)) :
    (∃ value needs, outcome = .ok value ∧
      (walk >>= Place.load ask) pass = (.ok value, { pass with needs := needs })) ∨
    ∃ e e' needs, outcome = .error e ∧ e.kind = .reference ∧
      (walk >>= Place.load ask) pass = (.error e', { pass with needs := needs }) ∧
        e'.kind = .reference := by
  rw [Eval.bind_apply]
  generalize walk pass = reply at h ⊢
  cases h with
  | @arrives value place needs stands =>
    have given : place.load ask { pass with needs := needs } =
        (.ok value, { pass with needs := needs }) := load_of_standsFor ask stands
    exact .inl ⟨value, needs, rfl, given⟩
  | @fails e e' needs missing missing' =>
    exact .inr ⟨e, e', needs, rfl, missing, rfl, missing'⟩

/-- Loading a place keeps the shape of the tree. -/
theorem shape_load (env : Environment) (shape : pass.tree.blank = Tree.ofValue document)
    (asker : Option DocPath) (depth : Nat) (place : Place) :
    (place.load (askFor asker (resolveWithin env depth)) pass).2.tree.blank =
      Tree.ofValue document := by
  have steady : Steady document (askFor asker (resolveWithin env depth)) :=
    steady_askFor (steady_resolveWithin env depth) asker
  have described : place.load (askFor asker (resolveWithin env depth)) pass =
      (Plan.load document place).run env (askFor asker (resolveWithin env depth)) pass :=
    Plan.describes_load place pass shape
  rw [described]
  exact Plan.steady_run steady (Plan.load document place) shape

/-- Navigating and then loading is loading and then navigating. Whatever state an evaluation has
reached, once a node has been loaded every sequence of accesses leads from the node to what it leads to
in the loaded value, and loading the end gives just that; where it leads nowhere in the value, both ways
fail for want of something to refer to. Nothing changes on either way except that requests are
noted. -/
theorem load_then_navigate {stack : List Frame} {pass' : Pass}
    (reached : Machine.Execution env document ⟨[], Pass.start document⟩ ⟨stack, pass⟩)
    (loaded : load (askFor asker (resolveWithin env (depth + 1))) (node path) pass =
      (.ok value, pass')) (accesses : List Access) :
    let ask := askFor asker (resolveWithin env (depth + 1))
    let along := navigate ask accesses (node path) pass'
    let atEnd := (navigate ask accesses (node path) >>= load ask) pass'
    let inside := navigate ask accesses (computed value) pass'
    (∀ found, atEnd.1 = .ok found ↔ inside.1 = .ok (computed found)) ∧
    ((∃ found, inside.1 = .ok (computed found)) ∨
      ((∃ e, atEnd.1 = .error e ∧ e.kind = .reference) ∧
        ∃ e, inside.1 = .error e ∧ e.kind = .reference)) ∧
    along.2 = { pass' with needs := along.2.needs } ∧
    atEnd.2 = { pass' with needs := atEnd.2.needs } ∧ inside.2 = pass' := by
  intro ask along atEnd inside
  have shape : pass'.tree.blank = Tree.ofValue document := by
    have coherent : Machine.Coherent document ⟨stack, pass⟩ :=
      Machine.execution_coherent reached (Machine.start_coherent document)
    have kept := shape_load env coherent.shape asker (depth + 1) (node path)
    rwa [loaded] at kept
  have reaches : Reaches pass' (value.navigate accesses) along :=
    reaches_navigate shape (standsFor_of_load loaded) accesses
  have inValue : inside = ((value.navigate accesses).map computed, pass') :=
    congrFun (navigate_computed ask accesses value) pass'
  have walked : along.2 = { pass' with needs := along.2.needs } := reaches.state
  rw [inValue]
  rcases reaches.load ask with ⟨found, needs, leads, ends⟩ |
    ⟨e, e', needs, leads, missing, ends, missing'⟩
  · have ends : atEnd = (.ok found, { pass' with needs := needs }) := ends
    rw [leads, ends]
    refine ⟨fun other => ?_, .inl ⟨found, rfl⟩, walked, rfl, rfl⟩
    simp only [Except.map, Except.ok.injEq, computed.injEq]
  · have ends : atEnd = (.error e', { pass' with needs := needs }) := ends
    rw [leads, ends]
    refine ⟨fun other => ?_, .inr ⟨⟨e', rfl, missing'⟩, e, rfl, missing⟩, walked, rfl, rfl⟩
    simp only [Except.map, reduceCtorEq]

open Grammar in
/-- Loading the whole document resolves the formula inside; then the way from the root through the
formula into its value comes out as the way through the loaded value. -/
theorem load_then_navigate_through_formula :
    let env : Environment := ⟨[], 0, id⟩
    let table : Value := .array [.null, .object [("name", .string "ann")]]
    let document : Value := .object [("table", table), ("rows", .formula "$.table")]
    let loaded : Value := .object [("table", table), ("rows", table)]
    let rows : DocPath := [.key "rows"]
    let after := (((Pass.start document).note none rows).setState rows .inProgress).setState rows
      (.resolved table)
    let ask := askFor none (resolveWithin env 2)
    let accesses : List Access := [.key "rows", .index (-1), .key "name"]
    let beyond : List Access := [.key "rows", .index (-3)]
    load ask (node DocPath.root) (Pass.start document) = (.ok loaded, after) ∧
      ((navigate ask accesses (node DocPath.root) >>= load ask) after).1 = .ok (.string "ann") ∧
      ∃ e, ((navigate ask beyond (node DocPath.root) >>= load ask) after).1 = .error e ∧
        e.kind = .reference := by
  intro env table document loaded rows after ask accesses beyond
  have lexed : scan "$.table" = .ok [⟨.sign .dollar, ⟨0, 1⟩⟩, ⟨.sign .dot, ⟨1, 2⟩⟩,
      ⟨.ident "table", ⟨2, 7⟩⟩] := by cbv
  have resolved : ask rows (Pass.start document) = (.ok table, after) := by
    show resolveWithin env 2 rows ((Pass.start document).note none rows) = _
    exact resolveWithin_eq_of_evaluate rfl (by rw [evaluate_rootField lexed]; rfl)
  have whole : load ask (node DocPath.root) (Pass.start document) = (.ok loaded, after) := by
    have asked : askAll ask [rows] (Pass.start document) = (.ok (), after) := by
      rw [askAll, Eval.bind_apply, resolved]
      rfl
    show (askAll ask [rows] >>= fun _ => _) (Pass.start document) = _
    rw [Eval.bind_apply, asked]
    rfl
  have through := load_then_navigate .refl whole
  refine ⟨whole, ?_, ?_⟩
  · exact ((through accesses).1 _).mpr rfl
  · rcases (through beyond).2.1 with ⟨found, inside⟩ | ⟨missing, _⟩
    · cases inside
    · exact missing

end Place

end FormulaDoc
