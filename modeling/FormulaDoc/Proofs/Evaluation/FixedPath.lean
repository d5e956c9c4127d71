import FormulaDoc.Proofs.Evaluation.Interpretation
import FormulaDoc.Proofs.Evaluation.Meaning

/-!
# Fixed paths

An expression that goes some levels up and from there down by names, quoted keys and positions written
as numbers names its node by a fixed path, which is followed without evaluating anything. Which
expressions these are, and that following the path is the same as evaluating the expression access by
access: with one value or one error, through the same formulas.
-/
namespace FormulaDoc

variable {α : Type}

namespace Expr

/-- An expression that names a place by a fixed path: so many levels up, and from there down by names,
quoted keys and positions written as numbers. -/
inductive NamesPath : Expr α → Nat → DocPath → Prop where
  | scope {mark depth} : NamesPath (.scope mark depth) depth []
  | field {mark receiver name depth path} : NamesPath receiver depth path →
      NamesPath (.field mark receiver name) depth (path.key name)
  | key {mark mark' receiver name depth path} : NamesPath receiver depth path →
      NamesPath (.index mark receiver (.literal mark' (.string name))) depth (path.key name)
  /-- A position is a whole number up to `2 ^ 53`; a negative one is not fixed. -/
  | position {mark mark' receiver n position depth path} : NamesPath receiver depth path →
      Binary64.exactInt? n = some (Int.ofNat position) →
      NamesPath (.index mark receiver (.literal mark' (.number n))) depth (path.index position)

theorem literalStep?_of_exactInt? {mark : α} {n : Float} {position : Nat}
    (whole : Binary64.exactInt? n = some (Int.ofNat position)) :
    (literal mark (.number n)).literalStep? = some (.index position) := by
  simp only [literalStep?, Value.integer?, whole]

/-- A literal step is a quoted key or a position written as a number. -/
theorem literalStep?_cases {e : Expr α} {step : Step} (h : e.literalStep? = some step) :
    (∃ mark name, e = literal mark (.string name) ∧ step = .key name) ∨
      ∃ mark n position, e = literal mark (.number n) ∧
        Binary64.exactInt? n = some (Int.ofNat position) ∧ step = .index position := by
  cases e with
  | literal mark value =>
    cases value with
    | string name =>
      cases h
      exact .inl ⟨mark, name, rfl, rfl⟩
    | number n =>
      simp only [literalStep?] at h
      split at h
      · next position whole =>
        cases h
        exact .inr ⟨mark, n, position, rfl, whole, rfl⟩
      · cases h
    | _ => cases h
  | _ => cases h

theorem NamesPath.staticPath? {e : Expr α} {depth : Nat} {path : DocPath}
    (h : e.NamesPath depth path) : e.staticPath? = some (depth, path) := by
  induction h with
  | scope => rfl
  | field _ ih => rw [Expr.staticPath?, ih, Option.map_some]
  | key _ ih =>
    rw [Expr.staticPath?, ih]
    rfl
  | position _ whole ih =>
    rw [Expr.staticPath?, ih, literalStep?_of_exactInt? whole]
    rfl

theorem namesPath_of_staticPath? {e : Expr α} {depth : Nat} {path : DocPath}
    (h : e.staticPath? = some (depth, path)) : e.NamesPath depth path := by
  match e with
  | scope _ _ =>
    cases h
    exact .scope
  | field _ receiver name =>
    obtain ⟨⟨levels, before⟩, found, same⟩ := Option.map_eq_some_iff.mp h
    cases same
    exact .field (namesPath_of_staticPath? found)
  | index _ receiver position =>
    obtain ⟨step, literal, rest⟩ := Option.bind_eq_some_iff.mp h
    obtain ⟨⟨levels, before⟩, found, same⟩ := Option.map_eq_some_iff.mp rest
    cases same
    have names := namesPath_of_staticPath? found
    rcases literalStep?_cases literal with ⟨_, _, rfl, rfl⟩ | ⟨_, _, _, rfl, whole, rfl⟩
    · exact .key names
    · exact .position names whole

theorem staticPath?_eq_some_iff {e : Expr α} {depth : Nat} {path : DocPath} :
    e.staticPath? = some (depth, path) ↔ e.NamesPath depth path :=
  ⟨namesPath_of_staticPath?, NamesPath.staticPath?⟩

end Expr

/-- The expressions that are followed directly are those that name a fixed path. Following the path
does exactly what evaluating the expression access by access and loading its place at the end does, in
any state of the working tree: it comes to the same value or the same error, and it leaves the same
states and the same errors recorded. -/
theorem Interpreter.loadStatic_eq_place (e : Expr α) (depth : Nat) (path : DocPath) :
    (e.staticPath? = some (depth, path) ↔ e.NamesPath depth path) ∧
    (e.staticPath? = some (depth, path) →
      ∀ (env : Environment) (ask : DocPath → Eval Value) (scope : Scope) (pass : Pass),
        scope.loadStatic ask depth path pass = (place env ask scope e >>= Place.load ask) pass) := by
  constructor
  · exact Expr.staticPath?_eq_some_iff
  · intro fixed env ask scope pass
    rw [place_of_staticPath? env ask scope fixed, Scope.loadStatic, bind_assoc]

open Grammar in
/-- A fixed path that leads into the value of a formula: the formula is resolved on the way, and the
path goes on in its value. -/
theorem Interpreter.loadStatic_into_formula :
    let env : Environment := ⟨[], 0, id⟩
    let document : Value := .object [
      ("table", .array [.null, .object [("name", .string "ann")]]),
      ("rows", .formula "$.table"), ("pick", .formula "super.rows[1].name")]
    let e : Expr Unit :=
      .field () (.index () (.field () (.scope () 1) "rows") (.literal () (.number 1))) "name"
    let path : DocPath := [.key "rows", .index 1, .key "name"]
    let ask := Resolution.resolveWithin env 3
    let scope := Scope.ofFormula [.key "pick"]
    let followed := scope.loadStatic ask 1 path (Pass.start document)
    e.staticPath? = some (1, path) ∧ e.NamesPath 1 path ∧ followed.1 = .ok (.string "ann") ∧
      followed = (place env ask scope e >>= Place.load ask) (Pass.start document) := by
  intro env document e path ask scope followed
  have fixed : e.staticPath? = some (1, path) := rfl
  have agrees := loadStatic_eq_place e 1 path
  have lexed : scan "$.table" = .ok [⟨.sign .dollar, ⟨0, 1⟩⟩, ⟨.sign .dot, ⟨1, 2⟩⟩,
      ⟨.ident "table", ⟨2, 7⟩⟩] := by cbv
  let rows : DocPath := [.key "rows"]
  let value : Value := .array [.null, .object [("name", .string "ann")]]
  let begun := (Pass.start document).setState rows .inProgress
  have resolved : ask rows (Pass.start document) =
      (.ok value, begun.setState rows (.resolved value)) :=
    Resolution.resolveWithin_eq_of_evaluate rfl (by rw [Resolution.evaluate_rootField lexed]; rfl)
  refine ⟨fixed, agrees.1.mp fixed, ?_, agrees.2 fixed env ask scope (Pass.start document)⟩
  have entered : Place.element ask 1 (.node rows) (Pass.start document) =
      (.ok (.computed (.object [("name", .string "ann")])), begun.setState rows (.resolved value)) := by
    show (do let found ← ask rows
             Eval.ofExcept ((found.element 1).map Place.computed)) (Pass.start document) = _
    rw [Eval.bind_apply, resolved]
    rfl
  show (((Place.element ask 1 (.node rows) >>= Place.follow ask [.key "name"]) >>= Place.load ask)
    (Pass.start document)).1 = _
  rw [Eval.bind_apply, Eval.bind_apply, entered]
  rfl

end FormulaDoc
