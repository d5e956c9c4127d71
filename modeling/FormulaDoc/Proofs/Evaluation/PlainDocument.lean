import FormulaDoc.Proofs.Document.JsonRoundTrip
import FormulaDoc.Proofs.Evaluation.JsonResult

/-!
# Documents without formulas in JSON

A document in JSON that holds no formula comes back with the same structure, keys and texts. Its numbers
are taken as doubles in between: an integer comes back as the nearest one, which is another number where
no double is equal to it.
-/
namespace FormulaDoc

/-- Whether a number is that of a double, and no other one is nearer to a given number. -/
def Binary64.IsNearest (number rounded : ℚ) : Prop :=
  (∃ x, isFinite x = true ∧ value x = rounded) ∧
    ∀ x, isFinite x = true → |rounded - number| ≤ |value x - number|

namespace Json

/-- The number that a document denotes, if it is one. -/
def number? : Json → Option ℚ
  | int i => some i
  | float x => if Binary64.isFinite x then some (Binary64.value x) else none
  | _ => none

mutual

/-- Whether two documents are the same up to their numbers, which are related. -/
def SameUpTo (near : ℚ → ℚ → Prop) : Json → Json → Prop
  | null, null => True
  | bool a, bool b => a = b
  | string a, string b => a = b
  | array as, array bs => ItemsSameUpTo near as bs
  | object as, object bs => MembersSameUpTo near as bs
  | a, b => ∃ p q, a.number? = some p ∧ b.number? = some q ∧ near p q

def ItemsSameUpTo (near : ℚ → ℚ → Prop) : List Json → List Json → Prop
  | [], [] => True
  | a :: as, b :: bs => a.SameUpTo near b ∧ ItemsSameUpTo near as bs
  | _, _ => False

def MembersSameUpTo (near : ℚ → ℚ → Prop) : List (String × Json) → List (String × Json) → Prop
  | [], [] => True
  | (key, a) :: as, (key', b) :: bs => key = key' ∧ a.SameUpTo near b ∧ MembersSameUpTo near as bs
  | _, _ => False

end

mutual

/-- Whether conditions hold of all integers and of all doubles in a document. -/
def AllNumbers (ints : Int → Prop) (floats : Float → Prop) : Json → Prop
  | int i => ints i
  | float x => floats x
  | array items => AllItemNumbers ints floats items
  | object members => AllMemberNumbers ints floats members
  | _ => True

def AllItemNumbers (ints : Int → Prop) (floats : Float → Prop) : List Json → Prop
  | [] => True
  | item :: rest => item.AllNumbers ints floats ∧ AllItemNumbers ints floats rest

def AllMemberNumbers (ints : Int → Prop) (floats : Float → Prop) : List (String × Json) → Prop
  | [] => True
  | (_, json) :: rest => json.AllNumbers ints floats ∧ AllMemberNumbers ints floats rest

end

/-- Whether an integer has 64 bits, with a sign or without. -/
def IsWord (i : Int) : Prop := -2 ^ 63 ≤ i ∧ i < 2 ^ 64

instance (i : Int) : Decidable (IsWord i) := inferInstanceAs (Decidable (_ ∧ _))

/-- Whether all numbers are integers of 64 bits or finite doubles. -/
def Stored (json : Json) : Prop := json.AllNumbers IsWord fun x => Binary64.isFinite x = true

/-- Whether all integers are equal to doubles. -/
def Exact (json : Json) : Prop :=
  json.AllNumbers (fun i => ∃ x, Binary64.isFinite x = true ∧ Binary64.value x = i) fun _ => True

section Numbers

variable {ints ints' ints'' : Int → Prop} {floats floats' floats'' : Float → Prop}

mutual

theorem AllNumbers.congr {json : Json} (all : json.AllNumbers ints floats)
    (sameInts : ∀ i, ints i → (ints' i ↔ ints'' i))
    (sameFloats : ∀ x, floats x → (floats' x ↔ floats'' x)) :
    json.AllNumbers ints' floats' ↔ json.AllNumbers ints'' floats'' := by
  match json with
  | null | bool _ | string _ => exact Iff.rfl
  | int i => exact sameInts i all
  | float x => exact sameFloats x all
  | array items => exact AllItemNumbers.congr all sameInts sameFloats
  | object members => exact AllMemberNumbers.congr all sameInts sameFloats

theorem AllItemNumbers.congr {items : List Json} (all : AllItemNumbers ints floats items)
    (sameInts : ∀ i, ints i → (ints' i ↔ ints'' i))
    (sameFloats : ∀ x, floats x → (floats' x ↔ floats'' x)) :
    AllItemNumbers ints' floats' items ↔ AllItemNumbers ints'' floats'' items := by
  match items with
  | [] => exact Iff.rfl
  | item :: rest =>
    exact and_congr (AllNumbers.congr all.1 sameInts sameFloats)
      (AllItemNumbers.congr all.2 sameInts sameFloats)

theorem AllMemberNumbers.congr {members : List (String × Json)}
    (all : AllMemberNumbers ints floats members) (sameInts : ∀ i, ints i → (ints' i ↔ ints'' i))
    (sameFloats : ∀ x, floats x → (floats' x ↔ floats'' x)) :
    AllMemberNumbers ints' floats' members ↔ AllMemberNumbers ints'' floats'' members := by
  match members with
  | [] => exact Iff.rfl
  | (_, json) :: rest =>
    exact and_congr (AllNumbers.congr all.1 sameInts sameFloats)
      (AllMemberNumbers.congr all.2 sameInts sameFloats)

end

theorem AllNumbers.imp {json : Json} (all : json.AllNumbers ints floats)
    (impInts : ∀ i, ints i → ints' i) (impFloats : ∀ x, floats x → floats' x) :
    json.AllNumbers ints' floats' :=
  (all.congr (fun i h => iff_of_true h (impInts i h)) fun x h => iff_of_true h (impFloats x h)).mp all

end Numbers

/-! ## Reading a document and writing it -/

section Normalize

variable {keys : FormulaKeys} {near : ℚ → ℚ → Prop}

theorem log2_of_isWord {i : Int} (word : IsWord i) : i.natAbs.log2 < 1023 := by
  obtain ⟨least, most⟩ := word
  by_cases zero : i.natAbs = 0
  · rw [zero]
    decide
  · have : i.natAbs.log2 < 64 := (Nat.log2_lt zero).mpr (by omega)
    omega

/-- A finite double is written as a number that is equal to it. -/
theorem number?_ofNumber {n : Float} (finite : Binary64.isFinite n = true) :
    (ofNumber n).number? = some (Binary64.value n) := by
  rw [ofNumber]
  split
  next i whole => rw [number?, Binary64.value_of_toInt? (Binary64.toInt?_of_exactInt? whole).1]
  next => rw [if_pos finite, number?, if_pos finite]

theorem sameUpTo_iff_of_number {a b : Json} {p q : ℚ} (left : a.number? = some p)
    (right : b.number? = some q) : a.SameUpTo near b ↔ near p q := by
  have unfolded : a.SameUpTo near b ↔ ∃ p q, a.number? = some p ∧ b.number? = some q ∧ near p q := by
    cases a with
    | int _ | float _ => simp only [SameUpTo]
    | _ => exact absurd left nofun
  rw [unfolded, left, right]
  constructor
  · rintro ⟨_, _, ⟨⟩, ⟨⟩, close⟩
    exact close
  · exact fun close => ⟨p, q, rfl, rfl, close⟩

mutual

/-- What a document without formulas becomes is related to it as its numbers are to the doubles that
they are taken as. -/
theorem sameUpTo_normalize_iff {json : Json} (plain : json.hasFormula keys = false)
    (stored : json.Stored) :
    json.SameUpTo near (json.normalize keys) ↔
      json.AllNumbers (fun i => near i (Binary64.value (Binary64.ofInt i)))
        fun x => near (Binary64.value x) (Binary64.value x) := by
  match json with
  | null => exact iff_of_true trivial trivial
  | bool _ | string _ => exact iff_of_true rfl trivial
  | int i =>
    exact sameUpTo_iff_of_number rfl
      (number?_ofNumber (Binary64.isFinite_ofInt (log2_of_isWord stored)))
  | float x => exact sameUpTo_iff_of_number (if_pos stored) (number?_ofNumber stored)
  | array items => exact itemsSameUpTo_normalize_iff plain stored
  | object members =>
    obtain ⟨here, inside⟩ := Bool.or_eq_false_iff.mp plain
    rw [normalize, toValue_object (FormulaKeys.marks_eq_false_iff.mp here)]
    exact membersSameUpTo_normalize_iff inside stored

theorem itemsSameUpTo_normalize_iff {items : List Json} (plain : itemsHaveFormula keys items = false)
    (stored : (array items).Stored) :
    ItemsSameUpTo near items (ofItems keys (toItems keys items)) ↔
      AllItemNumbers (fun i => near i (Binary64.value (Binary64.ofInt i)))
        (fun x => near (Binary64.value x) (Binary64.value x)) items := by
  match items with
  | [] => exact Iff.rfl
  | item :: rest =>
    obtain ⟨here, later⟩ := Bool.or_eq_false_iff.mp plain
    exact and_congr (sameUpTo_normalize_iff here stored.1) (itemsSameUpTo_normalize_iff later stored.2)

theorem membersSameUpTo_normalize_iff {members : List (String × Json)}
    (plain : membersHaveFormula keys members = false) (stored : (object members).Stored) :
    MembersSameUpTo near members (ofMembers keys (toMembers keys members)) ↔
      AllMemberNumbers (fun i => near i (Binary64.value (Binary64.ofInt i)))
        (fun x => near (Binary64.value x) (Binary64.value x)) members := by
  match members with
  | [] => exact Iff.rfl
  | (key, json) :: rest =>
    obtain ⟨here, later⟩ := Bool.or_eq_false_iff.mp plain
    exact (and_iff_right rfl).trans (and_congr (sameUpTo_normalize_iff here stored.1)
      (membersSameUpTo_normalize_iff later stored.2))

end

theorem isNearest_ofInt {i : Int} (word : IsWord i) :
    Binary64.IsNearest i (Binary64.value (Binary64.ofInt i)) :=
  ⟨⟨_, Binary64.isFinite_ofInt (log2_of_isWord word), rfl⟩, fun x _ =>
    Binary64.ofInt_nearest (log2_of_isWord word) x⟩

theorem isNearest_value {x : Float} (finite : Binary64.isFinite x = true) :
    Binary64.IsNearest (Binary64.value x) (Binary64.value x) := by
  refine ⟨⟨x, finite, rfl⟩, fun y _ => ?_⟩
  rw [sub_self, abs_zero]
  exact abs_nonneg _

/-- An integer that some double is equal to is taken as that double. -/
theorem eq_value_ofInt_iff {i : Int} (word : IsWord i) :
    (i : ℚ) = Binary64.value (Binary64.ofInt i) ↔
      ∃ x, Binary64.isFinite x = true ∧ Binary64.value x = i := by
  obtain ⟨attained, least⟩ := isNearest_ofInt word
  constructor
  · intro same
    rwa [← same] at attained
  · rintro ⟨x, finite, same⟩
    have distance := least x finite
    rw [same, sub_self, abs_zero] at distance
    exact (sub_eq_zero.mp (abs_nonpos_iff.mp distance)).symm

end Normalize

end Json

namespace Engine

/-- A document without formulas comes back the same up to its numbers, each of which is rounded to the
nearest double. It comes back with the same numbers exactly if all of its integers are equal to
doubles. -/
theorem evaluateJson_of_plain (engine : Engine) (around : Surroundings) (document : Json)
    (plain : document.hasFormula engine.keys = false) (stored : document.Stored) :
    ∃ out, engine.evaluateJson around document = .ok out ∧
      document.SameUpTo Binary64.IsNearest out ∧ (document.SameUpTo Eq out ↔ document.Exact) := by
  have evaluated := engine.evaluate_of_formulaFree around (Json.containsFormula_toValue plain)
  refine ⟨document.normalize engine.keys, evaluateJson_eq_ok_iff.mpr ⟨_, evaluated, rfl⟩, ?_, ?_⟩
  · exact (Json.sameUpTo_normalize_iff plain stored).mpr
      (stored.imp (fun _ => Json.isNearest_ofInt) fun _ => Json.isNearest_value)
  · rw [Json.sameUpTo_normalize_iff plain stored]
    exact stored.congr (fun _ => Json.eq_value_ofInt_iff) fun _ _ => iff_of_true rfl trivial

/-- Numbers up to the least and the greatest word, and a formula key among others. -/
theorem evaluateJson_of_plain_words :
    let document : Json := .object
      [("$formula", .array [.int (-9223372036854775808), .int 18446744073709551615]),
        ("n", .float 0.5), ("text", .string "1 +")]
    document.hasFormula ({} : Engine).keys = false ∧ document.Stored ∧
      ∃ out, ({} : Engine).evaluateJson ⟨0.0, id⟩ document = .ok out ∧
        document.SameUpTo Binary64.IsNearest out ∧ (document.SameUpTo Eq out ↔ document.Exact) := by
  intro document
  have plain : document.hasFormula ({} : Engine).keys = false := by decide
  have stored : document.Stored := by
    simp only [document, Json.Stored, Json.AllNumbers, Json.AllMemberNumbers, Json.AllItemNumbers]
    decide
  exact ⟨plain, stored, evaluateJson_of_plain {} ⟨0.0, id⟩ document plain stored⟩

/-- The least positive integer that no double is equal to comes back as the one before it. -/
theorem evaluateJson_rounds_integer :
    let document : Json := .object [("id", .int 9007199254740993)]
    document.hasFormula ({} : Engine).keys = false ∧ document.Stored ∧
      ∃ out, ({} : Engine).evaluateJson ⟨0.0, id⟩ document = .ok out ∧ ¬document.SameUpTo Eq out := by
  intro document
  have plain : document.hasFormula ({} : Engine).keys = false := by decide
  have stored : document.Stored := ⟨(by decide : Json.IsWord 9007199254740993), trivial⟩
  have evaluated := ({} : Engine).evaluate_of_formulaFree ⟨0.0, id⟩ (Json.containsFormula_toValue plain)
  refine ⟨plain, stored, _, evaluateJson_eq_ok_iff.mpr ⟨_, evaluated, rfl⟩, fun same => ?_⟩
  have rounded : Binary64.ofInt 9007199254740993 = Binary64.ofInt 9007199254740992 := by
    rw [Binary64.ofInt, Binary64.ofInt]
    exact congrArg (Binary64.ofMagnitude false) (by decide)
  have number := Binary64.value_of_toInt? (Binary64.toInt?_ofInt (i := 9007199254740992) (by decide))
  have kept := ((Json.sameUpTo_normalize_iff plain stored).mp same).1
  change ((9007199254740993 : Int) : ℚ) = Binary64.value (Binary64.ofInt 9007199254740993) at kept
  rw [rounded, number] at kept
  norm_num at kept

end Engine

end FormulaDoc
