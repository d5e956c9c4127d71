import Mathlib.Data.List.Perm.Subperm
import FormulaDoc.Proofs.Document.Reordering

/-!
# Equality of values

Equality as formulas see it looks for the members of one object among those of another. Where no object
has a key twice, it is symmetric and transitive, and a value is equal to itself exactly if no NaN is
inside it.
-/
namespace FormulaDoc

namespace Binary64

theorem equal_self (a : Float) : equal a a = !isNaN a := by
  simp [equal]

theorem equal_symm {a b : Float} (h : equal a b = true) : equal b a = true := by
  obtain ⟨number, number', same⟩ := equal_iff.mp h
  exact equal_iff.mpr ⟨number', number, same.symm⟩

theorem equal_trans {a b c : Float} (h : equal a b = true) (h' : equal b c = true) :
    equal a c = true := by
  obtain ⟨number, _, same⟩ := equal_iff.mp h
  obtain ⟨_, number', same'⟩ := equal_iff.mp h'
  exact equal_iff.mpr ⟨number, number', same.trans same'⟩

end Binary64

namespace Value

/-- What holds of a value as soon as it holds of the values directly inside it holds of every value. -/
@[elab_as_elim]
theorem induction_on_parts {holds : Value → Prop} (value : Value) (null : holds null)
    (bool : ∀ b, holds (bool b)) (number : ∀ n, holds (number n)) (string : ∀ s, holds (string s))
    (array : ∀ items, (∀ item ∈ items, holds item) → holds (array items))
    (object : ∀ members, (∀ member ∈ members, holds member.2) → holds (object members))
    (formula : ∀ source, holds (formula source)) : holds value := by
  refine @Value.rec holds (fun items => ∀ item ∈ items, holds item)
    (fun members => ∀ member ∈ members, holds member.2) (fun member => holds member.2)
    null bool number string array object formula ?_ ?_ ?_ ?_ ?_ value
  · exact List.forall_mem_nil _
  · intro item rest here later
    exact List.forall_mem_cons.mpr ⟨here, later⟩
  · exact List.forall_mem_nil _
  · intro member rest here later
    exact List.forall_mem_cons.mpr ⟨here, later⟩
  · intro _ value here
    exact here

mutual

/-- Whether NaN is inside a value, at any depth. -/
def containsNaN : Value → Bool
  | number n => Binary64.isNaN n
  | array items => itemsContainNaN items
  | object members => membersContainNaN members
  | _ => false

def itemsContainNaN : List Value → Bool
  | [] => false
  | item :: rest => item.containsNaN || itemsContainNaN rest

def membersContainNaN : List (String × Value) → Bool
  | [] => false
  | (_, value) :: rest => value.containsNaN || membersContainNaN rest

end

variable {items others : List Value} {members members' members'' : List (String × Value)}

theorem itemsContainNaN_eq_false_iff :
    itemsContainNaN items = false ↔ ∀ item ∈ items, item.containsNaN = false := by
  induction items with
  | nil => simp [itemsContainNaN]
  | cons item rest ih => simp [itemsContainNaN, ih]

theorem membersContainNaN_eq_false_iff :
    membersContainNaN members = false ↔ ∀ member ∈ members, member.2.containsNaN = false := by
  induction members with
  | nil => simp [membersContainNaN]
  | cons member rest ih => simp [membersContainNaN, ih]

/-! ## Equal containers -/

theorem itemsEqual_self_iff :
    itemsEqual items items = true ↔ ∀ item ∈ items, equals item item = true := by
  induction items with
  | nil => simp [itemsEqual]
  | cons item rest ih => simp [itemsEqual, ih]

theorem itemsEqual_symm
    (each : ∀ a ∈ items, ∀ b ∈ others, equals a b = true → equals b a = true)
    (h : itemsEqual items others = true) : itemsEqual others items = true := by
  induction items generalizing others with
  | nil =>
    cases others with
    | nil => rfl
    | cons _ _ => cases h
  | cons a rest ih =>
    cases others with
    | nil => cases h
    | cons b more =>
      obtain ⟨here, later⟩ := Bool.and_eq_true_iff.mp h
      refine Bool.and_eq_true_iff.mpr ⟨each a List.mem_cons_self b List.mem_cons_self here, ?_⟩
      apply ih _ later
      intro a mem b mem'
      exact each a (List.mem_cons_of_mem _ mem) b (List.mem_cons_of_mem _ mem')

theorem itemsEqual_trans {others' : List Value}
    (each : ∀ a ∈ items, ∀ b c, equals a b = true → equals b c = true → equals a c = true)
    (h : itemsEqual items others = true) (h' : itemsEqual others others' = true) :
    itemsEqual items others' = true := by
  induction items generalizing others others' with
  | nil =>
    cases others with
    | nil => exact h'
    | cons _ _ => cases h
  | cons a rest ih =>
    cases others with
    | nil => cases h
    | cons b more =>
      cases others' with
      | nil => cases h'
      | cons c most =>
        obtain ⟨here, later⟩ := Bool.and_eq_true_iff.mp h
        obtain ⟨here', later'⟩ := Bool.and_eq_true_iff.mp h'
        refine Bool.and_eq_true_iff.mpr ⟨each a List.mem_cons_self b c here here', ?_⟩
        exact ih (fun a mem => each a (List.mem_cons_of_mem _ mem)) later later'

theorem membersWithin_iff :
    membersWithin members members' = true ↔
      ∀ member ∈ members, ∃ other, members'.lookup member.1 = some other ∧
        equals member.2 other = true := by
  induction members with
  | nil => simp [membersWithin]
  | cons member rest ih =>
    rw [membersWithin, Bool.and_eq_true, ih, List.forall_mem_cons]
    cases members'.lookup member.1 <;> simp

theorem equals_array_iff {a : Value} :
    equals (array items) a = true ↔ ∃ others, a = array others ∧ itemsEqual items others = true := by
  cases a <;> simp [equals]

theorem equals_object_iff {a : Value} :
    equals (object members) a = true ↔
      ∃ members', a = object members' ∧ members.length = members'.length ∧
        membersWithin members members' = true := by
  cases a <;> simp [equals]

/-- Of two objects of one size, neither has a key that the other has not if one of them has none. -/
theorem mem_keys_of_membersWithin (nodup : (members.map Prod.fst).Nodup)
    (size : members.length = members'.length) (within : membersWithin members members' = true)
    {key : String} (mem : key ∈ members'.map Prod.fst) : key ∈ members.map Prod.fst := by
  have inside : members.map Prod.fst ⊆ members'.map Prod.fst := by
    intro key mem
    obtain ⟨member, here, rfl⟩ := List.mem_map.mp mem
    obtain ⟨other, found, _⟩ := membersWithin_iff.mp within member here
    exact List.mem_map.mpr ⟨_, mem_of_lookup found, rfl⟩
  have same : (members.map Prod.fst).Perm (members'.map Prod.fst) :=
    (List.subperm_of_subset nodup inside).perm_of_length_le (by simp [size])
  exact same.mem_iff.mpr mem

/-! ## Laws of equality -/

theorem equals_self_iff {a : Value} (wellFormed : a.WellFormed) :
    equals a a = true ↔ a.containsNaN = false := by
  induction a using induction_on_parts with
  | null | bool _ | string _ | formula _ => simp [equals, containsNaN]
  | number n => simp [equals, containsNaN, Binary64.equal_self]
  | array items ih =>
    rw [equals, itemsEqual_self_iff, containsNaN, itemsContainNaN_eq_false_iff]
    exact forall₂_congr fun item mem => ih item mem (itemsWellFormed_iff.mp wellFormed item mem)
  | object members ih =>
    rw [equals, beq_self_eq_true, Bool.true_and, membersWithin_iff, containsNaN,
      membersContainNaN_eq_false_iff]
    refine forall₂_congr fun member mem => ?_
    rw [lookup_of_mem_nodup wellFormed.1 mem,
      ← ih member mem (membersWellFormed_iff.mp wellFormed.2 member mem)]
    simp

theorem equals_symm {a b : Value} (wellFormed : a.WellFormed) (wellFormed' : b.WellFormed)
    (h : equals a b = true) : equals b a = true := by
  induction a using induction_on_parts generalizing b with
  | null | bool _ | string _ | formula _ => cases b <;> simp_all [equals]
  | number n =>
    cases b with
    | number n' => exact Binary64.equal_symm h
    | _ => cases h
  | array items ih =>
    obtain ⟨others, rfl, same⟩ := equals_array_iff.mp h
    refine itemsEqual_symm (fun item mem other mem' => ?_) same
    exact ih item mem (itemsWellFormed_iff.mp wellFormed item mem)
      (itemsWellFormed_iff.mp wellFormed' other mem')
  | object members ih =>
    obtain ⟨members', rfl, size, within⟩ := equals_object_iff.mp h
    rw [equals_object_iff]
    refine ⟨members, rfl, size.symm, membersWithin_iff.mpr fun other mem => ?_⟩
    have keys := mem_keys_of_membersWithin wellFormed.1 size within (List.mem_map_of_mem mem)
    obtain ⟨member, here, key⟩ := List.mem_map.mp keys
    obtain ⟨found, there, equal⟩ := membersWithin_iff.mp within member here
    rw [key, lookup_of_mem_nodup wellFormed'.1 mem] at there
    obtain rfl := Option.some.inj there
    refine ⟨member.2, key ▸ lookup_of_mem_nodup wellFormed.1 here, ?_⟩
    exact ih member here (membersWellFormed_iff.mp wellFormed.2 member here)
      (membersWellFormed_iff.mp wellFormed'.2 other mem) equal

theorem equals_trans {a b c : Value} (h : equals a b = true) (h' : equals b c = true) :
    equals a c = true := by
  induction a using induction_on_parts generalizing b c with
  | null | bool _ | string _ | formula _ => cases b <;> cases c <;> simp_all [equals]
  | number n =>
    cases b with
    | number n' =>
      cases c with
      | number n'' => exact Binary64.equal_trans h h'
      | _ => cases h'
    | _ => cases h
  | array items ih =>
    obtain ⟨others, rfl, same⟩ := equals_array_iff.mp h
    obtain ⟨others', rfl, same'⟩ := equals_array_iff.mp h'
    exact itemsEqual_trans (fun item mem _ _ => ih item mem) same same'
  | object members ih =>
    obtain ⟨members', rfl, size, within⟩ := equals_object_iff.mp h
    obtain ⟨members'', rfl, size', within'⟩ := equals_object_iff.mp h'
    refine equals_object_iff.mpr ⟨members'', rfl, size.trans size', ?_⟩
    refine membersWithin_iff.mpr fun member mem => ?_
    obtain ⟨other, here, equal⟩ := membersWithin_iff.mp within member mem
    obtain ⟨other', there, equal'⟩ := membersWithin_iff.mp within' _ (mem_of_lookup here)
    exact ⟨other', there, ih member mem equal equal'⟩

end Value

end FormulaDoc
