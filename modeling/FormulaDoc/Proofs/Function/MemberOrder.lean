import FormulaDoc.Function.Builtin
import FormulaDoc.Proofs.Document.Reordering

/-!
# Built-in functions and the order of members

Of a container, a built-in function sees no more than its type and its length. The order of members
thus makes no difference to it; and only random identifiers depend on the number drawn for a call.
-/
namespace FormulaDoc.Function

open Value

/-- Whether the outcome is the same for arguments that are the same up to the order of members, with
any number drawn. -/
def IgnoresOrder (f : Function) : Prop :=
  ∀ args args', ItemsReordered args args' → ∀ now draw draw',
    f.body args ⟨now, draw⟩ = f.body args' ⟨now, draw'⟩

theorem IgnoresOrder.pure {f : Function} (h : f.IgnoresOrder) : f.Pure :=
  fun args => h args args (itemsReordered_refl args)

theorem IgnoresOrder.call_eq {f : Function} (h : f.IgnoresOrder) {args args' : List Value}
    (inside : ItemsReordered args args') (now : Float) (draw draw' : Nat) :
    f.call args ⟨now, draw⟩ = f.call args' ⟨now, draw'⟩ := by
  rw [call, call, inside.length_eq, h args args' inside now draw draw']

section Arguments

variable {args args' : List Value} (inside : ItemsReordered args args') (position : Nat)

include inside

theorem numberArgument_of_reordered :
    numberArgument args position = numberArgument args' position := by
  have argument := inside.getElem? position
  rw [numberArgument, numberArgument]
  generalize args[position]? = got, args'[position]? = got' at argument
  cases argument with
  | none => rfl
  | some related =>
    rcases related.shapes with rfl | ⟨_, _, rfl, rfl, _⟩ | ⟨_, _, _, rfl, rfl, _⟩ <;> rfl

theorem stringArgument_of_reordered :
    stringArgument args position = stringArgument args' position := by
  have argument := inside.getElem? position
  rw [stringArgument, stringArgument]
  generalize args[position]? = got, args'[position]? = got' at argument
  cases argument with
  | none => rfl
  | some related =>
    rcases related.shapes with rfl | ⟨_, _, rfl, rfl, _⟩ | ⟨_, _, _, rfl, rfl, _⟩ <;> rfl

theorem combineFrom_of_reordered (pick : Float → Float → Float) (found : Float) :
    combineFrom pick position found args = combineFrom pick position found args' := by
  induction args generalizing args' position found with
  | nil =>
    obtain rfl := inside
    rfl
  | cons arg rest ih =>
    obtain ⟨other, more, rfl, here, later⟩ := inside
    rcases here.shapes with rfl | ⟨_, _, rfl, rfl, _⟩ | ⟨_, _, _, rfl, rfl, _⟩
    · cases arg with
      | number n => exact ih later (position + 1) (pick found n)
      | _ => rfl
    · rfl
    · rfl

end Arguments

theorem lengthOf?_of_reordered {value other : Value} (h : value.Reordered other) :
    lengthOf? value = lengthOf? other := by
  rcases h.shapes with rfl | ⟨_, _, rfl, rfl, inside⟩ | ⟨_, _, _, rfl, rfl, inside, order⟩
  · rfl
  · exact congrArg some inside.length_eq
  · exact congrArg some (length_of_reordered inside order)

theorem ignoresOrder_ofNumber (name : String) (f : Float → Except FunctionError Value) :
    (ofNumber name f).IgnoresOrder := by
  intro args args' inside now draw draw'
  simp only [ofNumber, numberArgument_of_reordered inside]

theorem ignoresOrder_ofText (name : String) (f : List Char → List Char) :
    (ofText name f).IgnoresOrder := by
  intro args args' inside now draw draw'
  simp only [ofText, stringArgument_of_reordered inside]

theorem ignoresOrder_pow : pow.IgnoresOrder := by
  intro args args' inside now draw draw'
  simp only [pow, numberArgument_of_reordered inside]

theorem ignoresOrder_extremum (name : String) (pick : Float → Float → Float) :
    (extremum name pick).IgnoresOrder := by
  intro args args' inside now draw draw'
  have rest : ItemsReordered (args.drop 1) (args'.drop 1) := by
    cases args with
    | nil =>
      obtain rfl := inside
      rfl
    | cons _ _ =>
      obtain ⟨_, _, rfl, _, later⟩ := inside
      exact later
  simp only [extremum, numberArgument_of_reordered inside, combineFrom_of_reordered rest]

theorem ignoresOrder_formatter (name pattern : String) : (formatter name pattern).IgnoresOrder := by
  intro args args' inside now draw draw'
  simp only [formatter, numberArgument_of_reordered inside, stringArgument_of_reordered inside,
    inside.length_eq]

theorem ignoresOrder_len : len.IgnoresOrder := by
  intro args args' inside now draw draw'
  cases args with
  | nil =>
    obtain rfl := inside
    rfl
  | cons arg rest =>
    obtain ⟨other, more, rfl, here, _⟩ := inside
    simp only [len, List.head?_cons, Option.bind_some, lengthOf?_of_reordered here, wrongArgument,
      here.typeName]

/-- All built-in functions but the random identifiers ignore the order of members. -/
theorem ignoresOrder_of_mem_builtins {f : Function} (mem : f ∈ Registry.builtins)
    (hyphenated : f ≠ uuidV4) (plain : f ≠ uniqueId) : f.IgnoresOrder := by
  rcases List.mem_cons.mp mem with rfl | mem
  · exact absurd rfl hyphenated
  rcases List.mem_cons.mp mem with rfl | mem
  · exact absurd rfl plain
  have now : now.IgnoresOrder := fun _ _ _ _ _ _ => rfl
  have others : ∀ f ∈ Registry.builtins.drop 2, f.IgnoresOrder := by
    simp only [Registry.builtins, List.drop_succ_cons, List.drop_zero, List.forall_mem_cons,
      List.not_mem_nil, false_implies, implies_true, and_true]
    exact ⟨ignoresOrder_pow, ignoresOrder_ofNumber _ _, ignoresOrder_extremum _ _,
      ignoresOrder_extremum _ _, ignoresOrder_ofNumber _ _, ignoresOrder_ofNumber _ _,
      ignoresOrder_ofNumber _ _, ignoresOrder_ofNumber _ _, ignoresOrder_ofText _ _,
      ignoresOrder_ofText _ _, ignoresOrder_ofText _ _, ignoresOrder_ofText _ _, ignoresOrder_len, now,
      ignoresOrder_formatter _ _, ignoresOrder_formatter _ _, ignoresOrder_formatter _ _⟩
  exact others f mem

end FormulaDoc.Function
