import FormulaDoc.Function.Arithmetic
import FormulaDoc.Proofs.Number.Nearest

/-!
# The greatest and the least argument

An extremum is kept while the arguments are gone through, and only the last one is checked. Whatever NaN
and infinities come in between, it is the greatest or the least of all arguments that are numbers, in any
order of the arguments.
-/
namespace FormulaDoc

open Binary64 (isNaN isFinite place)

namespace Binary64

/-- Doubles in one place of the order are one double, or both are zero. -/
theorem eq_or_zeros_of_place {a b : Float} (same : place a = place b) :
    a = b ∨ (magnitude a = 0 ∧ magnitude b = 0) := by
  by_cases signs : isNegative a = isNegative b
  · left
    have magnitudes : magnitude a = magnitude b := by
      simp only [place, signs, Int.ofNat_eq_natCast] at same
      split at same <;> omega
    rw [← ofMagnitude_magnitude a, ← ofMagnitude_magnitude b, signs, magnitudes]
  · right
    cases negative : isNegative a <;> cases negative' : isNegative b <;>
      simp only [negative, negative', not_true_eq_false] at signs <;>
      simp only [place, negative, negative', Int.ofNat_eq_natCast, if_true, if_false,
        Bool.false_eq_true] at same <;> omega

theorem zero_of_magnitude {a : Float} (zero : magnitude a = 0) : a = 0.0 ∨ a = -0.0 := by
  have whole := ofMagnitude_magnitude a
  rw [zero] at whole
  have positive : ofMagnitude false 0 = 0.0 := by decide
  have negative : ofMagnitude true 0 = -0.0 := by decide
  cases sign : isNegative a with
  | false => exact .inl (by rw [← whole, sign, positive])
  | true => exact .inr (by rw [← whole, sign, negative])

end Binary64

namespace Function

/-! ## Extrema of numbers -/

/-- Whether both zeros are among some numbers. -/
def MixesZeros (ns : List Float) : Prop := (0.0 : Float) ∈ ns ∧ (-0.0 : Float) ∈ ns

structure IsGreatest (ns : List Float) (best : Float) : Prop where
  mem : best ∈ ns
  number : isNaN best = false
  none_greater : ∀ n ∈ ns, Binary64.less best n = false

structure IsLeast (ns : List Float) (best : Float) : Prop where
  mem : best ∈ ns
  number : isNaN best = false
  none_less : ∀ n ∈ ns, Binary64.less n best = false

/-- One of the numbers that is none the less in the order of a key. -/
structure Topmost (key : Float → Int) (ns : List Float) (best : Float) : Prop where
  mem : best ∈ ns
  number : isNaN best = false
  top : ∀ n ∈ ns, isNaN n = false → key n ≤ key best

/-- None of the numbers comes after the topmost one in a strict order that goes by the key. -/
theorem topmost_iff {key : Float → Int} {precedes : Float → Float → Bool}
    (goesBy : ∀ a b, precedes a b = true ↔ isNaN a = false ∧ isNaN b = false ∧ key a < key b)
    {ns : List Float} {best : Float} :
    Topmost key ns best ↔ best ∈ ns ∧ isNaN best = false ∧ ∀ n ∈ ns, precedes best n = false := by
  constructor
  · rintro ⟨mem, number, top⟩
    refine ⟨mem, number, fun n inside => Bool.eq_false_iff.mpr fun before => ?_⟩
    obtain ⟨_, number', above⟩ := (goesBy best n).mp before
    exact absurd above (Int.not_lt.mpr (top n inside number'))
  · rintro ⟨mem, number, last⟩
    refine ⟨mem, number, fun n inside number' => Int.not_lt.mp fun above => ?_⟩
    have before : precedes best n = true := (goesBy best n).mpr ⟨number, number', above⟩
    rw [last n inside] at before
    cases before

theorem isGreatest_iff {ns : List Float} {best : Float} :
    IsGreatest ns best ↔ Topmost place ns best := by
  rw [topmost_iff fun _ _ => Binary64.less_iff]
  constructor
  · rintro ⟨mem, number, greatest⟩
    exact ⟨mem, number, greatest⟩
  · rintro ⟨mem, number, greatest⟩
    exact ⟨mem, number, greatest⟩

theorem isLeast_iff {ns : List Float} {best : Float} :
    IsLeast ns best ↔ Topmost (fun n => -place n) ns best := by
  have goesBy : ∀ a b, Binary64.less b a = true ↔
      isNaN a = false ∧ isNaN b = false ∧ -place a < -place b := by
    intro a b
    rw [Binary64.less_iff, Int.neg_lt_neg_iff, and_left_comm]
  rw [topmost_iff goesBy]
  constructor
  · rintro ⟨mem, number, least⟩
    exact ⟨mem, number, least⟩
  · rintro ⟨mem, number, least⟩
    exact ⟨mem, number, least⟩

/-! ## One number after another -/

/-- The one of two numbers that comes later in the order of a key, the other one where one is NaN. -/
def pickBy (key : Float → Int) (a b : Float) : Float :=
  if isNaN a then b else if isNaN b then a else if key a < key b then b else a

theorem larger_eq : larger = pickBy place := by
  funext a b
  cases first : isNaN a <;> cases second : isNaN b <;>
    simp [larger, pickBy, Binary64.less, first, second]

theorem smaller_eq : smaller = pickBy fun n => -place n := by
  funext a b
  cases first : isNaN a <;> cases second : isNaN b <;>
    simp [smaller, pickBy, Binary64.less, first, second]

/-- What is kept of some numbers: the topmost one, or NaN if there is nothing else. -/
def Keeps (key : Float → Int) (seen : List Float) (best : Float) : Prop :=
  Topmost key seen best ∨ isNaN best = true ∧ ∀ n ∈ seen, isNaN n = true

section Fold

variable {key : Float → Int} {seen : List Float} {best : Float}

theorem Topmost.stays (h : Topmost key seen best) {n : Float}
    (below : isNaN n = false → key n ≤ key best) : Topmost key (seen ++ [n]) best where
  mem := List.mem_append_left _ h.mem
  number := h.number
  top := List.forall_mem_append.mpr ⟨h.top, List.forall_mem_singleton.mpr below⟩

theorem topmost_last {n : Float} (number : isNaN n = false)
    (above : ∀ m ∈ seen, isNaN m = false → key m ≤ key n) : Topmost key (seen ++ [n]) n where
  mem := List.mem_append_right _ (List.mem_singleton_self n)
  number := number
  top := List.forall_mem_append.mpr ⟨above, List.forall_mem_singleton.mpr fun _ => Int.le_refl _⟩

theorem keeps_first (n : Float) : Keeps key [n] n := by
  cases number : isNaN n with
  | false => exact .inl (topmost_last number fun _ inside => absurd inside List.not_mem_nil)
  | true => exact .inr ⟨number, List.forall_mem_singleton.mpr number⟩

theorem Keeps.step (h : Keeps key seen best) (n : Float) :
    Keeps key (seen ++ [n]) (pickBy key best n) := by
  rcases h with topmost | ⟨missing, all⟩
  · left
    by_cases later : isNaN n = false ∧ key best < key n
    · have same : pickBy key best n = n := by simp [pickBy, topmost.number, later.1, later.2]
      rw [same]
      apply topmost_last later.1
      exact fun m inside number => (topmost.top m inside number).trans (Int.le_of_lt later.2)
    · have same : pickBy key best n = best := by
        cases number : isNaN n with
        | false =>
          have above : ¬ key best < key n := fun above => later ⟨number, above⟩
          simp [pickBy, topmost.number, number, above]
        | true => simp [pickBy, topmost.number, number]
      rw [same]
      exact topmost.stays fun number => Int.not_lt.mp fun above => later ⟨number, above⟩
  · have same : pickBy key best n = n := by simp [pickBy, missing]
    rw [same]
    cases number : isNaN n with
    | false =>
      refine .inl (topmost_last number fun m inside number' => ?_)
      rw [all m inside] at number'
      cases number'
    | true => exact .inr ⟨number, List.forall_mem_append.mpr ⟨all, List.forall_mem_singleton.mpr number⟩⟩

theorem Keeps.foldl (h : Keeps key seen best) (ns : List Float) :
    Keeps key (seen ++ ns) (ns.foldl (pickBy key) best) := by
  induction ns generalizing seen best with
  | nil => rwa [List.append_nil]
  | cons n ns ih =>
    have next := ih (h.step n)
    rwa [List.append_assoc, List.singleton_append] at next

section Unique

variable {ns ns' : List Float} {best' : Float} (places : ∀ a b, key a = key b → place a = place b)

include places

theorem Topmost.eq_or_zeros (same : ∀ n, n ∈ ns ↔ n ∈ ns') (h : Topmost key ns best)
    (h' : Topmost key ns' best') :
    best = best' ∨ (Binary64.magnitude best = 0 ∧ Binary64.magnitude best' = 0) := by
  have above := h.top best' ((same best').mpr h'.mem) h'.number
  have below := h'.top best ((same best).mp h.mem) h.number
  exact Binary64.eq_or_zeros_of_place (places _ _ (Int.le_antisymm below above))

theorem Topmost.isFinite_eq (h : Topmost key ns best) (h' : Topmost key ns best') :
    isFinite best = isFinite best' := by
  rcases h.eq_or_zeros places (fun _ => Iff.rfl) h' with rfl | ⟨zero, zero'⟩
  · rfl
  · rw [isFinite, isFinite, zero, zero']

/-- The topmost number is determined, but for the sign of zero. -/
theorem Topmost.unique (apart : ¬ MixesZeros ns) (same : ∀ n, n ∈ ns ↔ n ∈ ns')
    (h : Topmost key ns best) (h' : Topmost key ns' best') : best = best' := by
  have inside : best' ∈ ns := (same best').mpr h'.mem
  rcases h.eq_or_zeros places same h' with equal | ⟨zero, zero'⟩
  · exact equal
  · rcases Binary64.zero_of_magnitude zero with rfl | rfl <;>
      rcases Binary64.zero_of_magnitude zero' with rfl | rfl
    · rfl
    · exact absurd ⟨h.mem, inside⟩ apart
    · exact absurd ⟨inside, h.mem⟩ apart
    · rfl

end Unique

end Fold

/-! ## Arguments -/

theorem finiteResult_eq_ok_iff {n : Float} {value : Value} :
    finiteResult n = .ok value ↔ value = .number n ∧ isFinite n = true := by
  rw [finiteResult]
  split
  · constructor
    · intro ok
      exact ⟨(Except.ok.inj ok).symm, ‹_›⟩
    · rintro ⟨rfl, -⟩
      rfl
  · constructor
    · intro ok
      cases ok
    · rintro ⟨-, finite⟩
      contradiction

theorem combineFrom_numbers (pick : Float → Float → Float) (position : Nat) (found : Float)
    (ns : List Float) :
    combineFrom pick position found (ns.map .number) = .ok (ns.foldl pick found) := by
  induction ns generalizing position found with
  | nil => rfl
  | cons n ns ih => exact ih (position + 1) (pick found n)

theorem combineFrom_wrong (pick : Float → Float → Float) (position : Nat) (found : Float)
    (ns : List Float) {value : Value} (wrong : value.number? = none) (rest : List Value) :
    combineFrom pick position found (ns.map .number ++ value :: rest) =
      .error (.invalidArgument (position + ns.length + 1) "a number" value.typeName) := by
  induction ns generalizing position found with
  | nil =>
    cases value with
    | number _ => cases wrong
    | _ => rfl
  | cons n ns ih =>
    rw [List.length_cons, ← Nat.add_assoc, Nat.add_right_comm position]
    exact ih (position + 1) (pick found n)

/-- Arguments up to the first that is no number. -/
theorem exists_first_wrong {args : List Value} (wrong : ∃ value ∈ args, value.number? = none) :
    ∃ (ns : List Float) (value : Value) (rest : List Value),
      args = ns.map .number ++ value :: rest ∧ value.number? = none := by
  induction args with
  | nil =>
    obtain ⟨_, mem, _⟩ := wrong
    cases mem
  | cons first rest ih =>
    cases first with
    | number n =>
      obtain ⟨value, mem, none⟩ := wrong
      rcases List.mem_cons.mp mem with rfl | later
      · cases none
      · obtain ⟨ns, found, more, rfl, none⟩ := ih ⟨value, later, none⟩
        exact ⟨n :: ns, found, more, rfl, none⟩
    | _ => exact ⟨[], _, rest, rfl, rfl⟩

section Calls

variable {name : String} {key : Float → Int} {ns : List Float}

theorem extremum_call_cons (name : String) (pick : Float → Float → Float) (first : Value)
    (rest : List Value) (context : CallContext) :
    (extremum name pick).call (first :: rest) context =
      (numberArgument (first :: rest) 0 >>= fun n => combineFrom pick 1 n rest >>= finiteResult) := by
  have accepts : (extremum name pick).arity.accepts (first :: rest).length = true :=
    decide_eq_true (Nat.succ_pos rest.length)
  rw [call, if_pos accepts]
  rfl

theorem extremum_call_wrong (pick : Float → Float → Float) (ns : List Float) {value : Value}
    (wrong : value.number? = none) (rest : List Value) (context : CallContext) :
    (extremum name pick).call (ns.map Value.number ++ value :: rest) context =
      .error (.invalidArgument (ns.length + 1) "a number" value.typeName) := by
  cases ns with
  | nil =>
    rw [List.map_nil, List.nil_append, extremum_call_cons]
    cases value with
    | number _ => cases wrong
    | _ => rfl
  | cons n ns =>
    have later := combineFrom_wrong pick 1 n ns wrong rest
    rw [List.map_cons, List.cons_append, extremum_call_cons, List.length_cons, Nat.add_comm ns.length]
    exact congrArg (· >>= finiteResult) later

/-- A call comes to the topmost of its numbers, checked for being finite, and fails if all are NaN. -/
theorem extremum_call_cases (name : String) (key : Float → Int) (some : ns ≠ [])
    (context : CallContext) :
    (∃ best, Topmost key ns best ∧
        (extremum name (pickBy key)).call (ns.map .number) context = finiteResult best) ∨
      (∀ n ∈ ns, isNaN n = true) ∧
        (extremum name (pickBy key)).call (ns.map .number) context = .error .nonFinite := by
  obtain ⟨n, ns, rfl⟩ := List.exists_cons_of_ne_nil some
  have call : (extremum name (pickBy key)).call ((n :: ns).map .number) context =
      finiteResult (ns.foldl (pickBy key) n) := by
    rw [List.map_cons, extremum_call_cons]
    exact congrArg (· >>= finiteResult) (combineFrom_numbers (pickBy key) 1 n ns)
  rw [call]
  have kept : Keeps key ([n] ++ ns) (ns.foldl (pickBy key) n) := (keeps_first n).foldl ns
  rcases kept with topmost | ⟨missing, all⟩
  · exact .inl ⟨_, topmost, rfl⟩
  · refine .inr ⟨all, ?_⟩
    have infinite : isFinite (ns.foldl (pickBy key) n) = false := by
      have above := of_decide_eq_true missing
      exact decide_eq_false (Nat.not_lt.mpr (Nat.le_of_lt above))
    rw [finiteResult, if_neg (by simp [infinite])]

section Outcome

variable (places : ∀ a b, key a = key b → place a = place b)

include places

theorem extremum_succeeds_iff (name : String) (some : ns ≠ []) (context : CallContext) :
    (∃ value, (extremum name (pickBy key)).call (ns.map .number) context = .ok value) ↔
      (∃ n ∈ ns, isNaN n = false) ∧ ∀ best, Topmost key ns best → isFinite best = true := by
  rcases extremum_call_cases name key some context with ⟨best, topmost, call⟩ | ⟨all, call⟩
  · constructor
    · rintro ⟨value, ok⟩
      obtain ⟨-, finite⟩ := finiteResult_eq_ok_iff.mp (call.symm.trans ok)
      refine ⟨⟨best, topmost.mem, topmost.number⟩, fun best' topmost' => ?_⟩
      rwa [topmost'.isFinite_eq places topmost]
    · rintro ⟨-, finite⟩
      exact ⟨_, call.trans (finiteResult_eq_ok_iff.mpr ⟨rfl, finite best topmost⟩)⟩
  · constructor
    · rintro ⟨value, ok⟩
      cases call.symm.trans ok
    · rintro ⟨⟨n, mem, number⟩, -⟩
      exact absurd (number.symm.trans (all n mem)) Bool.false_ne_true

theorem extremum_call_perm {ns' : List Float} (name : String) (some : ns ≠ [])
    (apart : ¬ MixesZeros ns) (order : ns.Perm ns') (context : CallContext) :
    (extremum name (pickBy key)).call (ns.map .number) context =
      (extremum name (pickBy key)).call (ns'.map .number) context := by
  have same : ∀ n, n ∈ ns ↔ n ∈ ns' := fun _ => order.mem_iff
  have some' : ns' ≠ [] := fun none => some (List.perm_nil.mp (none ▸ order))
  rcases extremum_call_cases name key some context with ⟨best, topmost, call⟩ | ⟨all, call⟩ <;>
    rcases extremum_call_cases name key some' context with ⟨best', topmost', call'⟩ | ⟨all', call'⟩
  · rw [call, call', topmost.unique places apart same topmost']
  · have missing := all' best ((same best).mp topmost.mem)
    exact absurd (topmost.number.symm.trans missing) Bool.false_ne_true
  · have missing := all best' ((same best').mpr topmost'.mem)
    exact absurd (topmost'.number.symm.trans missing) Bool.false_ne_true
  · rw [call, call']

end Outcome

end Calls

/-! ## The laws of an extremum -/

/-- A function gives the best of its arguments, whatever their order, if that is a finite number. The
first argument that is no number makes it fail, whatever the others are. -/
structure TakesBest (f : Function) (IsBest : List Float → Float → Prop) : Prop where
  succeeds_iff : ∀ (ns : List Float) (context : CallContext), ns ≠ [] →
    ((∃ value, f.call (ns.map .number) context = .ok value) ↔
      (∃ n ∈ ns, isNaN n = false) ∧ ∀ best, IsBest ns best → isFinite best = true)
  best_of_ok : ∀ (ns : List Float) (context : CallContext) (value : Value), ns ≠ [] →
    f.call (ns.map .number) context = .ok value → ∃ best, value = .number best ∧ IsBest ns best
  nonFinite : ∀ (ns : List Float) (context : CallContext), ns ≠ [] →
    (¬ ∃ value, f.call (ns.map .number) context = .ok value) →
    f.call (ns.map .number) context = .error .nonFinite
  perm : ∀ (ns ns' : List Float) (context : CallContext), ns ≠ [] → ¬ MixesZeros ns → ns.Perm ns' →
    f.call (ns.map .number) context = f.call (ns'.map .number) context
  wrongArgument : ∀ (args : List Value) (context : CallContext),
    (∃ value ∈ args, value.number? = none) →
    ∃ position value, args[position]? = some value ∧ value.number? = none ∧
      (∀ earlier < position, ∃ n, args[earlier]? = some (.number n)) ∧
      f.call args context = .error (.invalidArgument (position + 1) "a number" value.typeName)

theorem takesBest_extremum (name : String) {key : Float → Int}
    (places : ∀ a b, key a = key b → place a = place b) :
    TakesBest (extremum name (pickBy key)) (Topmost key) where
  succeeds_iff _ context some := extremum_succeeds_iff places name some context
  best_of_ok := by
    intro ns context value some ok
    rcases extremum_call_cases name key some context with ⟨best, topmost, call⟩ | ⟨-, call⟩
    · obtain ⟨rfl, -⟩ := finiteResult_eq_ok_iff.mp (call.symm.trans ok)
      exact ⟨best, rfl, topmost⟩
    · cases call.symm.trans ok
  nonFinite := by
    intro ns context some fails
    rcases extremum_call_cases name key some context with ⟨best, -, call⟩ | ⟨-, call⟩
    · rw [call, finiteResult]
      refine if_neg fun finite => fails ⟨.number best, ?_⟩
      exact call.trans (finiteResult_eq_ok_iff.mpr ⟨rfl, finite⟩)
    · exact call
  perm _ _ context some apart order := extremum_call_perm places name some apart order context
  wrongArgument := by
    intro args context wrong
    obtain ⟨ns, value, rest, rfl, none⟩ := exists_first_wrong wrong
    refine ⟨ns.length, value, by simp, none, ?_, extremum_call_wrong _ ns none rest context⟩
    intro earlier inside
    have here : earlier < (ns.map Value.number).length := by simpa using inside
    refine ⟨ns[earlier], ?_⟩
    rw [List.getElem?_append_left here, List.getElem?_map, List.getElem?_eq_getElem inside]
    rfl

/-- `MAX` gives the greatest and `MIN` the least of all arguments but those that are NaN. -/
theorem max_takes_greatest_min_least : TakesBest max IsGreatest ∧ TakesBest min IsLeast := by
  have greatest : IsGreatest = Topmost place :=
    funext fun _ => funext fun _ => propext isGreatest_iff
  have least : IsLeast = Topmost fun n => -place n :=
    funext fun _ => funext fun _ => propext isLeast_iff
  constructor
  · rw [greatest, max, larger_eq]
    exact takesBest_extremum "MAX" fun _ _ same => same
  · rw [least, min, smaller_eq]
    exact takesBest_extremum "MIN" fun _ _ same => Int.neg_inj.mp same

/-- NaN and one in both orders, and arguments of which the second is the first that is no number. -/
theorem max_takes_greatest_min_least_samples :
    ¬ MixesZeros [Binary64.nan, 1.0] ∧
      (∃ value, max.call ([Binary64.nan, 1.0].map .number) ⟨0.0, 0⟩ = .ok value) ∧
      max.call ([Binary64.nan, 1.0].map .number) ⟨0.0, 0⟩ =
        max.call ([1.0, Binary64.nan].map .number) ⟨0.0, 0⟩ ∧
      ∃ (position : Nat) (value : Value),
        [.number 1.0, .null, .bool true][position]? = some value ∧ value.number? = none ∧
        min.call [.number 1.0, .null, .bool true] ⟨0.0, 0⟩ =
          .error (.invalidArgument (position + 1) "a number" value.typeName) := by
  have apart : ¬ MixesZeros [Binary64.nan, 1.0] := by
    rintro ⟨zero, _⟩
    have different : ¬ (0.0 : Float) = Binary64.nan ∧ ¬ (0.0 : Float) = 1.0 := by decide
    simp [different] at zero
  have one : isNaN 1.0 = false ∧ isFinite 1.0 = true := by decide
  have missing : isNaN Binary64.nan = true := by decide
  obtain ⟨greatest, least⟩ := max_takes_greatest_min_least
  refine ⟨apart, ?_, ?_, ?_⟩
  · refine (greatest.succeeds_iff _ _ (List.cons_ne_nil _ _)).mpr ⟨⟨1.0, by simp, one.1⟩, ?_⟩
    intro best isBest
    rcases List.mem_cons.mp isBest.mem with rfl | last
    · exact absurd (isBest.number.symm.trans missing) (by decide)
    · rw [List.mem_singleton.mp last]
      exact one.2
  · exact greatest.perm _ _ _ (List.cons_ne_nil _ _) apart (.swap ..)
  · obtain ⟨position, value, here, wrong, -, call⟩ :=
      least.wrongArgument [.number 1.0, .null, .bool true] ⟨0.0, 0⟩ ⟨.null, by simp, rfl⟩
    exact ⟨position, value, here, wrong, call⟩

end Function

end FormulaDoc
