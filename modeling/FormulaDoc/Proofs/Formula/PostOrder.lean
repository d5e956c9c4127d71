import FormulaDoc.Formula.ArenaParser
import Mathlib.Data.List.Nodup
import Mathlib.Data.List.Perm.Basic
import Mathlib.Data.List.Range
import Mathlib.Logic.Relation

/-!
# Post-order

The entries that a tree adds to an arena are its nodes in post-order: those of each part one after
another and then the whole. The numbers that they get go up by one, and so the number of every part is
before that of its whole.
-/
namespace FormulaDoc

namespace Expr

variable {α : Type} {base : Nat}

/-! ## The nodes of a tree -/

mutual

/-- All nodes, each after its parts. -/
def postorder : Expr α → List (Expr α)
  | field m receiver name => receiver.postorder ++ [field m receiver name]
  | index m receiver position => receiver.postorder ++ (position.postorder ++ [index m receiver position])
  | unary m op operand => operand.postorder ++ [unary m op operand]
  | binary m op left right => left.postorder ++ (right.postorder ++ [binary m op left right])
  | call m name args => postorderAll args ++ [call m name args]
  | e => [e]

def postorderAll : List (Expr α) → List (Expr α)
  | [] => []
  | e :: es => e.postorder ++ postorderAll es

end

theorem postorder_eq (e : Expr α) : e.postorder = postorderAll e.children ++ [e] := by
  cases e <;> simp [postorder, postorderAll, children]

theorem size_eq (e : Expr α) : e.size = sizeAll e.children + 1 := by
  cases e <;> simp [size, sizeAll, children]

theorem size_pos (e : Expr α) : 0 < e.size := by
  rw [size_eq]
  exact Nat.succ_pos _

/-- Induction on trees and lists of trees at once, with one case for all kinds of nodes. -/
theorem children_induction {motive : Expr α → Prop} {all : List (Expr α) → Prop}
    (node : ∀ e, all e.children → motive e) (nil : all [])
    (cons : ∀ e es, motive e → all es → all (e :: es)) : (∀ e, motive e) ∧ ∀ es, all es := by
  have smaller (n : Nat) : (∀ e : Expr α, e.size ≤ n → motive e) ∧ ∀ es : List (Expr α),
      sizeAll es ≤ n → all es := by
    induction n with
    | zero =>
      have none (e : Expr α) (small : e.size ≤ 0) : motive e := absurd e.size_pos (Nat.not_lt.mpr small)
      refine ⟨none, fun es small => ?_⟩
      cases es with
      | nil => exact nil
      | cons e es =>
        have := e.size_pos
        rw [sizeAll] at small
        omega
    | succ n ih =>
      have trees (e : Expr α) (small : e.size ≤ n + 1) : motive e :=
        node e (ih.2 e.children (by rw [size_eq] at small; omega))
      refine ⟨trees, fun es small => ?_⟩
      induction es with
      | nil => exact nil
      | cons e es ih =>
        rw [sizeAll] at small
        exact cons e es (trees e (by omega)) (ih (by omega))
  exact ⟨fun e => (smaller e.size).1 e (Nat.le_refl _),
    fun es => (smaller (sizeAll es)).2 es (Nat.le_refl _)⟩

/-! ## Its entries -/

/-- The number of a tree whose first entry has a given one. -/
def last (base : Nat) (e : Expr α) : Nat := base + e.size - 1

/-- The numbers of trees that are stored one after another. -/
def lasts (base : Nat) : List (Expr α) → List Nat
  | [] => []
  | e :: es => e.last base :: lasts (base + e.size) es

/-- The entry of the root of a tree whose first entry has a given number. -/
def entry (base : Nat) : Expr α → Entry
  | literal _ value => .literal value
  | ident _ name => .ident name
  | scope _ depth => .scope depth
  | root _ => .root
  | field _ receiver name => .field (receiver.last base) name
  | index _ receiver position => .index (receiver.last base) (position.last (base + receiver.size))
  | unary _ op operand => .unary op (operand.last base)
  | binary _ op left right => .binary op (left.last base) (right.last (base + left.size))
  | call _ name args => .call name (lasts base args)

theorem parts_entry (base : Nat) (e : Expr α) : (e.entry base).parts = lasts base e.children := by
  cases e <;> rfl

mutual

/-- The entries of a tree, the first of which gets a number. -/
def entries (base : Nat) : Expr Span → List (Entry × Span)
  | field span receiver name => receiver.entries base ++ [((field span receiver name).entry base, span)]
  | index span receiver position =>
    receiver.entries base ++ (position.entries (base + receiver.size) ++
      [((index span receiver position).entry base, span)])
  | unary span op operand => operand.entries base ++ [((unary span op operand).entry base, span)]
  | binary span op left right =>
    left.entries base ++ (right.entries (base + left.size) ++
      [((binary span op left right).entry base, span)])
  | call span name args => entriesAll base args ++ [((call span name args).entry base, span)]
  | e => [(e.entry base, e.mark)]

def entriesAll (base : Nat) : List (Expr Span) → List (Entry × Span)
  | [] => []
  | e :: es => e.entries base ++ entriesAll (base + e.size) es

end

theorem entries_eq (base : Nat) (e : Expr Span) :
    e.entries base = entriesAll base e.children ++ [(e.entry base, e.mark)] := by
  cases e <;> simp [entries, entriesAll, children, mark]

theorem entries_lengths : (∀ (e : Expr Span) (base : Nat), (e.entries base).length = e.size) ∧
    ∀ (es : List (Expr Span)) (base : Nat), (entriesAll base es).length = sizeAll es := by
  refine children_induction ?node ?nil ?cons
  case node =>
    intro e ih base
    rw [entries_eq, List.length_append, ih, List.length_singleton, size_eq]
  case nil => exact fun _ => rfl
  case cons =>
    intro e es first others base
    rw [entriesAll, List.length_append, first, others, sizeAll]

theorem length_entries (base : Nat) (e : Expr Span) : (e.entries base).length = e.size :=
  entries_lengths.1 e base

theorem length_entriesAll (base : Nat) (es : List (Expr Span)) :
    (entriesAll base es).length = sizeAll es :=
  entries_lengths.2 es base

end Expr

namespace Arena

open FormulaDoc.Expr

variable {arena : Arena} {base : Nat}

/-! ## Adding a tree -/

/-- An arena with some more entries. -/
theorem size_of_toList {before : Arena} {entries : List (Entry × Span)}
    (added : arena.entries.toList = before.entries.toList ++ entries) :
    arena.size = before.size + entries.length := by
  rw [size, ← Array.length_toList, added, List.length_append, Array.length_toList, size]

theorem addExpr_of_children (e : Expr Span)
    (numbers : (arena.addAll e.children).2 = lasts arena.size e.children) :
    arena.addExpr e = ((arena.addAll e.children).1.add (e.entry arena.size) e.mark,
      (arena.addAll e.children).1.size) := by
  cases e <;> simp_all [addExpr, addAll, children, lasts, Expr.entry, mark]

theorem added_entries :
    (∀ (e : Expr Span) (arena : Arena),
      (arena.addExpr e).1.entries.toList = arena.entries.toList ++ e.entries arena.size ∧
        (arena.addExpr e).2 = e.last arena.size) ∧
    ∀ (es : List (Expr Span)) (arena : Arena),
      (arena.addAll es).1.entries.toList = arena.entries.toList ++ entriesAll arena.size es ∧
        (arena.addAll es).2 = lasts arena.size es := by
  refine children_induction ?node ?nil ?cons
  case node =>
    intro e ih arena
    obtain ⟨entries, numbers⟩ := ih arena
    have size := size_of_toList entries
    rw [length_entriesAll] at size
    rw [addExpr_of_children e numbers]
    constructor
    · simp only [add, Array.toList_push, entries, List.append_assoc]
      rw [entries_eq]
    · rw [size, last, size_eq]
      rfl
  case nil => exact fun arena => ⟨(List.append_nil _).symm, rfl⟩
  case cons =>
    intro e es first others arena
    obtain ⟨entries, number⟩ := first arena
    have size := size_of_toList entries
    rw [length_entries] at size
    obtain ⟨more, numbers⟩ := others (arena.addExpr e).1
    rw [size] at more numbers
    constructor
    · rw [addAll, entriesAll, ← List.append_assoc, ← entries]
      exact more
    · rw [addAll, lasts, ← number, ← numbers]

/-- A tree adds its entries after all others. -/
theorem toList_addExpr (arena : Arena) (e : Expr Span) :
    (arena.addExpr e).1.entries.toList = arena.entries.toList ++ e.entries arena.size :=
  (added_entries.1 e arena).1

/-- The number of a tree that is added is that of its last entry. -/
theorem addExpr_number (arena : Arena) (e : Expr Span) :
    (arena.addExpr e).2 = e.last arena.size :=
  (added_entries.1 e arena).2

theorem size_addExpr (arena : Arena) (e : Expr Span) :
    (arena.addExpr e).1.size = arena.size + e.size := by
  rw [size_of_toList (toList_addExpr arena e), length_entries]

/-! ## Entries of a tree inside an arena -/

/-- The entries from a number on. -/
def Holds (arena : Arena) (base : Nat) (entries : List (Entry × Span)) : Prop :=
  ∃ before after, arena.entries.toList = before ++ (entries ++ after) ∧ before.length = base

section Holds

variable {entries entries' : List (Entry × Span)}

theorem Holds.left (h : arena.Holds base (entries ++ entries')) : arena.Holds base entries := by
  obtain ⟨before, after, same, length⟩ := h
  exact ⟨before, entries' ++ after, by rw [same, List.append_assoc], length⟩

theorem Holds.right (h : arena.Holds base (entries ++ entries')) :
    arena.Holds (base + entries.length) entries' := by
  obtain ⟨before, after, same, length⟩ := h
  refine ⟨before ++ entries, after, ?_, ?_⟩
  · rw [same, List.append_assoc, List.append_assoc]
  · rw [List.length_append, length]

theorem Holds.entry? {entry : Entry × Span} (h : arena.Holds base [entry]) :
    arena.entry? base = some entry := by
  obtain ⟨before, after, same, rfl⟩ := h
  rw [Arena.entry?, ← Array.getElem?_toList, same, List.getElem?_append_right (Nat.le_refl _),
    Nat.sub_self]
  rfl

/-- The children of a tree in an arena, and the entry of its root. -/
theorem Holds.children {e : Expr Span} (h : arena.Holds base (e.entries base)) :
    arena.Holds base (entriesAll base e.children) ∧
      arena.entry? (e.last base) = some (e.entry base, e.mark) := by
  rw [entries_eq] at h
  have root := h.right.entry?
  rw [length_entriesAll] at root
  refine ⟨h.left, ?_⟩
  rw [last, size_eq]
  exact root

theorem Holds.first {e : Expr Span} {es : List (Expr Span)}
    (h : arena.Holds base (entriesAll base (e :: es))) :
    arena.Holds base (e.entries base) ∧
      arena.Holds (base + e.size) (entriesAll (base + e.size) es) := by
  rw [entriesAll] at h
  have others := h.right
  rw [length_entries] at others
  exact ⟨h.left, others⟩

end Holds

/-- The numbers of children are before that of the whole. -/
theorem lt_of_mem_lasts {es : List (Expr Span)} {number : Nat} (mem : number ∈ lasts base es) :
    number < base + sizeAll es := by
  induction es generalizing base with
  | nil => cases mem
  | cons e es ih =>
    have := e.size_pos
    rw [sizeAll]
    rcases List.mem_cons.mp mem with rfl | mem
    · rw [last]
      omega
    · have := ih mem
      omega

theorem lt_of_mem_lasts_children {e : Expr Span} {number : Nat} (mem : number ∈ lasts base e.children) :
    number < e.last base := by
  have := lt_of_mem_lasts mem
  rw [last, size_eq]
  exact this

/-! ### Trees -/

theorem mapM_eq_some {β : Type} {f g : Nat → Option β} {numbers : List Nat} {values : List β}
    (each : List.Forall₂ (fun number value => g number = some value) numbers values)
    (same : ∀ number ∈ numbers, f number = g number) : numbers.mapM f = some values := by
  induction each with
  | nil => rfl
  | cons first _ ih =>
    rw [List.forall_mem_cons] at same
    simp [List.mapM_cons, same.1, first, ih same.2]

theorem Holds.trees :
    (∀ (e : Expr Span) (base : Nat), arena.Holds base (e.entries base) →
      arena.tree? (e.last base) = some e) ∧
    ∀ (es : List (Expr Span)) (base : Nat), arena.Holds base (entriesAll base es) →
      List.Forall₂ (fun number e => arena.tree? number = some e) (lasts base es) es := by
  refine children_induction ?node ?nil ?cons
  case node =>
    intro e ih base holds
    obtain ⟨inner, root⟩ := holds.children
    have below (number : Nat) (mem : number ∈ lasts base e.children) : number < e.last base :=
      lt_of_mem_lasts_children mem
    have parts := ih base inner
    rw [tree?, root]
    cases e with
    | call span name args =>
      have guarded : (lasts base args).mapM (fun number =>
          if _h : number < (call span name args).last base then arena.tree? number else none) =
          some args := mapM_eq_some parts fun number mem => dif_pos (below number mem)
      simp only [Expr.entry, Expr.mark, guarded, Option.map_some]
    | _ => simp_all [Expr.entry, Expr.children, lasts, Expr.mark]
  case nil => exact fun _ _ => .nil
  case cons =>
    intro e es first others base holds
    exact .cons (first base holds.first.1) (others _ holds.first.2)

/-! ### Order -/

/-- The numbers under one, those of its parts first; a part is a number before it. -/
def postorder (arena : Arena) (number : Nat) : List Nat :=
  let part (i : Nat) : List Nat := if _h : i < number then arena.postorder i else []
  match arena.entry? number with
  | none => []
  | some (entry, _) => entry.parts.flatMap part ++ [number]
termination_by number

theorem range'_last (base : Nat) (e : Expr α) :
    List.range' base e.size = List.range' base (sizeAll e.children) ++ [e.last base] := by
  rw [size_eq, List.range'_concat, last, size_eq]
  simp

theorem Holds.postorder :
    (∀ (e : Expr Span) (base : Nat), arena.Holds base (e.entries base) →
      arena.postorder (e.last base) = List.range' base e.size) ∧
    ∀ (es : List (Expr Span)) (base : Nat), arena.Holds base (entriesAll base es) →
      (lasts base es).flatMap arena.postorder = List.range' base (sizeAll es) := by
  refine children_induction ?node ?nil ?cons
  case node =>
    intro e ih base holds
    obtain ⟨inner, root⟩ := holds.children
    have guarded : (lasts base e.children).flatMap (fun number =>
        if _h : number < e.last base then arena.postorder number else []) =
        (lasts base e.children).flatMap arena.postorder :=
      List.flatMap_congr fun number mem => dif_pos (lt_of_mem_lasts_children mem)
    rw [Arena.postorder, root]
    simp only [parts_entry, guarded, ih base inner, range'_last]
  case nil => exact fun _ _ => rfl
  case cons =>
    intro e es first others base holds
    rw [lasts, List.flatMap_cons, first base holds.first.1, others _ holds.first.2, sizeAll,
      List.range'_append_1]

theorem Holds.nodes :
    (∀ (e : Expr Span) (base : Nat), arena.Holds base (e.entries base) →
      (List.range' base e.size).map arena.tree? = e.postorder.map some) ∧
    ∀ (es : List (Expr Span)) (base : Nat), arena.Holds base (entriesAll base es) →
      (List.range' base (sizeAll es)).map arena.tree? = (postorderAll es).map some := by
  refine children_induction ?node ?nil ?cons
  case node =>
    intro e ih base holds
    rw [range'_last, postorder_eq, List.map_append, List.map_append, ih base holds.children.1,
      List.map_singleton, List.map_singleton, Holds.trees.1 e base holds]
  case nil => exact fun _ _ => rfl
  case cons =>
    intro e es first others base holds
    rw [sizeAll, ← List.range'_append_1, postorderAll, List.map_append, List.map_append,
      first base holds.first.1, others _ holds.first.2]

/-! ### References -/

/-- The parts that entries name, entry by entry. -/
def partsOf (entries : List (Entry × Span)) : List Nat := entries.flatMap (·.1.parts)

theorem partsOf_append (entries entries' : List (Entry × Span)) :
    partsOf (entries ++ entries') = partsOf entries ++ partsOf entries' := List.flatMap_append

theorem partsOf_entries (base : Nat) (e : Expr Span) :
    partsOf (e.entries base) = partsOf (entriesAll base e.children) ++ lasts base e.children := by
  rw [entries_eq, partsOf_append]
  exact congrArg _ (by simp [partsOf, parts_entry])

open List in
theorem perm_partsOf :
    (∀ (e : Expr Span) (base : Nat),
      (partsOf (e.entries base)).Perm (List.range' base (sizeAll e.children))) ∧
    ∀ (es : List (Expr Span)) (base : Nat),
      (partsOf (entriesAll base es) ++ lasts base es).Perm (List.range' base (sizeAll es)) := by
  refine children_induction ?node ?nil ?cons
  case node =>
    intro e ih base
    rw [partsOf_entries]
    exact ih base
  case nil => exact fun _ => .nil
  case cons =>
    intro e es first others base
    have whole : (partsOf (e.entries base) ++ [e.last base]).Perm (List.range' base e.size) := by
      rw [range'_last]
      exact (first base).append_right _
    rw [entriesAll, partsOf_append, lasts, sizeAll, ← List.range'_append_1]
    calc (partsOf (e.entries base) ++ partsOf (entriesAll (base + e.size) es)) ++
          e.last base :: lasts (base + e.size) es
      _ = partsOf (e.entries base) ++ (partsOf (entriesAll (base + e.size) es) ++
          e.last base :: lasts (base + e.size) es) := List.append_assoc _ _ _
      _ ~ partsOf (e.entries base) ++ (e.last base :: (partsOf (entriesAll (base + e.size) es) ++
          lasts (base + e.size) es)) := List.perm_middle.append_left _
      _ = (partsOf (e.entries base) ++ [e.last base]) ++ (partsOf (entriesAll (base + e.size) es) ++
          lasts (base + e.size) es) := by rw [List.append_assoc, List.singleton_append]
      _ ~ _ := whole.append (others _)

/-- The parts of each entry are before it; the first entry has a given number. -/
def Backward (base : Nat) (entries : List (Entry × Span)) : Prop :=
  ∀ i x, entries[i]? = some x → ∀ part ∈ x.1.parts, part < base + i

theorem Backward.append {entries entries' : List (Entry × Span)} (left : Backward base entries)
    (right : Backward (base + entries.length) entries') : Backward base (entries ++ entries') := by
  intro i x found part mem
  rcases Nat.lt_or_ge i entries.length with inside | beyond
  · rw [List.getElem?_append_left inside] at found
    exact left i x found part mem
  · rw [List.getElem?_append_right beyond] at found
    have := right _ x found part mem
    omega

theorem backward_entries :
    (∀ (e : Expr Span) (base : Nat), Backward base (e.entries base)) ∧
    ∀ (es : List (Expr Span)) (base : Nat), Backward base (entriesAll base es) := by
  refine children_induction ?node ?nil ?cons
  case node =>
    intro e ih base
    rw [entries_eq]
    refine (ih base).append ?_
    intro i x found part mem
    obtain ⟨rfl, rfl⟩ : i = 0 ∧ x = (e.entry base, e.mark) := by
      cases i with
      | zero => exact ⟨rfl, (Option.some.inj found).symm⟩
      | succ => cases found
    rw [parts_entry] at mem
    have := lt_of_mem_lasts mem
    rw [length_entriesAll]
    omega
  case nil => exact fun _ _ _ found => nomatch found
  case cons =>
    intro e es first others base
    rw [entriesAll]
    refine (first base).append ?_
    rw [length_entries]
    exact others _

/-- The part that an entry names at a position. -/
def part? (arena : Arena) (parent position : Nat) : Option Nat :=
  (arena.entry? parent).bind fun x => x.1.parts[position]?

def PartOf (arena : Arena) (child parent : Nat) : Prop :=
  ∃ position, arena.part? parent position = some child

theorem part?_eq_some {parent position child : Nat} :
    arena.part? parent position = some child ↔
      ∃ x, arena.entries.toList[parent]? = some x ∧ x.1.parts[position]? = some child := by
  rw [part?, entry?, ← Array.getElem?_toList, Option.bind_eq_some_iff]

/-- Where no part is named twice, every part is named at one place. -/
theorem existsUnique_part (apart : (partsOf arena.entries.toList).Nodup) {number : Nat}
    (mem : number ∈ partsOf arena.entries.toList) :
    ∃! place : Nat × Nat, arena.part? place.1 place.2 = some number := by
  obtain ⟨within, between⟩ := List.nodup_flatMap.mp apart
  obtain ⟨x, inside, named⟩ := List.mem_flatMap.mp mem
  obtain ⟨parent, entry⟩ := List.mem_iff_getElem?.mp inside
  obtain ⟨position, part⟩ := List.mem_iff_getElem?.mp named
  refine ⟨(parent, position), part?_eq_some.mpr ⟨x, entry, part⟩, ?_⟩
  rintro ⟨parent', position'⟩ found
  obtain ⟨x', entry', part'⟩ := part?_eq_some.mp found
  have named' := List.mem_of_getElem? part'
  have same : parent' = parent := by
    by_contra other
    rw [List.pairwise_iff_getElem] at between
    obtain ⟨bound, rfl⟩ := List.getElem?_eq_some_iff.mp entry
    obtain ⟨bound', rfl⟩ := List.getElem?_eq_some_iff.mp entry'
    rcases Nat.lt_or_gt_of_ne other with before | after
    · exact between _ _ bound' bound before named' named
    · exact between _ _ bound bound' after named named'
  subst same
  cases entry.symm.trans entry'
  have bound := (List.getElem?_eq_some_iff.mp part).1
  rw [(List.getElem?_inj bound (within x inside)).mp (part.trans part'.symm)]

/-! ## Arenas of one tree -/

/-- An arena holds the nodes of a tree in post-order and nothing else. -/
structure InPostOrder (arena : Arena) (root : Nat) (e : Expr Span) : Prop where
  whole : arena.tree? root = some e
  /-- Number by number, the entries stand for the nodes of the tree in post-order. -/
  nodes : (List.range arena.size).map arena.tree? = e.postorder.map some
  /-- So does following the parts from the root, and nothing is left over. -/
  order : arena.postorder root = List.range arena.size
  last : root + 1 = arena.size
  before : ∀ child parent, arena.PartOf child parent → child < parent
  once : ∀ number < root, ∃! place : Nat × Nat, arena.part? place.1 place.2 = some number
  free : ∀ parent, ¬ arena.PartOf root parent
  /-- Every lookup on the way from the root finds an entry. -/
  inside : ∀ number, Relation.ReflTransGen arena.PartOf number root → number < arena.size
  wellFounded : WellFounded arena.PartOf

theorem inPostOrder_of_holds {root : Nat} {e : Expr Span}
    (stored : arena.entries.toList = e.entries 0) (number : root = e.last 0) :
    arena.InPostOrder root e := by
  subst number
  have holds : arena.Holds 0 (e.entries 0) := ⟨[], [], by rw [stored]; simp, rfl⟩
  have size : arena.size = e.size := by
    rw [Arena.size, ← Array.length_toList, stored, length_entries]
  have last : e.last 0 + 1 = arena.size := by
    have := e.size_pos
    rw [size, Expr.last]
    omega
  have perm : (partsOf arena.entries.toList).Perm (List.range (e.last 0)) := by
    rw [stored, Expr.last, size_eq, List.range_eq_range']
    simpa using perm_partsOf.1 e 0
  have before (child parent : Nat) (part : arena.PartOf child parent) : child < parent := by
    obtain ⟨position, named⟩ := part
    obtain ⟨x, entry, found⟩ := part?_eq_some.mp named
    rw [stored] at entry
    have := backward_entries.1 e 0 parent x entry child (List.mem_of_getElem? found)
    omega
  have parents (child parent : Nat) (part : arena.PartOf child parent) : parent < arena.size := by
    obtain ⟨position, named⟩ := part
    obtain ⟨x, entry, -⟩ := part?_eq_some.mp named
    exact (List.getElem?_eq_some_iff.mp entry).1
  constructor
  · exact Holds.trees.1 e 0 holds
  · rw [size, List.range_eq_range']
    exact Holds.nodes.1 e 0 holds
  · rw [size, List.range_eq_range']
    exact Holds.postorder.1 e 0 holds
  · exact last
  · exact before
  · intro number below
    exact existsUnique_part (perm.nodup_iff.mpr List.nodup_range)
      (perm.mem_iff.mpr (List.mem_range.mpr below))
  · intro parent part
    have := before _ _ part
    have := parents _ _ part
    omega
  · intro number reached
    induction reached using Relation.ReflTransGen.head_induction_on with
    | refl => omega
    | head part _ ih => exact Nat.lt_trans (before _ _ part) ih
  · exact Subrelation.wf (fun part => before _ _ part) Nat.lt_wfRel.wf

theorem inPostOrder_addExpr (e : Expr Span) :
    (empty.addExpr e).1.InPostOrder (empty.addExpr e).2 e :=
  inPostOrder_of_holds (toList_addExpr empty e) (addExpr_number empty e)

end Arena

end FormulaDoc
