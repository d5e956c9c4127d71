import FormulaDoc.Proofs.Document.FormulaFree

/-!
# Values up to the order of members

Two values may differ in the order of members only, in objects at any depth. Where no object has a key
twice, such values cannot be told apart: they have the same things in the same places, they are equal
to the same values, and stay so when formulas inside are replaced.
-/
namespace FormulaDoc

/-! ## Related options -/

section Options

variable {α β γ δ : Type} {r : α → β → Prop} {s : γ → δ → Prop} {x : Option α} {y : Option β}

theorem rel_bind {f : α → Option γ} {g : β → Option δ} (first : Option.Rel r x y)
    (rest : ∀ {a b}, r a b → Option.Rel s (f a) (g b)) : Option.Rel s (x.bind f) (y.bind g) := by
  cases first with
  | none => exact .none
  | some related => exact rest related

theorem rel_map {f : α → γ} {g : β → δ} (first : Option.Rel r x y)
    (rest : ∀ {a b}, r a b → s (f a) (g b)) : Option.Rel s (x.map f) (y.map g) := by
  cases first with
  | none => exact .none
  | some related => exact .some (rest related)

theorem rel_trans {z : Option γ} {r' : β → γ → Prop} {t : α → γ → Prop} (first : Option.Rel r x y)
    (second : Option.Rel r' y z) (both : ∀ {a b c}, r a b → r' b c → t a c) : Option.Rel t x z := by
  cases first with
  | none =>
    cases second
    exact .none
  | some first =>
    cases second with
    | some second => exact .some (both first second)

theorem rel_imp {r' : α → β → Prop} (related : Option.Rel r x y)
    (more : ∀ {a b}, x = some a → r a b → r' a b) : Option.Rel r' x y := by
  cases related with
  | none => exact .none
  | some related => exact .some (more rfl related)

theorem exists_right_of_rel (related : Option.Rel r x y) {a : α} (here : x = some a) :
    ∃ b, y = some b ∧ r a b := by
  subst here
  cases related with
  | some related => exact ⟨_, rfl, related⟩

theorem exists_left_of_rel (related : Option.Rel r x y) {b : β} (there : y = some b) :
    ∃ a, x = some a ∧ r a b := by
  subst there
  cases related with
  | some related => exact ⟨_, rfl, related⟩

end Options

/-- Members with distinct keys are found in any order. -/
theorem lookup_of_perm {α : Type} {members others : List (String × α)} (same : members.Perm others)
    (nodup : (members.map Prod.fst).Nodup) (key : String) :
    members.lookup key = others.lookup key := by
  induction same with
  | nil => rfl
  | cons member _ ih =>
    rw [List.map_cons, List.nodup_cons] at nodup
    rw [List.lookup_cons, List.lookup_cons, ih nodup.2]
  | swap first second rest =>
    obtain ⟨⟨name, value⟩, ⟨name', value'⟩⟩ := first, second
    have apart : name ≠ name' := by
      rintro rfl
      simp at nodup
    simp only [List.lookup_cons]
    by_cases here : key = name
    · rw [beq_eq_false_iff_ne.mpr (here ▸ apart : key ≠ name')]
    · rw [beq_eq_false_iff_ne.mpr here]
  | trans first _ ih ih' =>
    exact (ih nodup).trans (ih' ((first.map Prod.fst).nodup_iff.mp nodup))

namespace Value

mutual

/-- A value is another one up to the order of the members of objects. -/
def Reordered : Value → Value → Prop
  | array items, other => ∃ others, other = array others ∧ ItemsReordered items others
  | object members, other =>
    ∃ between others, other = object others ∧ MembersReordered members between ∧
      between.Perm others
  | value, other => other = value

def ItemsReordered : List Value → List Value → Prop
  | [], others => others = []
  | item :: rest, others =>
    ∃ other more, others = other :: more ∧ item.Reordered other ∧ ItemsReordered rest more

/-- Members are others one by one: keys are the same and values the same up to order inside. -/
def MembersReordered : List (String × Value) → List (String × Value) → Prop
  | [], others => others = []
  | (key, value) :: rest, others =>
    ∃ other more, others = (key, other) :: more ∧ value.Reordered other ∧
      MembersReordered rest more

end

mutual

theorem reordered_refl (value : Value) : value.Reordered value := by
  match value with
  | null | bool _ | number _ | string _ | formula _ => rfl
  | array items => exact ⟨items, rfl, itemsReordered_refl items⟩
  | object members => exact ⟨members, members, rfl, membersReordered_refl members, .refl _⟩

theorem itemsReordered_refl (items : List Value) : ItemsReordered items items := by
  match items with
  | [] => rfl
  | item :: rest => exact ⟨item, rest, rfl, reordered_refl item, itemsReordered_refl rest⟩

theorem membersReordered_refl (members : List (String × Value)) :
    MembersReordered members members := by
  match members with
  | [] => rfl
  | (_, value) :: rest => exact ⟨value, rest, rfl, reordered_refl value, membersReordered_refl rest⟩

end

variable {value other : Value} {items others : List Value} {members between : List (String × Value)}

/-- Values up to order are containers of one kind or the same. -/
theorem Reordered.shapes (h : value.Reordered other) :
    value = other ∨
      (∃ items others, value = array items ∧ other = array others ∧ ItemsReordered items others) ∨
      ∃ members between others, value = object members ∧ other = object others ∧
        MembersReordered members between ∧ between.Perm others := by
  cases value with
  | array items =>
    obtain ⟨others, rfl, inside⟩ := h
    exact .inr (.inl ⟨items, others, rfl, rfl, inside⟩)
  | object members =>
    obtain ⟨between, others, rfl, inside, order⟩ := h
    exact .inr (.inr ⟨members, between, others, rfl, rfl, inside, order⟩)
  | _ => exact .inl (Eq.symm h)

theorem Reordered.isScalar (h : value.Reordered other) : value.isScalar = other.isScalar := by
  rcases h.shapes with rfl | ⟨_, _, rfl, rfl, _⟩ | ⟨_, _, _, rfl, rfl, _⟩ <;> rfl

theorem Reordered.eq_of_isScalar (h : value.Reordered other) (scalar : value.isScalar) :
    value = other := by
  rcases h.shapes with rfl | ⟨_, _, rfl, _, _⟩ | ⟨_, _, _, rfl, _, _⟩
  · rfl
  · cases scalar
  · cases scalar

theorem Reordered.typeName (h : value.Reordered other) : value.typeName = other.typeName := by
  rcases h.shapes with rfl | ⟨_, _, rfl, rfl, _⟩ | ⟨_, _, _, rfl, rfl, _⟩ <;> rfl

theorem Reordered.integer? (h : value.Reordered other) : value.integer? = other.integer? := by
  rcases h.shapes with rfl | ⟨_, _, rfl, rfl, _⟩ | ⟨_, _, _, rfl, rfl, _⟩ <;> rfl

theorem Reordered.bool? (h : value.Reordered other) : value.bool? = other.bool? := by
  rcases h.shapes with rfl | ⟨_, _, rfl, rfl, _⟩ | ⟨_, _, _, rfl, rfl, _⟩ <;> rfl

theorem ItemsReordered.length_eq (h : ItemsReordered items others) :
    items.length = others.length := by
  induction items generalizing others with
  | nil =>
    obtain rfl := h
    rfl
  | cons item rest ih =>
    obtain ⟨other, more, rfl, _, later⟩ := h
    rw [List.length_cons, List.length_cons, ih later]

theorem ItemsReordered.getElem? (h : ItemsReordered items others) (position : Nat) :
    Option.Rel Reordered items[position]? others[position]? := by
  induction items generalizing others position with
  | nil =>
    obtain rfl := h
    exact .none
  | cons item rest ih =>
    obtain ⟨other, more, rfl, here, later⟩ := h
    cases position with
    | zero => exact .some here
    | succ position => exact ih later position

theorem MembersReordered.keys_eq (h : MembersReordered members between) :
    members.map Prod.fst = between.map Prod.fst := by
  induction members generalizing between with
  | nil =>
    obtain rfl := h
    rfl
  | cons member rest ih =>
    obtain ⟨other, more, rfl, _, later⟩ := h
    rw [List.map_cons, List.map_cons, ih later]

theorem MembersReordered.lookup (h : MembersReordered members between) (key : String) :
    Option.Rel Reordered (members.lookup key) (between.lookup key) := by
  induction members generalizing between with
  | nil =>
    obtain rfl := h
    exact .none
  | cons member rest ih =>
    obtain ⟨name, value⟩ := member
    obtain ⟨other, more, rfl, here, later⟩ := h
    rw [List.lookup_cons, List.lookup_cons]
    cases key == name with
    | true => exact .some here
    | false => exact ih later

theorem length_of_reordered {others : List (String × Value)}
    (inside : MembersReordered members between) (order : between.Perm others) :
    members.length = others.length := by
  rw [← order.length_eq]
  simpa using congrArg List.length inside.keys_eq

theorem lookup_of_reordered {others : List (String × Value)}
    (nodup : (members.map Prod.fst).Nodup) (inside : MembersReordered members between)
    (order : between.Perm others) (key : String) :
    Option.Rel Reordered (members.lookup key) (others.lookup key) := by
  rw [← lookup_of_perm order (inside.keys_eq ▸ nodup) key]
  exact inside.lookup key

/-! ## Well-formed values up to order -/

theorem itemsWellFormed_iff : ItemsWellFormed items ↔ ∀ item ∈ items, item.WellFormed := by
  induction items with
  | nil => simp [ItemsWellFormed]
  | cons item rest ih => simp [ItemsWellFormed, ih]

theorem membersWellFormed_iff :
    MembersWellFormed members ↔ ∀ member ∈ members, member.2.WellFormed := by
  induction members with
  | nil => simp [MembersWellFormed]
  | cons member rest ih => simp [MembersWellFormed, ih]

mutual

theorem Reordered.wellFormed {value other : Value} (h : value.Reordered other)
    (wellFormed : value.WellFormed) : other.WellFormed := by
  match value with
  | null | bool _ | number _ | string _ | formula _ =>
    obtain rfl := h
    trivial
  | array items =>
    obtain ⟨others, rfl, inside⟩ := h
    exact ItemsReordered.wellFormed inside wellFormed
  | object members =>
    obtain ⟨between, others, rfl, inside, order⟩ := h
    obtain ⟨nodup, each⟩ := wellFormed
    have each' := membersWellFormed_iff.mp (MembersReordered.wellFormed inside each)
    refine ⟨?_, membersWellFormed_iff.mpr fun member mem => each' member (order.mem_iff.mpr mem)⟩
    exact (order.map Prod.fst).nodup_iff.mp (inside.keys_eq ▸ nodup)

theorem ItemsReordered.wellFormed {items others : List Value} (h : ItemsReordered items others)
    (wellFormed : ItemsWellFormed items) : ItemsWellFormed others := by
  match items with
  | [] =>
    obtain rfl := h
    trivial
  | item :: rest =>
    obtain ⟨other, more, rfl, here, later⟩ := h
    exact ⟨here.wellFormed wellFormed.1, later.wellFormed wellFormed.2⟩

theorem MembersReordered.wellFormed {members others : List (String × Value)}
    (h : MembersReordered members others) (wellFormed : MembersWellFormed members) :
    MembersWellFormed others := by
  match members with
  | [] =>
    obtain rfl := h
    trivial
  | (_, value) :: rest =>
    obtain ⟨other, more, rfl, here, later⟩ := h
    exact ⟨here.wellFormed wellFormed.1, later.wellFormed wellFormed.2⟩

end

/-- A well-formed value is another one up to order. -/
structure Matches (value other : Value) : Prop where
  wellFormed : value.WellFormed
  reordered : value.Reordered other

theorem matches_of_isScalar (scalar : value.isScalar) : value.Matches value := by
  refine ⟨?_, reordered_refl value⟩
  cases value with
  | array _ | object _ | formula _ => cases scalar
  | _ => trivial

theorem Matches.getElem? (wellFormed : ItemsWellFormed items) (inside : ItemsReordered items others)
    (position : Nat) : Option.Rel Matches items[position]? others[position]? :=
  rel_imp (inside.getElem? position) fun here related =>
    ⟨itemsWellFormed_iff.mp wellFormed _ (List.mem_of_getElem? here), related⟩

theorem Matches.lookup {others : List (String × Value)} (wellFormed : (object members).WellFormed)
    (inside : MembersReordered members between) (order : between.Perm others) (key : String) :
    Option.Rel Matches (members.lookup key) (others.lookup key) :=
  rel_imp (lookup_of_reordered wellFormed.1 inside order key) fun here related =>
    ⟨membersWellFormed_iff.mp wellFormed.2 _ (mem_of_lookup here), related⟩

theorem Matches.child? (h : value.Matches other) (step : Step) :
    Option.Rel Matches (value.child? step) (other.child? step) := by
  obtain ⟨wellFormed, reordered⟩ := h
  cases value with
  | array items =>
    obtain ⟨others, rfl, inside⟩ := reordered
    cases step with
    | key _ => exact .none
    | index position => exact Matches.getElem? wellFormed inside position
  | object members =>
    obtain ⟨between, others, rfl, inside, order⟩ := reordered
    cases step with
    | key name => exact Matches.lookup wellFormed inside order name
    | index _ => exact .none
  | _ =>
    obtain rfl := reordered
    exact .none

/-- The same things are in the same places. -/
theorem Matches.get? (h : value.Matches other) (path : DocPath) :
    Option.Rel Matches (value.get? path) (other.get? path) := by
  induction path generalizing value other with
  | nil => exact .some h
  | cons step rest ih => exact rel_bind (h.child? step) ih

theorem Matches.get?_formula_iff (h : value.Matches other) {path : DocPath} {source : String} :
    value.get? path = some (.formula source) ↔ other.get? path = some (.formula source) := by
  have here := h.get? path
  generalize value.get? path = found, other.get? path = found' at here
  cases here with
  | none => exact Iff.rfl
  | some related =>
    rcases related.reordered.shapes with rfl | ⟨_, _, rfl, rfl, _⟩ | ⟨_, _, _, rfl, rfl, _⟩
    · exact Iff.rfl
    · simp
    · simp

theorem Matches.field (h : value.Matches other) (key : String) :
    Option.Rel Matches (value.field key).toOption (other.field key).toOption := by
  obtain ⟨wellFormed, reordered⟩ := h
  cases value with
  | array items =>
    obtain ⟨others, rfl, inside⟩ := reordered
    exact .none
  | object members =>
    obtain ⟨between, others, rfl, inside, order⟩ := reordered
    have found := Matches.lookup wellFormed inside order key
    rw [Value.field, Value.field]
    generalize members.lookup key = member, others.lookup key = member' at found
    cases found with
    | none => exact .none
    | some related => exact .some related
  | _ =>
    obtain rfl := reordered
    exact .none

theorem Matches.element (h : value.Matches other) (index : Int) :
    Option.Rel Matches (value.element index).toOption (other.element index).toOption := by
  obtain ⟨wellFormed, reordered⟩ := h
  cases value with
  | array items =>
    obtain ⟨others, rfl, inside⟩ := reordered
    rw [Value.element, Value.element, ← inside.length_eq]
    cases position? index items.length with
    | none => exact .none
    | some position =>
      have found := Matches.getElem? wellFormed inside position
      rw [Option.bind_some, Option.bind_some]
      generalize items[position]? = item, others[position]? = item' at found
      cases found with
      | none => exact .none
      | some related => exact .some related
  | object members =>
    obtain ⟨between, others, rfl, _⟩ := reordered
    exact .none
  | _ =>
    obtain rfl := reordered
    exact .none

/-! ## Equality -/

theorem membersWithin_perm {first second : List (String × Value)} (order : first.Perm second)
    (others : List (String × Value)) : membersWithin first others = membersWithin second others := by
  induction order with
  | nil => rfl
  | cons member _ ih => rw [membersWithin, membersWithin, ih]
  | swap first second rest => simp only [membersWithin, Bool.and_left_comm]
  | trans _ _ ih ih' => exact ih.trans ih'

mutual

/-- Equality as formulas see it does not depend on the order of members. -/
theorem equals_of_matches {a a' b b' : Value} (left : a.Matches a') (right : b.Matches b') :
    equals a b = equals a' b' := by
  match a, left with
  | null, left | bool _, left | number _, left | string _, left | formula _, left =>
    obtain rfl := left.reordered
    rcases right.reordered.shapes with rfl | ⟨_, _, rfl, rfl, _⟩ | ⟨_, _, _, rfl, rfl, _⟩ <;> rfl
  | array as, left =>
    obtain ⟨as', rfl, inside⟩ := left.reordered
    match b, right with
    | array bs, right =>
      obtain ⟨bs', rfl, inside'⟩ := right.reordered
      exact itemsEqual_of_matches left.wellFormed inside right.wellFormed inside'
    | object _, right =>
      obtain ⟨_, _, rfl, _⟩ := right.reordered
      rfl
    | null, right | bool _, right | number _, right | string _, right | formula _, right =>
      obtain rfl := right.reordered
      rfl
  | object as, left =>
    obtain ⟨between, as', rfl, inside, order⟩ := left.reordered
    match b, right with
    | object bs, right =>
      obtain ⟨between', bs', rfl, inside', order'⟩ := right.reordered
      rw [equals, equals, length_of_reordered inside order, length_of_reordered inside' order',
        ← membersWithin_perm order,
        membersWithin_of_matches left.wellFormed.2 inside
          (Matches.lookup right.wellFormed inside' order')]
    | array _, right =>
      obtain ⟨_, rfl, _⟩ := right.reordered
      rfl
    | null, right | bool _, right | number _, right | string _, right | formula _, right =>
      obtain rfl := right.reordered
      rfl

theorem itemsEqual_of_matches {as as' bs bs' : List Value} (wellFormed : ItemsWellFormed as)
    (left : ItemsReordered as as') (wellFormed' : ItemsWellFormed bs)
    (right : ItemsReordered bs bs') : itemsEqual as bs = itemsEqual as' bs' := by
  match as, bs with
  | [], [] =>
    obtain rfl := left
    obtain rfl := right
    rfl
  | [], _ :: _ =>
    obtain rfl := left
    obtain ⟨_, _, rfl, _⟩ := right
    rfl
  | _ :: _, [] =>
    obtain ⟨_, _, rfl, _⟩ := left
    obtain rfl := right
    rfl
  | a :: as, b :: bs =>
    obtain ⟨a', as', rfl, here, later⟩ := left
    obtain ⟨b', bs', rfl, here', later'⟩ := right
    rw [itemsEqual, itemsEqual, equals_of_matches ⟨wellFormed.1, here⟩ ⟨wellFormed'.1, here'⟩,
      itemsEqual_of_matches wellFormed.2 later wellFormed'.2 later']

theorem membersWithin_of_matches {as as' bs bs' : List (String × Value)}
    (wellFormed : MembersWellFormed as) (left : MembersReordered as as')
    (right : ∀ key, Option.Rel Matches (bs.lookup key) (bs'.lookup key)) :
    membersWithin as bs = membersWithin as' bs' := by
  match as with
  | [] =>
    obtain rfl := left
    rfl
  | (key, a) :: as =>
    obtain ⟨a', as', rfl, here, later⟩ := left
    rw [membersWithin, membersWithin, membersWithin_of_matches wellFormed.2 later right]
    have found := right key
    generalize bs.lookup key = member, bs'.lookup key = member' at found
    cases found with
    | none => rfl
    | some related => simp only [equals_of_matches ⟨wellFormed.1, here⟩ related]

end

/-! ## Formulas replaced -/

section Filling

variable {known known' : DocPath → Option Value}

theorem fillMembers?_perm {first second : List (String × Value)} (order : first.Perm second)
    (path : DocPath) :
    Option.Rel List.Perm (fillMembers? known path first) (fillMembers? known path second) := by
  induction order with
  | nil => exact .some .nil
  | cons member _ ih =>
    rw [fillMembers?, fillMembers?]
    cases member.2.fill? known (path.key member.1) with
    | none => exact .none
    | some filled => exact rel_map ih (.cons (member.1, filled))
  | swap first second rest =>
    simp only [fillMembers?]
    cases first.2.fill? known (path.key first.1) <;>
      cases second.2.fill? known (path.key second.1) <;>
      cases fillMembers? known path rest
    all_goals first | exact .none | exact .some (.swap ..)
  | trans _ _ ih ih' => exact rel_trans ih ih' .trans

mutual

theorem fill?_of_reordered (values : ∀ path, Option.Rel Reordered (known path) (known' path))
    {value other : Value} (h : value.Reordered other) (path : DocPath) :
    Option.Rel Reordered (value.fill? known path) (other.fill? known' path) := by
  match value with
  | null | bool _ | number _ | string _ =>
    obtain rfl := h
    exact .some rfl
  | formula _ =>
    obtain rfl := h
    exact values path
  | array items =>
    obtain ⟨others, rfl, inside⟩ := h
    exact rel_map (fillItems?_of_reordered values inside path 0) fun filled => ⟨_, rfl, filled⟩
  | object members =>
    obtain ⟨between, others, rfl, inside, order⟩ := h
    have filled : Option.Rel (fun members others => (object members).Reordered (object others))
        (fillMembers? known path members) (fillMembers? known' path others) :=
      rel_trans (fillMembers?_of_reordered values inside path) (fillMembers?_perm order path)
        fun inside order => ⟨_, _, rfl, inside, order⟩
    exact rel_map filled fun related => related

theorem fillItems?_of_reordered (values : ∀ path, Option.Rel Reordered (known path) (known' path))
    {items others : List Value} (h : ItemsReordered items others) (path : DocPath)
    (position : Nat) :
    Option.Rel ItemsReordered (fillItems? known path position items)
      (fillItems? known' path position others) := by
  match items with
  | [] =>
    obtain rfl := h
    exact .some rfl
  | item :: rest =>
    obtain ⟨other, more, rfl, here, later⟩ := h
    refine rel_bind (fill?_of_reordered values here (path.index position)) fun filled => ?_
    exact rel_map (fillItems?_of_reordered values later path (position + 1)) fun others =>
      ⟨_, _, rfl, filled, others⟩

theorem fillMembers?_of_reordered
    (values : ∀ path, Option.Rel Reordered (known path) (known' path))
    {members others : List (String × Value)} (h : MembersReordered members others)
    (path : DocPath) :
    Option.Rel MembersReordered (fillMembers? known path members)
      (fillMembers? known' path others) := by
  match members with
  | [] =>
    obtain rfl := h
    exact .some rfl
  | (key, value) :: rest =>
    obtain ⟨other, more, rfl, here, later⟩ := h
    refine rel_bind (fill?_of_reordered values here (path.key key)) fun filled => ?_
    exact rel_map (fillMembers?_of_reordered values later path) fun others =>
      ⟨_, _, rfl, filled, others⟩

end

theorem keys_of_fillMembers? {members filled : List (String × Value)} {path : DocPath}
    (h : fillMembers? known path members = some filled) :
    filled.map Prod.fst = members.map Prod.fst := by
  induction members generalizing filled with
  | nil =>
    cases h
    rfl
  | cons member rest ih =>
    obtain ⟨value, _, later⟩ := Option.bind_eq_some_iff.mp h
    obtain ⟨others, found, rfl⟩ := Option.map_eq_some_iff.mp later
    rw [List.map_cons, List.map_cons, ih found]

mutual

theorem wellFormed_of_fill? (values : ∀ path found, known path = some found → found.WellFormed)
    {value filled : Value} (wellFormed : value.WellFormed) {path : DocPath}
    (h : value.fill? known path = some filled) : filled.WellFormed := by
  match value with
  | null | bool _ | number _ | string _ =>
    cases h
    trivial
  | formula _ => exact values path filled h
  | array items =>
    obtain ⟨found, here, rfl⟩ := Option.map_eq_some_iff.mp h
    exact itemsWellFormed_of_fillItems? values wellFormed here
  | object members =>
    obtain ⟨found, here, rfl⟩ := Option.map_eq_some_iff.mp h
    exact ⟨keys_of_fillMembers? here ▸ wellFormed.1,
      membersWellFormed_of_fillMembers? values wellFormed.2 here⟩

theorem itemsWellFormed_of_fillItems?
    (values : ∀ path found, known path = some found → found.WellFormed)
    {items filled : List Value} (wellFormed : ItemsWellFormed items) {path : DocPath}
    {position : Nat} (h : fillItems? known path position items = some filled) :
    ItemsWellFormed filled := by
  match items with
  | [] =>
    cases h
    trivial
  | item :: rest =>
    obtain ⟨value, here, later⟩ := Option.bind_eq_some_iff.mp h
    obtain ⟨others, found, rfl⟩ := Option.map_eq_some_iff.mp later
    exact ⟨wellFormed_of_fill? values wellFormed.1 here,
      itemsWellFormed_of_fillItems? values wellFormed.2 found⟩

theorem membersWellFormed_of_fillMembers?
    (values : ∀ path found, known path = some found → found.WellFormed)
    {members filled : List (String × Value)} (wellFormed : MembersWellFormed members)
    {path : DocPath} (h : fillMembers? known path members = some filled) :
    MembersWellFormed filled := by
  match members with
  | [] =>
    cases h
    trivial
  | (key, value) :: rest =>
    obtain ⟨found, here, later⟩ := Option.bind_eq_some_iff.mp h
    obtain ⟨others, more, rfl⟩ := Option.map_eq_some_iff.mp later
    exact ⟨wellFormed_of_fill? values wellFormed.1 here,
      membersWellFormed_of_fillMembers? values wellFormed.2 more⟩

end

theorem Matches.fill? (values : ∀ path, Option.Rel Matches (known path) (known' path))
    (h : value.Matches other) (path : DocPath) :
    Option.Rel Matches (value.fill? known path) (other.fill? known' path) := by
  have wellFormed : ∀ path found, known path = some found → found.WellFormed := by
    intro path found here
    obtain ⟨_, _, related⟩ := exists_right_of_rel (values path) here
    exact related.wellFormed
  have reordered := fill?_of_reordered
    (fun path => rel_imp (values path) fun _ related => related.reordered) h.reordered path
  exact rel_imp reordered fun filled related =>
    ⟨wellFormed_of_fill? wellFormed h.wellFormed filled, related⟩

end Filling

/-- Documents up to order stay so when their formulas are replaced by values up to order. -/
theorem Matches.replaceFormulas {document document' : Value} (h : document.Matches document')
    {values values' : DocPath → Value} (same : ∀ path, (values path).Matches (values' path)) :
    (document.replaceFormulas values DocPath.root).Matches
      (document'.replaceFormulas values' DocPath.root) := by
  have wellFormed' := h.reordered.wellFormed h.wellFormed
  have filled := h.fill? (fun path => .some (same path)) DocPath.root
  rw [fill?_eq_of_known h.wellFormed rfl fun _ _ => rfl,
    fill?_eq_of_known wellFormed' rfl fun _ _ => rfl] at filled
  exact Option.rel_some_some.mp filled

end Value

end FormulaDoc
