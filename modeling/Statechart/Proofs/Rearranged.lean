/-
`Proofs/Rearranged.lean` -- values that differ only in the order of members.

The entries of a table have an order, and so have the members of an object. Two tables are
rearrangements of each other when they hold related values under the same keys; what the order of
the keys is to keep is a parameter. Two values are equal up to the order of members when this is so
at every depth. Looking up, taking members away and laying records over each other see nothing of
the order, as long as no member is repeated, and neither does equality.
-/
import Statechart.Proofs.Equality

set_option autoImplicit false

namespace Statechart

/-! ## 1. Tables -/

namespace OrderedMap

variable {α β : Type}

/-- Two tables with related values under the same keys. Between the keys of the one, in their order,
and those of the other there is the relation `order`. -/
structure Rearranged (order : List String → List String → Prop) (rel : α → β → Prop)
    (left : OrderedMap α) (right : OrderedMap β) : Prop where
  keys : order left.keys right.keys
  values : ∀ key, Option.Rel rel (left.get? key) (right.get? key)

variable {order : List String → List String → Prop} {rel : α → β → Prop} {left : OrderedMap α}
  {right : OrderedMap β}

/-- What follows from the relation for the entries on the left follows for the tables. -/
theorem Rearranged.imp_of_mem {rel' : α → β → Prop} (h : Rearranged order rel left right)
    (himp : ∀ entry ∈ left, ∀ b, rel entry.2 b → rel' entry.2 b) :
    Rearranged order rel' left right := by
  refine ⟨h.keys, fun key => ?_⟩
  have hrel := h.values key
  generalize hfound : left.get? key = a?, right.get? key = b? at hrel ⊢
  cases hrel with
  | none => exact .none
  | some related => exact .some (himp (key, _) (mem_of_get? hfound) _ related)

/-- Tables are rearrangements where they have the same keys, and related values under each of them. -/
theorem rearranged_iff (horder : ∀ keys keys', order keys keys' → keys.Perm keys') :
    Rearranged order rel left right ↔ order left.keys right.keys ∧
      ∀ key a b, left.get? key = some a → right.get? key = some b → rel a b := by
  constructor
  · intro h
    exact ⟨h.keys, fun key => (rel_iff.mp (h.values key)).2⟩
  · rintro ⟨keys, values⟩
    refine ⟨keys, fun key => rel_iff.mpr ⟨?_, values key⟩⟩
    rw [isSome_get?_iff, isSome_get?_iff, (horder _ _ keys).mem_iff]

/-- Tables without repetition are rearrangements where they hold related values. -/
theorem Distinct.rearranged (hleft : left.Distinct) (hright : right.Distinct)
    (h : ∀ key, Option.Rel rel (left.get? key) (right.get? key)) :
    Rearranged List.Perm rel left right :=
  ⟨hleft.keys_perm hright h, h⟩

/-- Nothing is rearranged where the keys stand in the same order. -/
theorem Alike.rearranged (h : Alike rel left right) : Rearranged Eq rel left right :=
  ⟨h.keys_eq, h.get?⟩

/-- Turning a table around rearranges it. -/
theorem Alike.rearranged_reverse (h : Alike rel left right) (hleft : left.Distinct) :
    Rearranged List.Perm rel left right.reverse := by
  have hright : right.Distinct := by
    rw [Distinct, ← h.keys_eq]
    exact hleft
  refine ⟨?_, fun key => ?_⟩
  · rw [h.keys_eq, OrderedMap.keys, OrderedMap.keys, List.map_reverse]
    exact (List.reverse_perm _).symm
  · rw [hright.get?_reverse]
    exact h.get? key

/-- Keys in the same order are keys in some order. -/
theorem Rearranged.perm (h : Rearranged Eq rel left right) : Rearranged List.Perm rel left right :=
  ⟨.of_eq h.keys, h.values⟩

/-- A rearrangement of a table without repetition has none. -/
theorem Rearranged.distinct (h : Rearranged List.Perm rel left right) (hleft : left.Distinct) :
    right.Distinct :=
  h.keys.nodup hleft

theorem Rearranged.without (h : Rearranged List.Perm rel left right) (hleft : left.Distinct)
    (dropped : List String) :
    Rearranged List.Perm rel (left.without dropped) (right.without dropped) := by
  refine (hleft.without dropped).rearranged ((h.distinct hleft).without dropped) fun key => ?_
  rw [get?_without, get?_without]
  by_cases hkey : key ∈ dropped
  · rw [if_pos hkey, if_pos hkey]
    exact .none
  · rw [if_neg hkey, if_neg hkey]
    exact h.values key

theorem Rearranged.extend (h : Rearranged List.Perm rel left right) (hleft : left.Distinct)
    {extra : OrderedMap α} {extra' : OrderedMap β} (hextra : Rearranged List.Perm rel extra extra')
    (hdistinct : extra.Distinct) :
    Rearranged List.Perm rel (left.extend extra) (right.extend extra') := by
  refine (hleft.extend extra).rearranged ((h.distinct hleft).extend extra') fun key => ?_
  rw [get?_extend, get?_extend, hdistinct.get?_reverse, (hextra.distinct hdistinct).get?_reverse]
  exact rel_or (hextra.values key) (h.values key)

/-- Rearranged tables without repetition are equal where their values are. -/
theorem Rearranged.same {eq : α → α → Bool} {rel : α → α → Prop} {left right : OrderedMap α}
    (h : Rearranged List.Perm rel left right) (hleft : left.Distinct)
    (heq : ∀ entry ∈ left, ∀ b, rel entry.2 b → eq entry.2 b = true) :
    OrderedMap.same eq left right = true :=
  hleft.same_of_get? (h.distinct hleft) (h.imp_of_mem heq).values

end OrderedMap

/-! ## 2. Values -/

namespace Json

/-- Equal values, but for the order of the members of objects at any depth. -/
inductive Reordered : Json → Json → Prop
  | refl (value : Json) : Reordered value value
  | arr {items items' : List Json} (related : List.Forall₂ Reordered items items') :
      Reordered (.arr items) (.arr items')
  | obj {members members' : Attributes} (keys : members.keys.Perm members'.keys)
      (values : ∀ key a b, members.get? key = some a → members'.get? key = some b →
        Reordered a b) :
      Reordered (.obj members) (.obj members')

/-- Objects are equal up to order where their members are rearrangements. -/
theorem reordered_obj_iff {members members' : Attributes} :
    (obj members).Reordered (obj members') ↔
      OrderedMap.Rearranged List.Perm Reordered members members' := by
  constructor
  · intro h
    cases h with
    | refl => exact ⟨.refl _, fun key => rel_self fun value _ => .refl value⟩
    | obj keys values => exact (OrderedMap.rearranged_iff fun _ _ h => h).mpr ⟨keys, values⟩
  · intro h
    obtain ⟨keys, values⟩ := (OrderedMap.rearranged_iff fun _ _ h => h).mp h
    exact .obj keys values

/-- Objects with the same names in the same order are equal up to order where their values are. -/
theorem reordered_obj_of_alike {members members' : Attributes}
    (h : OrderedMap.Alike Reordered members members') :
    (obj members).Reordered (obj members') :=
  reordered_obj_iff.mpr h.rearranged.perm

/-- What is equal to an object up to order is an object. -/
theorem Reordered.exists_obj {members : Attributes} {value : Json}
    (h : (Json.obj members).Reordered value) :
    ∃ members', value = Json.obj members' ∧
      OrderedMap.Rearranged List.Perm Reordered members members' := by
  cases h with
  | refl => exact ⟨members, rfl, reordered_obj_iff.mp (.refl _)⟩
  | @obj _ members' keys values => exact ⟨members', rfl, reordered_obj_iff.mp (.obj keys values)⟩

/-- Of two values that are equal up to order both are objects or neither is. -/
theorem Reordered.rel_members? {value value' : Json} (h : value.Reordered value') :
    Option.Rel (OrderedMap.Rearranged List.Perm Reordered) value.members? value'.members? := by
  cases h with
  | refl => exact rel_self fun members _ => reordered_obj_iff.mp (.refl (.obj members))
  | arr => exact .none
  | obj keys values => exact .some (reordered_obj_iff.mp (.obj keys values))

/-- Nothing but `null` is equal to `null`. -/
theorem Reordered.eq_null_iff {value value' : Json} (h : value.Reordered value') :
    value = .null ↔ value' = .null := by
  cases h with
  | refl => rfl
  | arr | obj =>
      constructor
      · intro hnull
        cases hnull
      · intro hnull
        cases hnull

/-- Reordering repeats nothing. -/
theorem Reordered.distinct {value value' : Json} (h : value.Reordered value')
    (hvalue : value.Distinct) : value'.Distinct := by
  induction value using Json.induct generalizing value' with
  | null | bool | num | str =>
      cases h
      exact hvalue
  | arr items ih =>
      cases h with
      | refl => exact hvalue
      | arr related =>
          refine distinctItems_iff.mpr fun item' hitem' => ?_
          obtain ⟨item, hitem, hrel⟩ := exists_of_mem_right related hitem'
          exact ih item hitem hrel (distinctItems_iff.mp hvalue item hitem)
  | obj members ih =>
      obtain ⟨members', rfl, hmembers⟩ := h.exists_obj
      have hdistinct := hmembers.distinct (distinct_obj_iff.mp hvalue).1
      refine distinct_obj_iff.mpr ⟨hdistinct, fun entry' hentry' => ?_⟩
      -- the key of the entry is on the left as well, with a value that is equal up to order
      have hrel := hmembers.values entry'.1
      rw [hdistinct.get?_of_mem hentry'] at hrel
      generalize hfound : members.get? entry'.1 = found at hrel
      cases hrel with
      | @some a _ hab =>
          have hmem := OrderedMap.mem_of_get? hfound
          exact ih _ hmem hab ((distinct_obj_iff.mp hvalue).2 _ hmem)

/-- The equality of objects is that of records. -/
theorem same_obj (members members' : Attributes) :
    (obj members).same (.obj members') = Attributes.same members members' := by
  rw [same, Attributes.same, OrderedMap.same]
  congr 1
  induction members with
  | nil => rfl
  | cons entry rest ih =>
      rw [List.all_cons, sameMembers, ih]
      cases OrderedMap.get? members' entry.1 <;> rfl

/-- Values that are equal up to order are equal, if they repeat nothing. -/
theorem Reordered.same {value value' : Json} (h : value.Reordered value')
    (hvalue : value.Distinct) : value.same value' = true := by
  induction value using Json.induct generalizing value' with
  | null | bool | num | str =>
      cases h
      exact hvalue.same_self
  | arr items ih =>
      cases h with
      | refl => exact hvalue.same_self
      | @arr _ items' related =>
          rw [Distinct, distinctItems_iff] at hvalue
          rw [Json.same]
          induction related with
          | nil => rfl
          | @cons item _ _ _ hitem _ ihrest =>
              rw [sameItems, ih item List.mem_cons_self hitem (hvalue item List.mem_cons_self),
                ihrest (fun later hlater => ih later (List.mem_cons_of_mem _ hlater))
                  fun later hlater => hvalue later (List.mem_cons_of_mem _ hlater)]
              rfl
  | obj members ih =>
      obtain ⟨members', rfl, hmembers⟩ := h.exists_obj
      obtain ⟨hdistinct, hvalues⟩ := distinct_obj_iff.mp hvalue
      rw [same_obj]
      exact hmembers.same hdistinct fun entry hentry _ hrel =>
        ih entry hentry hrel (hvalues entry hentry)

/-! ## 3. Values without objects -/

mutual
/-- Neither is the value an object, nor is one in it. -/
def ObjectFree : Json → Prop
  | .null => True
  | .bool _ => True
  | .num _ => True
  | .str _ => True
  | .arr items => ObjectFreeItems items
  | .obj _ => False
/-- `ObjectFree` of each item. -/
def ObjectFreeItems : List Json → Prop
  | [] => True
  | item :: rest => item.ObjectFree ∧ ObjectFreeItems rest
end

theorem objectFreeItems_iff {items : List Json} :
    ObjectFreeItems items ↔ ∀ item ∈ items, item.ObjectFree := by
  induction items with
  | nil => simp [ObjectFreeItems]
  | cons item rest ih => simp [ObjectFreeItems, ih]

/-- Where there is no object, there is nothing to reorder. -/
theorem Reordered.eq_of_objectFree {value value' : Json} (h : value.Reordered value')
    (free : value.ObjectFree) : value = value' := by
  induction value using Json.induct generalizing value' with
  | null | bool | num | str =>
      cases h
      rfl
  | arr items ih =>
      cases h with
      | refl => rfl
      | @arr _ items' related =>
          rw [ObjectFree, objectFreeItems_iff] at free
          congr 1
          induction related with
          | nil => rfl
          | @cons item _ _ _ hitem _ ihrest =>
              rw [ih item List.mem_cons_self hitem (free item List.mem_cons_self),
                ihrest (fun later hlater => ih later (List.mem_cons_of_mem _ hlater))
                  fun later hlater => free later (List.mem_cons_of_mem _ hlater)]
  | obj => cases free

end Json

end Statechart
