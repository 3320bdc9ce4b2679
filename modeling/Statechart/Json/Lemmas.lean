/-
`Json/Lemmas.lean` -- what it means for a value to have nothing repeated.

`collapse` leaves nothing to collapse, and it changes nothing where nothing is repeated. On such
values `same` is reflexive.
-/
import Statechart.Json.Basic
import Statechart.OrderedMap.Lemmas

set_option autoImplicit false

namespace Statechart.Json

/-! ## 1. Members and items one by one -/

/-- What holds of every value whose items or members it holds of, holds of every value. -/
@[elab_as_elim]
theorem induct {motive : Json → Prop} (null : motive .null) (bool : ∀ value, motive (.bool value))
    (num : ∀ value, motive (.num value)) (str : ∀ value, motive (.str value))
    (arr : ∀ items, (∀ item ∈ items, motive item) → motive (.arr items))
    (obj : ∀ members : Attributes, (∀ entry ∈ members, motive entry.2) → motive (.obj members)) :
    ∀ value, motive value :=
  @Json.rec motive (fun items => ∀ item ∈ items, motive item)
    (fun members => ∀ entry ∈ members, motive entry.2) (fun entry => motive entry.2)
    null bool num str arr obj nofun (fun _ _ hitem hrest => List.forall_mem_cons.mpr ⟨hitem, hrest⟩)
    nofun (fun _ _ hentry hrest => List.forall_mem_cons.mpr ⟨hentry, hrest⟩) (fun _ _ h => h)

/-- A list of items is free of repetition exactly when each item is. -/
theorem distinctItems_iff {items : List Json} :
    DistinctItems items ↔ ∀ item ∈ items, item.Distinct := by
  induction items with
  | nil => simp [DistinctItems]
  | cons item rest ih => simp [DistinctItems, ih]

/-- Members are free of repetition inside exactly when the value of each is. -/
theorem distinctMembers_iff {members : List (String × Json)} :
    DistinctMembers members ↔ ∀ entry ∈ members, entry.2.Distinct := by
  induction members with
  | nil => simp [DistinctMembers]
  | cons entry rest ih => simp [DistinctMembers, ih]

/-! Which values repeat no member, for the simplifier. -/

@[simp] theorem distinct_null : null.Distinct := trivial

@[simp] theorem distinct_bool (value : Bool) : (bool value).Distinct := trivial

@[simp] theorem distinct_num (value : Number) : (num value).Distinct := trivial

@[simp] theorem distinct_str (value : String) : (str value).Distinct := trivial

@[simp] theorem distinct_arr_iff {items : List Json} :
    (arr items).Distinct ↔ ∀ item ∈ items, item.Distinct := distinctItems_iff

/-- A record repeats nothing where its members are distinct and repeat nothing inside. -/
@[simp] theorem distinct_obj_iff {members : Attributes} :
    (obj members).Distinct ↔
      OrderedMap.Distinct members ∧ ∀ entry ∈ members, entry.2.Distinct := by
  rw [Distinct, distinctMembers_iff]

theorem distinct_obj_nil : (obj []).Distinct :=
  distinct_obj_iff.mpr ⟨OrderedMap.distinct_nil, nofun⟩

/-! ## 2. Collapsing -/

mutual
/-- A collapsed value has nothing repeated. -/
theorem distinct_collapse : (value : Json) → value.collapse.Distinct
  | .null | .bool _ | .num _ | .str _ => trivial
  | .arr items => distinct_collapseItems items
  | .obj members => by
      refine ⟨OrderedMap.distinct_ofBindings _, distinctMembers_iff.mpr ?_⟩
      intro entry h
      exact distinctMembers_iff.mp (distinct_collapseMembers members) entry
        (OrderedMap.mem_of_mem_ofBindings h)
/-- Item by item. -/
theorem distinct_collapseItems : (items : List Json) → DistinctItems (collapseItems items)
  | [] => trivial
  | item :: rest => ⟨distinct_collapse item, distinct_collapseItems rest⟩
/-- Member by member. -/
theorem distinct_collapseMembers :
    (members : List (String × Json)) → DistinctMembers (collapseMembers members)
  | [] => trivial
  | (_, value) :: rest => ⟨distinct_collapse value, distinct_collapseMembers rest⟩
end

mutual
/-- Where nothing is repeated, collapsing changes nothing. -/
theorem Distinct.collapse_eq : {value : Json} → value.Distinct → value.collapse = value
  | .null, _ | .bool _, _ | .num _, _ | .str _, _ => rfl
  | .arr _, h => congrArg arr (DistinctItems.collapse_eq h)
  | .obj members, h => by
      rw [collapse, DistinctMembers.collapse_eq h.2]
      exact congrArg obj h.1.ofBindings_eq
/-- Item by item. -/
theorem DistinctItems.collapse_eq :
    {items : List Json} → DistinctItems items → collapseItems items = items
  | [], _ => rfl
  | _ :: _, h => by rw [collapseItems, Distinct.collapse_eq h.1, DistinctItems.collapse_eq h.2]
/-- Member by member. -/
theorem DistinctMembers.collapse_eq :
    {members : List (String × Json)} → DistinctMembers members → collapseMembers members = members
  | [], _ => rfl
  | (_, _) :: _, h => by
      rw [collapseMembers, Distinct.collapse_eq h.1, DistinctMembers.collapse_eq h.2]
end

/-! ## 3. Equality up to the order of members -/

mutual
/-- A value with nothing repeated is the same as itself. -/
theorem Distinct.same_self : {value : Json} → value.Distinct → value.same value = true
  | .null, _ => rfl
  | .bool _, _ => by simp [same]
  | .num (.int _), _ => by simp [same, Number.same]
  | .num (.float _), _ => by simp [same, Number.same, Binary64.same]
  | .str _, _ => by simp [same]
  | .arr _, h => DistinctItems.same_self h
  | .obj members, h => by
      rw [same, beq_self_eq_true, Bool.true_and]
      exact DistinctMembers.same_self h.2 fun entry hm => h.1.get?_of_mem hm
/-- Item by item. -/
theorem DistinctItems.same_self :
    {items : List Json} → DistinctItems items → sameItems items items = true
  | [], _ => rfl
  | _ :: _, h => by
      rw [sameItems, Distinct.same_self h.1, DistinctItems.same_self h.2, Bool.true_and]
/-- Members that are all found in a table have their equals there. -/
theorem DistinctMembers.same_self :
    {members : List (String × Json)} → DistinctMembers members → {table : OrderedMap Json} →
      (∀ entry ∈ members, table.get? entry.1 = some entry.2) → sameMembers members table = true
  | [], _, _, _ => rfl
  | (key, value) :: rest, h, table, found => by
      have hfirst := found (key, value) List.mem_cons_self
      rw [sameMembers, hfirst, DistinctMembers.same_self h.2
        (fun entry hm => found entry (List.mem_cons_of_mem _ hm)), Bool.and_true]
      exact Distinct.same_self h.1
end

end Statechart.Json
