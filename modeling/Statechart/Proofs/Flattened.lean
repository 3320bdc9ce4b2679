/-
`Proofs/Flattened.lean` -- objects that are written from fields and from other members behind them.

Transitions, states and configurations are all written in one way: the fields that are present, in
their order, and then the members that are passed through. Where no passed-through member is named
like a field, such an object is read as it was written.
-/
import Statechart.StateNode.Written
import Statechart.Proofs.Equality

set_option autoImplicit false

namespace Statechart

/-! ## 1. Writing -/

/-- The members of an object: the fields that are present, and others behind them. -/
def flattened (fields : OrderedMap (Option Json)) (rest : Attributes) : Attributes :=
  fields.flatMap (fun field => optionalMember field.1 field.2) ++ rest

variable {fields : OrderedMap (Option Json)} {rest : Attributes}

/-- Only fields are written as fields, and in their order. -/
theorem keys_flatMap_sublist (fields : OrderedMap (Option Json)) :
    (OrderedMap.keys (fields.flatMap fun field => optionalMember field.1 field.2)).Sublist
      fields.keys := by
  induction fields with
  | nil => exact List.Sublist.slnil
  | cons field others ih =>
      obtain ⟨name, value?⟩ := field
      rw [List.flatMap_cons, OrderedMap.keys, List.map_append]
      cases value? with
      | none => exact ih.cons name
      | some value => exact ih.cons_cons name

/-- Only what is present is written. -/
theorem mem_flatMap_optionalMember {entry : String × Json} :
    (entry ∈ fields.flatMap fun field => optionalMember field.1 field.2) ↔
      (entry.1, some entry.2) ∈ fields := by
  induction fields with
  | nil => simp
  | cons field others ih =>
      obtain ⟨name, value?⟩ := field
      rw [List.flatMap_cons, List.mem_append, ih, List.mem_cons]
      cases value? with
      | none => simp [optionalMember]
      | some value =>
          simp [optionalMember, Prod.ext_iff]

/-- Where fields are distinct, and no field that is present is named like another member, the object
repeats no member. -/
theorem distinct_flattened (hfields : fields.Distinct) (hrest : rest.Distinct)
    (apart : ∀ name value, (name, some value) ∈ fields → name ∉ rest.keys) :
    (flattened fields rest).Distinct := by
  rw [OrderedMap.Distinct, flattened, OrderedMap.keys, List.map_append]
  refine List.nodup_append.mpr ⟨(keys_flatMap_sublist fields).nodup hfields, hrest, ?_⟩
  intro name hname other hother heq
  subst heq
  obtain ⟨⟨_, value⟩, hentry, rfl⟩ := List.mem_map.mp hname
  exact apart _ value (mem_flatMap_optionalMember.mp hentry) hother

/-- If further nothing is repeated inside, the object repeats nothing at all. -/
theorem distinct_obj_flattened (hfields : fields.Distinct) (hrest : (Json.obj rest).Distinct)
    (apart : ∀ name value, (name, some value) ∈ fields → name ∉ rest.keys)
    (values : ∀ name value, (name, some value) ∈ fields → value.Distinct) :
    (Json.obj (flattened fields rest)).Distinct := by
  obtain ⟨hkeys, hmembers⟩ := Json.distinct_obj_iff.mp hrest
  refine Json.distinct_obj_iff.mpr ⟨distinct_flattened hfields hkeys apart, fun entry hentry => ?_⟩
  rcases List.mem_append.mp hentry with hfield | hmem
  · exact values entry.1 entry.2 (mem_flatMap_optionalMember.mp hfield)
  · exact hmembers entry hmem

/-! ## 2. Reading -/

/-- A field is found under its name, if it is present. -/
theorem get?_flattened (hfields : fields.Distinct) {name : String} {value : Option Json}
    (hmem : (name, value) ∈ fields) (apart : name ∉ rest.keys) :
    (flattened fields rest).get? name = value := by
  rw [flattened, OrderedMap.get?_append, OrderedMap.get?_eq_none_iff.mpr apart, Option.or_none]
  cases value with
  | some value =>
      refine OrderedMap.Distinct.get?_of_mem ((keys_flatMap_sublist fields).nodup hfields) ?_
      exact mem_flatMap_optionalMember.mpr hmem
  | none =>
      rw [OrderedMap.get?_eq_none_iff]
      intro hname
      obtain ⟨⟨_, found⟩, hentry, rfl⟩ := List.mem_map.mp hname
      -- the name would be that of two fields, of one that is present and of one that is not
      have hfound := hfields.get?_of_mem (mem_flatMap_optionalMember.mp hentry)
      rw [hfields.get?_of_mem hmem] at hfound
      exact absurd hfound nofun

/-- Under the name of a field that is absent another member may stand. -/
theorem get?_flattened_of_absent (hfields : fields.Distinct) {name : String}
    (hmem : (name, none) ∈ fields) : (flattened fields rest).get? name = rest.get? name := by
  have hnone : (flattened fields []).get? name = none :=
    get?_flattened hfields hmem List.not_mem_nil
  rw [flattened, List.append_nil] at hnone
  rw [flattened, OrderedMap.get?_append, hnone, Option.none_or]

/-- What is no field is found among the other members. -/
theorem get?_flattened_of_not_mem {name : String} (h : name ∉ fields.keys) :
    (flattened fields rest).get? name = rest.get? name := by
  have hnone : OrderedMap.get?
      (fields.flatMap fun field => optionalMember field.1 field.2) name = none :=
    OrderedMap.get?_eq_none_iff.mpr fun hmem => h ((keys_flatMap_sublist fields).subset hmem)
  rw [flattened, OrderedMap.get?_append, hnone, Option.none_or]

/-- A field that is present and not `null` is read as it was written, and so is an absent one. -/
theorem presentField?_flattened (hfields : fields.Distinct) {name : String} {value : Option Json}
    (hmem : (name, value) ∈ fields) (apart : name ∉ rest.keys) (hnull : value ≠ some .null) :
    presentField? (flattened fields rest) name = value := by
  rw [presentField?, get?_flattened hfields hmem apart]
  split
  · exact absurd rfl hnull
  · rfl

/-- Where no member is named like a field, the members that are no fields are the others. -/
theorem passedThrough_flattened (hrest : (Json.obj rest).Distinct)
    (apart : ∀ name ∈ fields.keys, name ∉ rest.keys) :
    passedThrough fields.keys (flattened fields rest) = rest := by
  have hnone : OrderedMap.without
      (fields.flatMap fun field => optionalMember field.1 field.2) fields.keys = [] := by
    refine List.filter_eq_nil_iff.mpr fun entry hentry => ?_
    have hname : entry.1 ∈ fields.keys :=
      (keys_flatMap_sublist fields).subset (List.mem_map_of_mem hentry)
    simpa using hname
  have hall : OrderedMap.without rest fields.keys = rest := by
    refine List.filter_eq_self.mpr fun entry hentry => ?_
    have hname : entry.1 ∉ fields.keys := fun h => apart _ h (List.mem_map_of_mem hentry)
    simpa using hname
  have hwithout : OrderedMap.without (flattened fields rest) fields.keys = rest := by
    rw [OrderedMap.without] at hnone hall ⊢
    rw [flattened, List.filter_append, hnone, hall, List.nil_append]
  have hcollapse := hrest.collapse_eq
  rw [Json.collapse] at hcollapse
  rw [passedThrough, hwithout, Json.collapseRecord]
  exact Json.obj.inj hcollapse

/-- A field that repeats nothing is what it collapses to. -/
theorem map_collapse_eq {value? : Option Json} (h : ∀ value, value? = some value → value.Distinct) :
    value?.map Json.collapse = value? := by
  cases value? with
  | none => rfl
  | some value => exact congrArg some (h value rfl).collapse_eq

/-- A field that is written as an object is not `null`. -/
theorem map_obj_ne_null {α : Type} (members : α → Attributes) (field : Option α) :
    field.map (fun a => Json.obj (members a)) ≠ some .null := by
  cases field with
  | none => exact nofun
  | some a => exact nofun

/-- An optional field is read back, if what was written for its value is. -/
theorem readField?_map {α : Type} {read : Json → Option α} {write : α → Json} {back : α → α}
    {field : Option α} (h : ∀ a, field = some a → read (write a) = some (back a)) :
    readField? read (field.map write) = some (field.map back) := by
  cases field with
  | none => rfl
  | some a =>
      rw [Option.map_some, readField?, h a rfl]
      rfl

/-- Where no member is repeated, no field comes twice. -/
theorem fieldsOnce_of_distinct {members : Attributes} (h : members.Distinct)
    (names : List String) : fieldsOnce names members = true := by
  rw [fieldsOnce, List.all_eq_true]
  intro name _
  exact decide_eq_true (List.nodup_iff_count_le_one.mp h name)

/-- Collapsing values changes no key. -/
theorem Json.keys_collapseMembers (members : List (String × Json)) :
    OrderedMap.keys (collapseMembers members) = OrderedMap.keys members := by
  induction members with
  | nil => rfl
  | cons entry others ih => exact congrArg (entry.1 :: ·) ih

/-- No field is among the members that are passed through. -/
theorem not_mem_keys_passedThrough {names : List String} {name : String} (h : name ∈ names)
    (members : List (String × Json)) : name ∉ (passedThrough names members).keys := by
  rw [passedThrough, Json.collapseRecord, OrderedMap.keys_ofBindings, List.mem_eraseDups,
    Json.keys_collapseMembers, ← OrderedMap.get?_eq_none_iff, OrderedMap.get?_without, if_pos h]

/-- A field that is read as present is not `null`. -/
theorem presentField?_ne_null (members : List (String × Json)) (name : String) :
    presentField? members name ≠ some .null := by
  rw [presentField?]
  split
  · exact nofun
  · assumption

end Statechart
