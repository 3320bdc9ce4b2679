/-
`Proofs/Reading.lean` -- reading values that repeat no member.

Where no member is repeated, reading is a matter of looking up: a field is what stands under its
name, and a table has the keys of its object, in their order, with what its reader gives for each of
them. So transitions and states are read field by field.
-/
import Statechart.Proofs.Written

set_option autoImplicit false

namespace Statechart

/-! ## 1. Fields -/

theorem presentField?_eq_some_iff {members : Attributes} {name : String} {value : Json} :
    presentField? members name = some value ↔ members.get? name = some value ∧ value ≠ .null := by
  constructor
  · intro h
    have hne : value ≠ .null := by
      rintro rfl
      exact presentField?_ne_null members name h
    rw [presentField?] at h
    split at h
    · cases h
    · exact ⟨h, hne⟩
  · rintro ⟨h, hne⟩
    rw [presentField?, h]
    split
    · next heq => exact absurd (Option.some.inj heq) hne
    · rfl

/-- An optional field can be read where its value, if it is present, can. -/
theorem isSome_readField?_iff {α : Type} {read : Json → Option α} {field : Option Json} :
    (readField? read field).isSome ↔ ∀ value, field = some value → (read value).isSome := by
  cases field with
  | none => simp [readField?]
  | some value => simp [readField?]

section Members

variable {members : Attributes} (h : (Json.obj members).Distinct)
include h

theorem distinct_of_presentField? {name : String} {value : Json}
    (hvalue : presentField? members name = some value) : value.Distinct :=
  h.of_get? (presentField?_eq_some_iff.mp hvalue).1

/-- A field is read as it stands. -/
theorem map_collapse_presentField? (name : String) :
    (presentField? members name).map Json.collapse = presentField? members name :=
  map_collapse_eq fun _ => distinct_of_presentField? h

/-- What is no field is passed through as it stands. -/
theorem passedThrough_eq_without (names : List String) :
    passedThrough names members = members.without names := by
  have hcollapse := (h.without names).collapse_eq
  rw [Json.collapse] at hcollapse
  exact Json.obj.inj hcollapse

theorem recordOfJson?_obj : recordOfJson? (.obj members) = some members := by
  have hcollapse := h.collapse_eq
  rw [Json.collapse] at hcollapse
  exact congrArg some (Json.obj.inj hcollapse)

end Members

/-! ## 2. Tables -/

section Tables

variable {α : Type} {read : Json → Option α}

/-- Read a table with a reader for its values; each of them has to be readable. -/
def readTable (read : Json → Option α) : Json → Option (OrderedMap α)
  | .obj members => (members.mapM fun entry => (read entry.2).map fun a => (entry.1, a)).map
      OrderedMap.ofBindings
  | _ => none

theorem Transition.tableOfJson?_eq (value : Json) :
    tableOfJson? value = readTable ofJson? value := by
  cases value <;> rfl

theorem StateNode.tableOfJson?_eq (value : Json) :
    tableOfJson? value = readTable ofJson? value := by
  cases value with
  | obj members =>
      rw [tableOfJson?, readTable]
      congr 1
      induction members with
      | nil => rfl
      | cons entry rest ih =>
          obtain ⟨id, value⟩ := entry
          rw [tableOfMembers?, List.mapM_cons, ih]
          generalize (rest.mapM fun entry : String × Json =>
            (ofJson? entry.2).map fun a => (entry.1, a)) = others?
          cases ofJson? value with
          | none => rfl
          | some node => cases others? <;> rfl
  | null | bool _ | num _ | str _ | arr _ => rfl

/-- What is read from an object without repetition has its keys, in their order, and under each of
them what its reader gives. -/
theorem readTable_obj_eq_some_iff {members : Attributes} (h : members.Distinct)
    {table : OrderedMap α} :
    readTable read (.obj members) = some table ↔
      OrderedMap.Alike (fun value a => read value = some a) members table := by
  have hentries : ∀ entries : List (String × α),
      members.mapM (fun entry => (read entry.2).map fun a => (entry.1, a)) = some entries ↔
        OrderedMap.Alike (fun value a => read value = some a) members entries := by
    intro entries
    rw [mapM_eq_some_iff, OrderedMap.Alike]
    have hentry : ∀ (member : String × Json) (entry : String × α),
        ((read member.2).map fun a => (member.1, a)) = some entry ↔
          member.1 = entry.1 ∧ read member.2 = some entry.2 := by
      rintro ⟨key, value⟩ ⟨key', a⟩
      simp [Option.map_eq_some_iff, and_comm]
    simp only [hentry]
  -- keys are as distinct among the entries as among the members, so the entries are the table
  have hdistinct : ∀ {entries : OrderedMap α},
      OrderedMap.Alike (fun value a => read value = some a) members entries →
        OrderedMap.ofBindings entries = entries := by
    intro entries halike
    refine OrderedMap.Distinct.ofBindings_eq ?_
    rw [OrderedMap.Distinct, ← halike.keys_eq]
    exact h
  rw [readTable, Option.map_eq_some_iff]
  constructor
  · rintro ⟨entries, hread, rfl⟩
    have halike := (hentries entries).mp hread
    rwa [hdistinct halike]
  · intro halike
    exact ⟨table, (hentries table).mpr halike, hdistinct halike⟩

/-- Under each key stands what is read there. -/
theorem get?_readTable {members : Attributes} (h : members.Distinct) {table : OrderedMap α}
    (hread : readTable read (.obj members) = some table) (key : String) :
    table.get? key = (members.get? key).bind read := by
  have hrel := ((readTable_obj_eq_some_iff h).mp hread).get? key
  generalize members.get? key = value?, table.get? key = a? at hrel ⊢
  cases hrel with
  | none => rfl
  | some hvalue => exact hvalue.symm

/-- A table can be read where each of its values can. -/
theorem isSome_readTable_obj_iff {members : Attributes} :
    (readTable read (.obj members)).isSome ↔ ∀ entry ∈ members, (read entry.2).isSome := by
  rw [readTable, Option.isSome_map]
  induction members with
  | nil => simp
  | cons entry rest ih =>
      rw [List.forall_mem_cons, ← ih, List.mapM_cons]
      generalize (rest.mapM fun entry : String × Json =>
        (read entry.2).map fun a => (entry.1, a)) = others?
      cases read entry.2 with
      | none => simp
      | some a => cases others? <;> simp

end Tables

/-! ## 3. Transitions and states -/

section Fields

variable {members : Attributes} (h : (Json.obj members).Distinct)
include h

/-- A transition is read from every object. -/
theorem Transition.ofJson?_obj :
    ofJson? (.obj members) = some
      { target := presentField? members "target", attributes := members.without fields } := by
  rw [ofJson?, if_pos (fieldsOnce_of_distinct (Json.distinct_obj_iff.mp h).1 fields),
    map_collapse_presentField? h, passedThrough_eq_without h]

/-- A state is read field by field. -/
theorem StateNode.ofJson?_obj :
    ofJson? (.obj members) =
      (readField? tableOfJson? (presentField? members "states")).bind fun states =>
        (readField? Transition.tableOfJson? (presentField? members "on")).bind fun on =>
          (readField? recordOfJson? (presentField? members "invoke")).map fun invoke =>
            { entry := presentField? members "entry"
              exit := presentField? members "exit"
              on
              invoke
              states
              attributes := members.without fields } := by
  have honce : (guard (fieldsOnce fields members) : Option Unit) = some () :=
    if_pos (fieldsOnce_of_distinct (Json.distinct_obj_iff.mp h).1 fields)
  rw [ofJson?, nestedOfMembers?_eq]
  cases readField? tableOfJson? (presentField? members "states") with
  | none => rfl
  | some states =>
      show ofMembers? members states = _
      rw [ofMembers?, honce, map_collapse_presentField? h, map_collapse_presentField? h,
        passedThrough_eq_without h, Option.bind_some]
      cases readField? Transition.tableOfJson? (presentField? members "on") with
      | none => rfl
      | some on => cases readField? recordOfJson? (presentField? members "invoke") <;> rfl

end Fields

end Statechart
