/-
`Proofs/RawStates.lean` -- raw states: which values are read as states, and what becomes of them.

A machine without states of its own takes them from its raw members, if they can be read. What can
be read is given by a small grammar, and what is written again for it is the value itself: only
fields that are `null` are gone, and the members of an object may stand in another order. What
cannot be read stays where it was.
-/
import Statechart.Proofs.Reading
import Statechart.Proofs.Rearranged
import Statechart.Proofs.Settled

set_option autoImplicit false

namespace Statechart

/-! ## 1. Values that are read as states -/

namespace Json

/-- The value is an object. -/
def IsObject (value : Json) : Prop := ∃ members, value = .obj members

/-- The value is an object, and all its members have the property. -/
def ObjectOf (p : Json → Prop) (value : Json) : Prop :=
  ∃ members : Attributes, value = .obj members ∧ ∀ entry ∈ members, p entry.2

/-- The value is `null`, or else it has the property. -/
def NullOr (p : Json → Prop) (value : Json) : Prop := value = .null ∨ p value

mutual
/-- The value spells a state: an object with a table of transitions, a block and a table of states
where it has members of these names, and with anything else besides. -/
inductive StateObject : Json → Prop
  | obj {members : Attributes}
      (on : ∀ value, members.get? "on" = some value → value.NullOr (ObjectOf IsObject))
      (invoke : ∀ value, members.get? "invoke" = some value → value.NullOr IsObject)
      (states : ∀ value, members.get? "states" = some value → NestedStates value) :
      StateObject (.obj members)
/-- The value is `null`, or else an object whose members all spell states. -/
inductive NestedStates : Json → Prop
  | null : NestedStates .null
  | obj {table : Attributes} (states : ∀ entry ∈ table, StateObject entry.2) :
      NestedStates (.obj table)
end

theorem nestedStates_iff {value : Json} :
    NestedStates value ↔ value.NullOr (ObjectOf StateObject) := by
  constructor
  · intro h
    cases h with
    | null => exact .inl rfl
    | @obj table states => exact .inr ⟨table, rfl, states⟩
  · rintro (rfl | ⟨table, rfl, states⟩)
    · exact .null
    · exact .obj states

/-- The members of an object that spells a state. -/
theorem stateObject_obj_iff {members : Attributes} :
    StateObject (.obj members) ↔
      (∀ value, members.get? "on" = some value → value.NullOr (ObjectOf IsObject)) ∧
        (∀ value, members.get? "invoke" = some value → value.NullOr IsObject) ∧
        ∀ value, members.get? "states" = some value → value.NullOr (ObjectOf StateObject) := by
  simp only [← nestedStates_iff]
  constructor
  · rintro ⟨on, invoke, states⟩
    exact ⟨on, invoke, states⟩
  · rintro ⟨on, invoke, states⟩
    exact .obj on invoke states

theorem ObjectOf.isObject {p : Json → Prop} {value : Json} (h : value.ObjectOf p) :
    value.IsObject := by
  obtain ⟨members, rfl, -⟩ := h
  exact ⟨members, rfl⟩

theorem StateObject.isObject {value : Json} (h : value.StateObject) : value.IsObject := by
  cases h with
  | @obj members => exact ⟨members, rfl⟩

theorem not_isObject {value : Json} (h : value.members? = none) : ¬value.IsObject := by
  rintro ⟨members, rfl⟩
  cases h

end Json

section Present

variable {members : Attributes} {name : String} {p : Json → Prop}

/-- What is to hold of a field if it is present, where `null` is not. -/
theorem forall_presentField?_iff :
    (∀ value, presentField? members name = some value → p value) ↔
      ∀ value, members.get? name = some value → value.NullOr p := by
  constructor
  · intro h value hvalue
    by_cases hnull : value = .null
    · exact .inl hnull
    · exact .inr (h value (presentField?_eq_some_iff.mpr ⟨hvalue, hnull⟩))
  · intro h value hvalue
    obtain ⟨hget, hne⟩ := presentField?_eq_some_iff.mp hvalue
    exact (h value hget).resolve_left hne

/-- A field can be read where it is absent or `null`, or else its value can. -/
theorem isSome_readField?_presentField?_iff {α : Type} {read : Json → Option α}
    (h : ∀ value, presentField? members name = some value → ((read value).isSome ↔ p value)) :
    (readField? read (presentField? members name)).isSome ↔
      ∀ value, members.get? name = some value → value.NullOr p := by
  rw [isSome_readField?_iff, ← forall_presentField?_iff]
  exact forall_congr' fun value => forall_congr' (h value)

end Present

/-- Members can be read as a table where each of them can. -/
theorem isSome_readTable_iff {α : Type} {read : Json → Option α} {p : Json → Prop} {value : Json}
    (h : ∀ members, value = .obj members → ∀ entry ∈ members, ((read entry.2).isSome ↔ p entry.2)) :
    (readTable read value).isSome ↔ value.ObjectOf p := by
  cases value with
  | obj members =>
      rw [isSome_readTable_obj_iff]
      constructor
      · intro hread
        exact ⟨members, rfl, fun entry hentry => (h members rfl entry hentry).mp (hread entry hentry)⟩
      · rintro ⟨_, heq, hp⟩ entry hentry
        cases heq
        exact (h members rfl entry hentry).mpr (hp entry hentry)
  | null | bool _ | num _ | str _ | arr _ =>
      exact iff_of_false Bool.false_ne_true fun hp => Json.not_isObject rfl hp.isObject

theorem isSome_recordOfJson?_iff {value : Json} :
    (recordOfJson? value).isSome ↔ value.IsObject := by
  cases value with
  | obj members => exact iff_of_true rfl ⟨members, rfl⟩
  | null | bool _ | num _ | str _ | arr _ =>
      exact iff_of_false Bool.false_ne_true (Json.not_isObject rfl)

theorem Transition.isSome_ofJson?_iff {value : Json} (h : value.Distinct) :
    (ofJson? value).isSome ↔ value.IsObject := by
  cases value with
  | obj members =>
      rw [ofJson?_obj h]
      exact iff_of_true rfl ⟨members, rfl⟩
  | null | bool _ | num _ | str _ | arr _ =>
      exact iff_of_false Bool.false_ne_true (Json.not_isObject rfl)

theorem Transition.isSome_tableOfJson?_iff {value : Json} (h : value.Distinct) :
    (tableOfJson? value).isSome ↔ value.ObjectOf Json.IsObject := by
  rw [tableOfJson?_eq]
  refine isSome_readTable_iff ?_
  rintro members rfl entry hentry
  exact isSome_ofJson?_iff ((Json.distinct_obj_iff.mp h).2 entry hentry)

namespace StateNode

/-- **What is read as a state.** A value without repetition is read as a state exactly where it
spells one, and as a table of states exactly where it is an object all of whose members do. -/
theorem isSome_ofJson?_and_tableOfJson?_iff (value : Json) : value.Distinct →
    ((ofJson? value).isSome ↔ value.StateObject) ∧
      ((tableOfJson? value).isSome ↔ value.ObjectOf Json.StateObject) := by
  induction value using Json.induct with
  | obj members ih =>
      intro h
      have hvalues := (Json.distinct_obj_iff.mp h).2
      refine ⟨?_, ?_⟩
      · have hon : (readField? Transition.tableOfJson? (presentField? members "on")).isSome ↔
            ∀ value, members.get? "on" = some value → value.NullOr (Json.ObjectOf Json.IsObject) :=
          isSome_readField?_presentField?_iff fun value hvalue =>
            Transition.isSome_tableOfJson?_iff (distinct_of_presentField? h hvalue)
        have hinvoke : (readField? recordOfJson? (presentField? members "invoke")).isSome ↔
            ∀ value, members.get? "invoke" = some value → value.NullOr Json.IsObject :=
          isSome_readField?_presentField?_iff fun _ _ => isSome_recordOfJson?_iff
        have hstates : (readField? tableOfJson? (presentField? members "states")).isSome ↔
            ∀ value, members.get? "states" = some value →
              value.NullOr (Json.ObjectOf Json.StateObject) := by
          refine isSome_readField?_presentField?_iff fun value hvalue => ?_
          -- the table of states is one of the members, so the claim holds of it
          have hmem := OrderedMap.mem_of_get? (presentField?_eq_some_iff.mp hvalue).1
          exact (ih _ hmem (hvalues _ hmem)).2
        rw [ofJson?_obj h, Json.stateObject_obj_iff, ← hstates, ← hon, ← hinvoke]
        cases readField? tableOfJson? (presentField? members "states") with
        | none => simp
        | some states =>
            cases readField? Transition.tableOfJson? (presentField? members "on") with
            | none => simp
            | some on => simp
      · rw [tableOfJson?_eq]
        refine isSome_readTable_iff ?_
        intro _ heq entry hentry
        cases heq
        exact (ih entry hentry (hvalues entry hentry)).1
  | null | bool | num | str | arr =>
      intro _
      exact ⟨iff_of_false Bool.false_ne_true fun hstate => Json.not_isObject rfl hstate.isObject,
        iff_of_false Bool.false_ne_true fun hstates => Json.not_isObject rfl hstates.isObject⟩

end StateNode

/-! ## 2. Fields that are `null` -/

/-- The members without the named ones that are `null`. -/
def Attributes.withoutNulls (names : List String) (members : Attributes) : Attributes :=
  members.filter fun entry => !(entry.2 == .null && names.contains entry.1)

namespace Json

/-- The value of a transition without a `null` for its target. -/
def transitionWithoutNulls : Json → Json
  | .obj members => .obj (Attributes.withoutNulls Transition.fields members)
  | value => value

mutual
/-- The value of a state without fields that are `null`: in the state, in its transitions and in the
states in it. -/
def stateWithoutNulls : Json → Json
  | .obj members => .obj (Attributes.withoutNulls StateNode.fields (membersWithoutNulls members))
  | value => value
/-- The members of a state, with such fields gone from its transitions and from the states in it. -/
def membersWithoutNulls : List (String × Json) → List (String × Json)
  | [] => []
  | (name, value) :: rest => (name, memberWithoutNulls name value) :: membersWithoutNulls rest
/-- The member of a state under a name. Only transitions and states have fields. -/
def memberWithoutNulls (name : String) : Json → Json
  | .obj members =>
      if name = "on" then .obj (OrderedMap.mapValues transitionWithoutNulls members)
      else if name = "states" then .obj (entriesWithoutNulls members)
      else .obj members
  | value => value
/-- A table of states, entry by entry. -/
def entriesWithoutNulls : List (String × Json) → List (String × Json)
  | [] => []
  | (id, value) :: rest => (id, value.stateWithoutNulls) :: entriesWithoutNulls rest
end

/-- The value of a table of states without fields that are `null`. -/
def statesWithoutNulls (value : Json) : Json := memberWithoutNulls "states" value

end Json

theorem Attributes.distinct_withoutNulls {members : Attributes} (h : OrderedMap.Distinct members)
    (names : List String) : OrderedMap.Distinct (withoutNulls names members) :=
  (List.filter_sublist.map Prod.fst).nodup h

/-- A named member is found as a field is, and any other as it stands. -/
theorem Attributes.get?_withoutNulls {members : Attributes} (h : OrderedMap.Distinct members)
    (names : List String) (key : String) :
    OrderedMap.get? (withoutNulls names members) key
      = if key ∈ names then presentField? members key else OrderedMap.get? members key := by
  have hdistinct := distinct_withoutNulls h names
  cases hfound : OrderedMap.get? members key with
  | none =>
      have hnone : OrderedMap.get? (withoutNulls names members) key = none := by
        rw [OrderedMap.get?_eq_none_iff] at hfound ⊢
        exact fun hmem => hfound ((List.filter_sublist.map Prod.fst).subset hmem)
      rw [hnone, presentField?, hfound, ite_self]
  | some value =>
      by_cases hgone : value = .null ∧ key ∈ names
      · obtain ⟨rfl, hkey⟩ := hgone
        rw [if_pos hkey, presentField?, hfound]
        -- what is left under this key would stand among the members, and there stands `null`
        cases hleft : OrderedMap.get? (withoutNulls names members) key with
        | none => rfl
        | some other =>
            obtain ⟨hmem, hkept⟩ := List.mem_filter.mp (OrderedMap.mem_of_get? hleft)
            rw [h.get?_of_mem hmem] at hfound
            cases hfound
            simp [hkey] at hkept
      · have hmem : (key, value) ∈ withoutNulls names members := by
          have hkept := not_and_or.mp hgone
          exact List.mem_filter.mpr ⟨OrderedMap.mem_of_get? hfound, by simpa using hkept⟩
        rw [hdistinct.get?_of_mem hmem]
        by_cases hkey : key ∈ names
        · rw [if_pos hkey]
          exact (presentField?_eq_some_iff.mpr ⟨hfound, fun hnull => hgone ⟨hnull, hkey⟩⟩).symm
        · rw [if_neg hkey]

namespace Json

theorem get?_membersWithoutNulls (members : Attributes) (key : String) :
    OrderedMap.get? (membersWithoutNulls members) key
      = (members.get? key).map (memberWithoutNulls key) := by
  induction members with
  | nil => rfl
  | cons entry rest ih =>
      obtain ⟨name, value⟩ := entry
      rw [membersWithoutNulls, OrderedMap.get?_cons, OrderedMap.get?_cons, ih]
      by_cases h : name = key
      · rw [if_pos h, if_pos h, h, Option.map_some]
      · rw [if_neg h, if_neg h]

theorem distinct_membersWithoutNulls {members : Attributes} (h : members.Distinct) :
    OrderedMap.Distinct (membersWithoutNulls members) := by
  have hkeys : OrderedMap.keys (membersWithoutNulls members) = members.keys := by
    clear h
    induction members with
    | nil => rfl
    | cons entry rest ih => exact congrArg (entry.1 :: ·) ih
  rw [OrderedMap.Distinct, hkeys]
  exact h

theorem memberWithoutNulls_eq_null_iff (name : String) (value : Json) :
    memberWithoutNulls name value = .null ↔ value = .null := by
  cases value with
  | obj members =>
      rw [memberWithoutNulls]
      split
      · simp
      · split <;> simp
  | null | bool _ | num _ | str _ | arr _ => rfl

/-- A field is present in what becomes of the members where it is present among them. -/
theorem presentField?_membersWithoutNulls (members : Attributes) (key : String) :
    presentField? (membersWithoutNulls members) key
      = (presentField? members key).map (memberWithoutNulls key) := by
  cases hfound : members.get? key with
  | none =>
      rw [presentField?, presentField?, get?_membersWithoutNulls, hfound]
      rfl
  | some value =>
      by_cases hnull : value = .null
      · subst hnull
        rw [presentField?, presentField?, get?_membersWithoutNulls, hfound]
        rfl
      · rw [presentField?_eq_some_iff.mpr ⟨hfound, hnull⟩, Option.map_some,
          presentField?_eq_some_iff, get?_membersWithoutNulls, hfound]
        exact ⟨rfl, fun h => hnull ((memberWithoutNulls_eq_null_iff key value).mp h)⟩

/-- Nothing becomes of a member that is neither a table of transitions nor one of states. -/
theorem memberWithoutNulls_of_ne {key : String} (hon : key ≠ "on") (hstates : key ≠ "states")
    (value : Json) : memberWithoutNulls key value = value := by
  cases value with
  | obj members => rw [memberWithoutNulls, if_neg hon, if_neg hstates]
  | null | bool _ | num _ | str _ | arr _ => rfl

/-- A state without nulls has the fields that are present, and its other members as they were. -/
theorem get?_stateWithoutNulls {members : Attributes} (h : members.Distinct) (key : String) :
    OrderedMap.get? (Attributes.withoutNulls StateNode.fields (membersWithoutNulls members)) key
      = if key ∈ StateNode.fields then (presentField? members key).map (memberWithoutNulls key)
        else members.get? key := by
  rw [Attributes.get?_withoutNulls (distinct_membersWithoutNulls h), presentField?_membersWithoutNulls,
    get?_membersWithoutNulls]
  by_cases hkey : key ∈ StateNode.fields
  · rw [if_pos hkey, if_pos hkey]
  · have hon : key ≠ "on" := fun e => hkey (e ▸ by simp [StateNode.fields])
    have hstates : key ≠ "states" := fun e => hkey (e ▸ by simp [StateNode.fields])
    rw [if_neg hkey, if_neg hkey, funext (memberWithoutNulls_of_ne hon hstates), Option.map_id']

theorem entriesWithoutNulls_eq (table : Attributes) :
    entriesWithoutNulls table = OrderedMap.mapValues stateWithoutNulls table := by
  induction table with
  | nil => rfl
  | cons entry rest ih =>
      rw [entriesWithoutNulls, ih]
      rfl

end Json

/-! ## 3. What is written for what is read -/

/-- What is written for a field, up to order, if what its reader gives is written so. -/
theorem rel_of_readField? {α : Type} {read : Json → Option α} {write : α → Json}
    {f : Json → Json} {field : Option Json} {result : Option α}
    (hread : readField? read field = some result)
    (h : ∀ value a, field = some value → read value = some a → (f value).Reordered (write a)) :
    Option.Rel Json.Reordered (field.map f) (result.map write) := by
  cases field with
  | none =>
      cases hread
      exact .none
  | some value =>
      obtain ⟨a, ha, rfl⟩ := Option.map_eq_some_iff.mp hread
      exact .some (h value a rfl ha)

/-- What is written for a table, up to order, if what is read of each value is written so. -/
theorem reordered_of_readTable {α : Type} {read : Json → Option α} {write : α → Json}
    {f : Json → Json} {members : Attributes} (distinct : members.Distinct) {table : OrderedMap α}
    (hread : readTable read (.obj members) = some table)
    (h : ∀ entry ∈ members, ∀ a, read entry.2 = some a → (f entry.2).Reordered (write a)) :
    (Json.obj (OrderedMap.mapValues f members)).Reordered (.obj (table.mapValues write)) := by
  have halike := (readTable_obj_eq_some_iff distinct).mp hread
  exact Json.reordered_obj_of_alike ((halike.imp_of_mem h).mapValues fun _ _ hrel => hrel)

/-- Two objects are equal up to order where the fields that are present in the one are those of the
other, and the members that are no fields are the same. -/
theorem reordered_flattened {fields : OrderedMap (Option Json)} {names : List String}
    (hnames : fields.keys = names) {members left : Attributes} (hfields : fields.Distinct)
    (hmembers : members.Distinct) (hleft : left.Distinct)
    (hrest : ∀ key ∉ names, left.get? key = members.get? key)
    (hfield : ∀ name value, (name, value) ∈ fields →
      Option.Rel Json.Reordered (left.get? name) value) :
    (Json.obj left).Reordered (.obj (flattened fields (members.without names))) := by
  subst hnames
  have hapart : ∀ name ∈ fields.keys, name ∉ (members.without fields.keys).keys :=
    fun name hname => OrderedMap.not_mem_keys_without hname
  have hright := distinct_flattened hfields (hmembers.without fields.keys)
    fun name value hmem => hapart name (List.mem_map_of_mem (f := Prod.fst) hmem)
  refine Json.reordered_obj_iff.mpr (hleft.rearranged hright fun key => ?_)
  by_cases hkey : key ∈ fields.keys
  · obtain ⟨⟨name, value⟩, hmem, rfl⟩ := List.mem_map.mp hkey
    rw [get?_flattened hfields hmem (hapart name hkey)]
    exact hfield name value hmem
  · rw [get?_flattened_of_not_mem hkey, OrderedMap.get?_without, if_neg hkey, hrest key hkey]
    exact rel_self fun value _ => .refl value

namespace Transition

/-- What is read as a transition is written as it was, but for a target that is `null`. -/
theorem reordered_written {value : Json} (h : value.Distinct) {transition : Transition}
    (hread : ofJson? value = some transition) :
    value.transitionWithoutNulls.Reordered transition.written := by
  cases value with
  | obj members =>
      have hmembers := (Json.distinct_obj_iff.mp h).1
      rw [ofJson?_obj h] at hread
      cases hread
      rw [written_eq]
      refine reordered_flattened (keys_fieldValues _) (distinct_fieldValues _) hmembers
        (Attributes.distinct_withoutNulls hmembers fields) ?_ ?_
      · intro key hkey
        rw [Attributes.get?_withoutNulls hmembers, if_neg hkey]
      · intro name value hmem
        obtain ⟨rfl, rfl⟩ := Prod.mk.inj (List.mem_singleton.mp hmem)
        have hname : "target" ∈ fields := List.mem_singleton.mpr rfl
        rw [Attributes.get?_withoutNulls hmembers, if_pos hname]
        exact rel_self fun value _ => .refl value
  | null | bool _ | num _ | str _ | arr _ => cases hread

/-- So is a table of transitions. -/
theorem reordered_writtenTable {value : Json} (h : value.Distinct) {table : TransitionTable}
    (hread : tableOfJson? value = some table) :
    (Json.memberWithoutNulls "on" value).Reordered (writtenTable table) := by
  rw [tableOfJson?_eq] at hread
  cases value with
  | obj members =>
      obtain ⟨hmembers, hvalues⟩ := Json.distinct_obj_iff.mp h
      refine reordered_of_readTable hmembers hread fun entry hentry transition htransition => ?_
      exact reordered_written (hvalues entry hentry) htransition
  | null | bool _ | num _ | str _ | arr _ => cases hread

end Transition

namespace StateNode

theorem tableMembers_eq (table : StateTable) :
    tableMembers table = OrderedMap.mapValues written table := by
  induction table with
  | nil => rfl
  | cons entry rest ih =>
      rw [tableMembers, ih]
      rfl

/-- What is read as a state is written field by field, if the states in it are. -/
theorem reordered_written_of_states {members : Attributes} (h : (Json.obj members).Distinct)
    (hstates : ∀ value table, presentField? members "states" = some value →
      tableOfJson? value = some table → value.statesWithoutNulls.Reordered (writtenTable table))
    {node : StateNode} (hread : ofJson? (.obj members) = some node) :
    (Json.obj members).stateWithoutNulls.Reordered node.written := by
  have hmembers := (Json.distinct_obj_iff.mp h).1
  rw [ofJson?_obj h] at hread
  obtain ⟨states, hnested, hread⟩ := Option.bind_eq_some_iff.mp hread
  obtain ⟨on, hon, hread⟩ := Option.bind_eq_some_iff.mp hread
  obtain ⟨invoke, hinvoke, rfl⟩ := Option.map_eq_some_iff.mp hread
  have hhook : ∀ name ≠ "on", name ≠ "states" → Option.Rel Json.Reordered
      ((presentField? members name).map (Json.memberWithoutNulls name))
      (presentField? members name) := by
    intro name hname hname'
    rw [funext (Json.memberWithoutNulls_of_ne hname hname'), Option.map_id']
    exact rel_self fun value _ => .refl value
  rw [written, members_eq]
  refine reordered_flattened (keys_fieldValues _) (distinct_fieldValues _) hmembers
    (Attributes.distinct_withoutNulls (Json.distinct_membersWithoutNulls hmembers) fields) ?_ ?_
  · intro key hkey
    rw [Json.get?_stateWithoutNulls hmembers, if_neg hkey]
  · intro name value hmem
    have hname : name ∈ fields := List.mem_map_of_mem (f := Prod.fst) hmem
    rw [Json.get?_stateWithoutNulls hmembers, if_pos hname]
    simp only [fieldValues, List.mem_cons, List.not_mem_nil, or_false, Prod.mk.injEq] at hmem
    rcases hmem with ⟨rfl, rfl⟩ | ⟨rfl, rfl⟩ | ⟨rfl, rfl⟩ | ⟨rfl, rfl⟩ | ⟨rfl, rfl⟩
    · exact hhook "entry" (by decide) (by decide)
    · exact hhook "exit" (by decide) (by decide)
    · refine rel_of_readField? hon fun value table hvalue htable => ?_
      exact Transition.reordered_writtenTable (distinct_of_presentField? h hvalue) htable
    · refine rel_of_readField? hinvoke fun value block hvalue hblock => ?_
      cases value with
      | obj members' =>
          rw [recordOfJson?_obj (distinct_of_presentField? h hvalue)] at hblock
          cases hblock
          rw [Json.memberWithoutNulls_of_ne (by decide) (by decide)]
          exact .refl _
      | null | bool _ | num _ | str _ | arr _ => cases hblock
    · exact rel_of_readField? hnested hstates

/-- **What is written for a raw state.** What is read from a value without repetition is written as
that value without the fields that are `null`, up to the order of members. -/
theorem reordered_written (value : Json) : value.Distinct →
    (∀ node, ofJson? value = some node → value.stateWithoutNulls.Reordered node.written) ∧
      ∀ table, tableOfJson? value = some table →
        value.statesWithoutNulls.Reordered (writtenTable table) := by
  induction value using Json.induct with
  | obj members ih =>
      intro h
      obtain ⟨hmembers, hvalues⟩ := Json.distinct_obj_iff.mp h
      refine ⟨fun node hread => ?_, fun table hread => ?_⟩
      · refine reordered_written_of_states h (fun value table hvalue htable => ?_) hread
        have hmem := OrderedMap.mem_of_get? (presentField?_eq_some_iff.mp hvalue).1
        exact (ih _ hmem (hvalues _ hmem)).2 table htable
      · rw [tableOfJson?_eq] at hread
        show (Json.obj (Json.entriesWithoutNulls members)).Reordered (.obj (tableMembers table))
        rw [Json.entriesWithoutNulls_eq, tableMembers_eq]
        exact reordered_of_readTable hmembers hread fun entry hentry =>
          (ih entry hentry (hvalues entry hentry)).1
  | null | bool | num | str | arr =>
      intro _
      refine ⟨fun node hread => ?_, fun table hread => ?_⟩
      · cases hread
      · cases hread

end StateNode

/-! ## 4. The raw states of a machine -/

/-- The member of an object under a name, if the value is an object that has one. -/
def Json.member? (value : Json) (name : String) : Option Json :=
  value.members?.bind (OrderedMap.get? · name)

namespace Compile

/-- The raw states of a machine: those of the options record, or else those of the record in its
`config` attribute. -/
def rawStates? (attributes : Attributes) (options : OptionsRecord) : Option Json :=
  (options.config.get? "states").or ((configMembers attributes).get? "states")

theorem get?_rawMembers (attributes : Attributes) {options : OptionsRecord}
    (h : options.config.Distinct) (name : String) :
    (rawMembers attributes options).get? name
      = (options.config.get? name).or ((configMembers attributes).get? name) := by
  rw [rawMembers, OrderedMap.get?_extend, h.get?_reverse]

theorem distinct_rawStates? {attributes : Attributes} {options : OptionsRecord}
    (hattributes : (Json.obj attributes).Distinct) (hoptions : options.Distinct) {raw : Json}
    (hraw : rawStates? attributes options = some raw) : raw.Distinct := by
  have hconfig := (Json.distinct_obj_iff.mp hoptions.2).1
  rw [rawStates?, ← get?_rawMembers attributes hconfig] at hraw
  exact (distinct_rawMembers hattributes hoptions).of_get? hraw

/-- Where no child fills the table of states, it is what is read from the raw states. -/
theorem states_assembleConfig_none (attributes : Attributes) {options : OptionsRecord}
    (h : options.config.Distinct) :
    (assembleConfig attributes options none).states
      = (rawStates? attributes options).bind StateNode.tableOfJson? := by
  rw [rawStates?, ← get?_rawMembers attributes h]
  rfl

/-- Where there is no table, the raw states are left where they were. -/
theorem get?_extra_of_states_eq_none {attributes : Attributes} {options : OptionsRecord}
    (h : options.config.Distinct) (hnone : (assembleConfig attributes options none).states = none) :
    (assembleConfig attributes options none).extra.get? "states"
      = rawStates? attributes options := by
  have hstates : machineStates? none (rawMembers attributes options) = none := hnone
  simp only [assembleConfig, hstates]
  rw [OrderedMap.get?_without, if_neg (by decide), get?_rawMembers attributes h, rawStates?]

end Compile

namespace MachineConfig

variable {config : MachineConfig}

/-- The states of a configuration are written where no extra member has their name. -/
theorem Tidy.member?_toJson (h : config.Tidy) (separate : config.Separate)
    (apart : "states" ∉ config.extra.keys) :
    config.toJson.member? "states" = config.states.map StateNode.writtenTable := by
  rw [h.toJson_eq_written separate]
  show OrderedMap.get? config.members "states" = _
  rw [members_eq]
  exact get?_flattened config.distinct_fieldValues (by simp [fieldValues]) apart

/-- Without states of its own a configuration is written with the extra member of that name. -/
theorem Tidy.member?_toJson_of_none (h : config.Tidy) (separate : config.Separate)
    (none : config.states = none) :
    config.toJson.member? "states" = config.extra.get? "states" := by
  rw [h.toJson_eq_written separate]
  show OrderedMap.get? config.members "states" = _
  rw [members_eq]
  exact get?_flattened_of_absent config.distinct_fieldValues (by simp [fieldValues, none])

end MachineConfig

/-- **Raw states pass through.** Where a machine compiles and no state among its children has an id,
its states are the raw ones, if there are any. If these are an object whose members all spell
states, the configuration holds what is read from them and no extra member of their name, and what
is written for it is the object itself without fields that are `null`, up to the order of members.
Anything else cannot be read; then the configuration holds no states, and what is written is the raw
value as it stands. Without raw states none are written. -/
theorem raw_states_pass_through {run : Nat} {patcher : Patcher} {policy : Policy}
    {attributes : Attributes} {children : List Fragment} {machine : Blueprint}
    (distinct : (Json.obj attributes).Distinct)
    (distinctOptions : ((SplitChildren.leading? children).getD {}).Distinct)
    (unkeyed : ∀ node ∈ Siblings.states children, node.id = none)
    (compiled : (Compile.machine run patcher policy attributes children).result = .ok machine) :
    (∀ raw, Compile.rawStates? attributes ((SplitChildren.leading? children).getD {}) = some raw →
        (raw.ObjectOf Json.StateObject →
          ∃ table, StateNode.tableOfJson? raw = some table ∧
            machine.config.states = some table ∧ "states" ∉ machine.config.extra.keys ∧
              ∃ written, machine.config.toJson.member? "states" = some written ∧
                raw.statesWithoutNulls.Reordered written) ∧
        (¬raw.ObjectOf Json.StateObject →
          StateNode.tableOfJson? raw = none ∧ machine.config.states = none ∧
            machine.config.toJson.member? "states" = some raw)) ∧
      (Compile.rawStates? attributes ((SplitChildren.leading? children).getD {}) = none →
        machine.config.states = none ∧ machine.config.toJson.member? "states" = none) := by
  obtain ⟨-, rfl⟩ := Compile.result_machine_eq_ok_iff.mp compiled
  rw [Compile.machineOf, Siblings.mergeStates_withoutOptions, Siblings.mergeStates_eq_none unkeyed]
  generalize (SplitChildren.leading? children).getD {} = options at distinctOptions ⊢
  have hfolded : ∀ table : StateTable, none = some table →
      table.Distinct ∧ ∀ entry ∈ table, entry.2.Everywhere StateNode.Settled := by
    intro table h
    cases h
  have hseparate : (Compile.assembleConfig attributes options none).Separate :=
    Compile.separate_assembleConfig hfolded attributes options
  have htidy : (Compile.assembleConfig attributes options none).Tidy :=
    Compile.tidy_assembleConfig hfolded distinct distinctOptions
  have hoptions := (Json.distinct_obj_iff.mp distinctOptions.2).1
  have hstates := Compile.states_assembleConfig_none attributes hoptions
  refine ⟨fun raw hraw => ?_, fun hraw => ?_⟩
  · have hdistinct := Compile.distinct_rawStates? distinct distinctOptions hraw
    have hreadable := (StateNode.isSome_ofJson?_and_tableOfJson?_iff raw hdistinct).2
    rw [hraw, Option.bind_some] at hstates
    cases htable : StateNode.tableOfJson? raw with
    | some table =>
        rw [htable] at hstates hreadable
        have hapart : "states" ∉ (Compile.assembleConfig attributes options none).extra.keys := by
          intro hmem
          cases (hseparate.states hmem).symm.trans hstates
        refine ⟨fun _ => ⟨table, rfl, hstates, hapart, StateNode.writtenTable table, ?_, ?_⟩,
          fun hunreadable => absurd (hreadable.mp rfl) hunreadable⟩
        · rw [htidy.member?_toJson hseparate hapart, hstates]
          rfl
        · exact (StateNode.reordered_written raw hdistinct).2 table htable
    | none =>
        rw [htable] at hstates hreadable
        refine ⟨fun hstate => absurd (hreadable.mpr hstate) Bool.false_ne_true,
          fun _ => ⟨rfl, hstates, ?_⟩⟩
        rw [htidy.member?_toJson_of_none hseparate hstates,
          Compile.get?_extra_of_states_eq_none hoptions hstates, hraw]
  · rw [hraw, Option.bind_none] at hstates
    refine ⟨hstates, ?_⟩
    rw [htidy.member?_toJson_of_none hseparate hstates,
      Compile.get?_extra_of_states_eq_none hoptions hstates, hraw]

/-- Attributes of a machine whose record has raw states that cannot be read. -/
def unreadableAttributes : Attributes :=
  [("id", .str "m"), ("config", .obj [("states", .arr []), ("version", .num (.int 2))])]

/-- An options record whose raw states can be read, with nulls at every depth. -/
def sparseOptions : OptionsRecord :=
  { config := [("states", .obj [
      ("idle", .obj [("entry", .null), ("tags", .null),
        ("on", .obj [("GO", .obj [("target", .null), ("cond", .str "ready")])])]),
      ("busy", .obj [("invoke", .null), ("states", .obj [("late", .obj [("exit", .null)])])])])] }

theorem raw_states_pass_through_sparseOptions :
    (∃ raw machine table written,
      Compile.rawStates? unreadableAttributes sparseOptions = some raw ∧
      (Compile.machine 0 Patcher.assign .permissive unreadableAttributes
        [.options sparseOptions, .state {}]).result = .ok machine ∧
      StateNode.tableOfJson? raw = some table ∧ machine.config.states = some table ∧
      machine.config.toJson.member? "states" = some written ∧
      raw.statesWithoutNulls.Reordered written) ∧
    ∃ machine,
      (Compile.machine 0 Patcher.assign .permissive unreadableAttributes [.state {}]).result
        = .ok machine ∧
      machine.config.states = none ∧
      machine.config.toJson.member? "states" = some (.arr []) := by
  have hattributes : (Json.obj unreadableAttributes).Distinct := by
    simp [unreadableAttributes]
  have hoptions : sparseOptions.Distinct := by
    refine ⟨?_, ?_⟩
    · intro context h
      cases h
    · simp [sparseOptions]
  have hunkeyed : ∀ node ∈ Siblings.states [.options sparseOptions, .state {}], node.id = none := by
    intro node hnode
    cases List.mem_singleton.mp hnode
    rfl
  have hunkeyed' : ∀ node ∈ Siblings.states [.state {}], node.id = none := hunkeyed
  refine ⟨?_, ?_⟩
  · obtain ⟨hraw, -⟩ := @raw_states_pass_through 0 Patcher.assign .permissive unreadableAttributes
      [.options sparseOptions, .state {}] _ hattributes hoptions hunkeyed rfl
    obtain ⟨hreadable, -⟩ := hraw _ rfl
    have hdistinct : Json.Distinct _ :=
      hoptions.2.of_get? (show sparseOptions.config.get? "states" = some _ from rfl)
    obtain ⟨table, hread, hstates, -, written, hwritten, hreordered⟩ := hreadable
      ((StateNode.isSome_ofJson?_and_tableOfJson?_iff _ hdistinct).2.mp rfl)
    exact ⟨_, _, table, written, rfl, rfl, hread, hstates, hwritten, hreordered⟩
  · obtain ⟨hraw, -⟩ := @raw_states_pass_through 0 Patcher.assign .permissive unreadableAttributes
      [.state {}] _ hattributes OptionsRecord.distinct_empty hunkeyed' rfl
    obtain ⟨-, hunreadable⟩ := hraw _ rfl
    obtain ⟨-, hstates, hwritten⟩ := hunreadable fun h => Json.not_isObject rfl h.isObject
    exact ⟨_, rfl, hstates, hwritten⟩

end Statechart
