/-
`Proofs/RearrangedStates.lean` -- states that differ only in the order of members, and reading them.

Two states are equal up to the order of members when their hooks, blocks and attributes are, and
when the same is true of the transitions and of the states under each key. Whether the tables of
transitions and of states keep the order of their keys is a parameter: in states that come from
markup they do, and in states that are read from values they need not. What is read from two values
that are equal up to the order of members is equal up to it as well.
-/
import Statechart.Machine.Config
import Statechart.Proofs.Reading
import Statechart.Proofs.Rearranged

set_option autoImplicit false

namespace Statechart

open OrderedMap (Rearranged)

/-! ## 1. Transitions, states and configurations -/

/-- Transitions that are equal up to the order of members. -/
structure Transition.Reordered (left right : Transition) : Prop where
  target : Option.Rel Json.Reordered left.target right.target
  attributes : Rearranged List.Perm Json.Reordered left.attributes right.attributes

namespace StateNode

/-- States that are equal up to the order of members, where `order` relates the keys of the tables
of transitions and of states at every depth. -/
inductive Reordered (order : List String → List String → Prop) : StateNode → StateNode → Prop
  | parts {left right : StateNode} (id : left.id = right.id)
      (entry : Option.Rel Json.Reordered left.entry right.entry)
      (exit : Option.Rel Json.Reordered left.exit right.exit)
      (on : Option.Rel (Rearranged order Transition.Reordered) left.on right.on)
      (invoke : Option.Rel (Rearranged List.Perm Json.Reordered) left.invoke right.invoke)
      (ids : Option.Rel (fun table table' => order (OrderedMap.keys table) (OrderedMap.keys table'))
        left.states right.states)
      (states : ∀ table table', left.states = some table → right.states = some table' →
        ∀ id node node', OrderedMap.get? table id = some node →
          OrderedMap.get? table' id = some node' → Reordered order node node')
      (attributes : Rearranged List.Perm Json.Reordered left.attributes right.attributes) :
      Reordered order left right

variable {order : List String → List String → Prop} {left right : StateNode}

/-- States are equal up to the order of members where their parts are. -/
theorem Reordered.of_parts (horder : ∀ keys keys', order keys keys' → keys.Perm keys')
    (id : left.id = right.id) (entry : Option.Rel Json.Reordered left.entry right.entry)
    (exit : Option.Rel Json.Reordered left.exit right.exit)
    (on : Option.Rel (Rearranged order Transition.Reordered) left.on right.on)
    (invoke : Option.Rel (Rearranged List.Perm Json.Reordered) left.invoke right.invoke)
    (states : Option.Rel (Rearranged order (Reordered order)) left.states right.states)
    (attributes : Rearranged List.Perm Json.Reordered left.attributes right.attributes) :
    left.Reordered order right := by
  refine .parts id entry exit on invoke (rel_imp (fun _ _ h => h.keys) states) ?_ attributes
  intro table table' htable htable'
  rw [htable, htable'] at states
  cases states with
  | some h => exact ((OrderedMap.rearranged_iff horder).mp h).2

theorem Reordered.id_eq (h : left.Reordered order right) : left.id = right.id := by
  cases h with
  | parts id => exact id

/-- Where tables keep the order of their keys, they have the same keys. -/
theorem Reordered.perm (h : left.Reordered Eq right) : left.Reordered List.Perm right := by
  induction h with
  | parts id entry exit on invoke ids _ attributes ih =>
      exact .parts id entry exit (rel_imp (fun _ _ h => h.perm) on) invoke
        (rel_imp (fun _ _ h => .of_eq h) ids) ih attributes

end StateNode

/-- Configurations that are equal up to the order of members, where `order` relates the keys of the
tables of states and of transitions at every depth. -/
structure MachineConfig.Reordered (order : List String → List String → Prop)
    (left right : MachineConfig) : Prop where
  id : Option.Rel Json.Reordered left.id right.id
  context : left.context.Reordered right.context
  initial : Option.Rel Json.Reordered left.initial right.initial
  type : Option.Rel Json.Reordered left.type right.type
  states : Option.Rel (Rearranged order (StateNode.Reordered order)) left.states right.states
  extra : Rearranged List.Perm Json.Reordered left.extra right.extra

/-! ## 2. Reading fields and tables -/

/-- Reordering members leaves every field where it was. -/
theorem rel_presentField? {members members' : Attributes}
    (h : Rearranged List.Perm Json.Reordered members members') (name : String) :
    Option.Rel Json.Reordered (presentField? members name) (presentField? members' name) := by
  have hrel := h.values name
  cases hleft : members.get? name with
  | none =>
      rw [hleft] at hrel
      generalize hright : members'.get? name = found at hrel
      cases hrel
      rw [presentField?, hleft, presentField?, hright]
      exact .none
  | some value =>
      rw [hleft] at hrel
      obtain ⟨value', hright, hvalue⟩ := exists_of_rel_some hrel
      by_cases hnull : value = .null
      · have hnull' := hvalue.eq_null_iff.mp hnull
        subst hnull hnull'
        rw [presentField?, hleft, presentField?, hright]
        exact .none
      · have hnull' := fun h => hnull (hvalue.eq_null_iff.mpr h)
        rw [presentField?_eq_some_iff.mpr ⟨hleft, hnull⟩,
          presentField?_eq_some_iff.mpr ⟨hright, hnull'⟩]
        exact .some hvalue

section Read

variable {α : Type} {rel : α → α → Prop} {read : Json → Option α}

theorem rel_readField? {field field' : Option Json} (h : Option.Rel Json.Reordered field field')
    (hread : ∀ value value', field = some value → value.Reordered value' →
      Option.Rel rel (read value) (read value')) :
    Option.Rel (Option.Rel rel) (readField? read field) (readField? read field') := by
  cases h with
  | none => exact .some .none
  | some hvalue => exact rel_map (hread _ _ rfl hvalue) fun _ _ h => .some h

/-- Tables that are read from rearranged members are rearranged. -/
theorem rel_readTable {value value' : Json} (h : value.Reordered value') (hvalue : value.Distinct)
    (hread : ∀ members, value = .obj members → ∀ entry ∈ members, ∀ other,
      entry.2.Reordered other → Option.Rel rel (read entry.2) (read other)) :
    Option.Rel (Rearranged List.Perm rel) (readTable read value) (readTable read value') := by
  cases value with
  | obj members =>
      obtain ⟨members', rfl, hmembers⟩ := h.exists_obj
      have hdistinct := (Json.distinct_obj_iff.mp hvalue).1
      have hdistinct' := hmembers.distinct hdistinct
      have hreadings : Rearranged List.Perm (fun a b => Option.Rel rel (read a) (read b))
          members members' := hmembers.imp_of_mem (hread members rfl)
      refine rel_iff.mpr ⟨?_, fun table table' htable htable' => ?_⟩
      · -- either all the values can be read on both sides, or on neither
        rw [isSome_readTable_obj_iff, isSome_readTable_obj_iff,
          hdistinct.forall_mem_iff (p := fun value => (read value).isSome),
          hdistinct'.forall_mem_iff (p := fun value => (read value).isSome)]
        refine forall_congr' fun key => ?_
        have hrel := hreadings.values key
        generalize OrderedMap.get? members key = a?, OrderedMap.get? members' key = b? at hrel ⊢
        cases hrel with
        | none => simp
        | some h => simp [isSome_eq_of_rel h]
      · have hkeys := ((readTable_obj_eq_some_iff hdistinct).mp htable).keys_eq
        have hkeys' := ((readTable_obj_eq_some_iff hdistinct').mp htable').keys_eq
        refine ⟨hkeys ▸ hkeys' ▸ hreadings.keys, fun key => ?_⟩
        rw [get?_readTable hdistinct htable, get?_readTable hdistinct' htable']
        exact rel_bind (hreadings.values key) fun _ _ _ h => h
  | null | bool _ | num _ | str _ =>
      cases h
      exact .none
  | arr _ => cases h <;> exact .none

end Read

/-! ## 3. Reading transitions and states -/

theorem rel_recordOfJson? {value value' : Json} (h : value.Reordered value')
    (hvalue : value.Distinct) :
    Option.Rel (Rearranged List.Perm Json.Reordered) (recordOfJson? value)
      (recordOfJson? value') := by
  cases value with
  | obj members =>
      obtain ⟨members', rfl, hmembers⟩ := h.exists_obj
      rw [recordOfJson?_obj hvalue, recordOfJson?_obj (h.distinct hvalue)]
      exact .some hmembers
  | null | bool _ | num _ | str _ =>
      cases h
      exact .none
  | arr _ => cases h <;> exact .none

theorem Transition.rel_ofJson? {value value' : Json} (h : value.Reordered value')
    (hvalue : value.Distinct) : Option.Rel Reordered (ofJson? value) (ofJson? value') := by
  cases value with
  | obj members =>
      obtain ⟨members', rfl, hmembers⟩ := h.exists_obj
      rw [ofJson?_obj hvalue, ofJson?_obj (h.distinct hvalue)]
      exact .some ⟨rel_presentField? hmembers "target",
        hmembers.without (Json.distinct_obj_iff.mp hvalue).1 fields⟩
  | null | bool _ | num _ | str _ =>
      cases h
      exact .none
  | arr _ => cases h <;> exact .none

theorem Transition.rel_tableOfJson? {value value' : Json} (h : value.Reordered value')
    (hvalue : value.Distinct) :
    Option.Rel (Rearranged List.Perm Reordered) (tableOfJson? value) (tableOfJson? value') := by
  rw [tableOfJson?_eq, tableOfJson?_eq]
  refine rel_readTable h hvalue ?_
  rintro members rfl entry hentry other hother
  exact rel_ofJson? hother ((Json.distinct_obj_iff.mp hvalue).2 entry hentry)

namespace StateNode

/-- **Reading does not depend on the order of members.** Of two values without repetition that are
equal up to the order of members both are read as a state or neither is, and the states are equal up
to that order; and the same for tables of states. -/
theorem rel_ofJson?_and_tableOfJson? (value : Json) : value.Distinct → ∀ value',
    value.Reordered value' →
      Option.Rel (Reordered List.Perm) (ofJson? value) (ofJson? value') ∧
        Option.Rel (Rearranged List.Perm (Reordered List.Perm)) (tableOfJson? value)
          (tableOfJson? value') := by
  induction value using Json.induct with
  | obj members ih =>
      intro hvalue value' h
      obtain ⟨members', rfl, hmembers⟩ := h.exists_obj
      have hentries := (Json.distinct_obj_iff.mp hvalue).2
      refine ⟨?_, ?_⟩
      · -- the fields that have a structure; the table of states is one of the members
        have hstates : Option.Rel (Option.Rel (Rearranged List.Perm (Reordered List.Perm)))
            (readField? tableOfJson? (presentField? members "states"))
            (readField? tableOfJson? (presentField? members' "states")) := by
          refine rel_readField? (rel_presentField? hmembers "states") fun value _ hfound hother => ?_
          have hmem := OrderedMap.mem_of_get? (presentField?_eq_some_iff.mp hfound).1
          exact (ih _ hmem (hentries _ hmem) _ hother).2
        have hon : Option.Rel (Option.Rel (Rearranged List.Perm Transition.Reordered))
            (readField? Transition.tableOfJson? (presentField? members "on"))
            (readField? Transition.tableOfJson? (presentField? members' "on")) :=
          rel_readField? (rel_presentField? hmembers "on") fun _ _ hfound hother =>
            Transition.rel_tableOfJson? hother (distinct_of_presentField? hvalue hfound)
        have hinvoke : Option.Rel (Option.Rel (Rearranged List.Perm Json.Reordered))
            (readField? recordOfJson? (presentField? members "invoke"))
            (readField? recordOfJson? (presentField? members' "invoke")) :=
          rel_readField? (rel_presentField? hmembers "invoke") fun _ _ hfound hother =>
            rel_recordOfJson? hother (distinct_of_presentField? hvalue hfound)
        rw [ofJson?_obj hvalue, ofJson?_obj (h.distinct hvalue)]
        refine rel_bind hstates fun _ _ _ hstates => rel_bind hon fun _ _ _ hon =>
          rel_map hinvoke fun _ _ hinvoke => ?_
        exact .of_parts (fun _ _ h => h) rfl (rel_presentField? hmembers "entry")
          (rel_presentField? hmembers "exit") hon hinvoke hstates
          (hmembers.without (Json.distinct_obj_iff.mp hvalue).1 fields)
      · rw [tableOfJson?_eq, tableOfJson?_eq]
        refine rel_readTable h hvalue ?_
        intro _ heq entry hentry other hother
        cases heq
        exact (ih entry hentry (hentries entry hentry) other hother).1
  | null | bool | num | str =>
      intro _ value' h
      cases h
      exact ⟨.none, .none⟩
  | arr =>
      intro _ value' h
      cases h <;> exact ⟨.none, .none⟩

end StateNode

/-! ## 4. Equality -/

theorem sameOption_of_rel {α : Type} {eq : α → α → Bool} {rel : α → α → Prop} {a? b? : Option α}
    (h : Option.Rel rel a? b?) (heq : ∀ a b, a? = some a → rel a b → eq a b = true) :
    sameOption eq a? b? = true := by
  cases h with
  | none => rfl
  | some related => exact heq _ _ rfl related

/-- Records that are equal up to order are equal, if they repeat nothing. -/
theorem Attributes.same_of_rearranged {left right : Attributes}
    (h : Rearranged List.Perm Json.Reordered left right) (hleft : (Json.obj left).Distinct) :
    Attributes.same left right = true :=
  Json.same_obj left right ▸ (Json.reordered_obj_iff.mpr h).same hleft

theorem sameOption_of_reordered {a? b? : Option Json} (h : Option.Rel Json.Reordered a? b?)
    (ha : ∀ value, a? = some value → value.Distinct) : sameOption Json.same a? b? = true :=
  sameOption_of_rel h fun value _ hvalue hrel => hrel.same (ha value hvalue)

theorem Transition.Reordered.same {left right : Transition} (h : left.Reordered right)
    (hleft : left.Tidy) : left.same right = true := by
  rw [Transition.same, Bool.and_eq_true]
  exact ⟨sameOption_of_reordered h.target hleft.target,
    Attributes.same_of_rearranged h.attributes hleft.attributes⟩

/-- States that are equal up to order are equal, if they repeat nothing at any depth. -/
theorem StateNode.Reordered.same {left right : StateNode} (h : left.Reordered List.Perm right)
    (hleft : left.Everywhere Tidy) : left.same right = true := by
  induction h with
  | @parts left right id entry exit on invoke ids states attributes ih =>
      obtain ⟨htidy, hnested⟩ := everywhere_iff.mp hleft
      refine same_of_parts id (sameOption_of_reordered entry htidy.entry)
        (sameOption_of_reordered exit htidy.exit) ?_ ?_ ?_
        (Attributes.same_of_rearranged attributes htidy.attributes)
      · refine sameOption_of_rel on fun table table' htable htables => ?_
        exact htables.same (htidy.on table htable) fun entry hentry _ hrel =>
          hrel.same (htidy.transitions table htable entry hentry)
      · refine sameOption_of_rel invoke fun block _ hblock hrel => ?_
        exact Attributes.same_of_rearranged hrel (htidy.invoke block hblock)
      · rw [sameStates_eq]
        generalize hstates : left.states = states?, hstates' : right.states = states'? at ids ⊢
        cases ids with
        | none => rfl
        | @some table table' hids =>
            have hdistinct := htidy.states table hstates
            have hentries := everywhereAmong_iff.mp (everywhereIn_iff.mp hnested table hstates)
            have hsame : Rearranged List.Perm (fun node node' => node.same node' = true) table
                table' := by
              refine (OrderedMap.rearranged_iff fun _ _ h => h).mpr ⟨hids, ?_⟩
              intro id node node' hnode hnode'
              have hmem := OrderedMap.mem_of_get? hnode
              exact ih table table' hstates hstates' id node node' hnode hnode' (hentries _ hmem)
            exact hsame.same hdistinct fun _ _ _ hnode => hnode

/-- Configurations that are equal up to order are equal, if they repeat nothing at any depth. -/
theorem MachineConfig.Reordered.same {left right : MachineConfig}
    (h : left.Reordered List.Perm right) (hleft : left.Tidy) : left.same right = true := by
  simp only [MachineConfig.same, Bool.and_eq_true]
  refine ⟨⟨⟨⟨⟨sameOption_of_reordered h.id hleft.id, h.context.same hleft.context⟩,
    sameOption_of_reordered h.initial hleft.initial⟩, sameOption_of_reordered h.type hleft.type⟩,
    ?_⟩, Attributes.same_of_rearranged h.extra hleft.extra⟩
  rw [StateNode.sameStates_eq]
  refine sameOption_of_rel h.states fun table _ htable hrel => ?_
  have hnested := StateNode.everywhereAmong_iff.mp
    (StateNode.everywhereIn_iff.mp hleft.nested table htable)
  exact hrel.same (hleft.states table htable) fun entry hentry _ hnode =>
    hnode.same (hnested entry hentry)

end Statechart
