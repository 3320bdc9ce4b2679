/-
`Proofs/KeyedFolds.lean` -- which children a keyed fold keeps, and in which order.

A fold of states or transitions goes through the children once. A key takes its place in the table
when it first comes, and each later child with that key takes over its value. So the order of the
table is told by the first child of each key and its values by the last. Children that add nothing
to the table, because they are of another kind or have no key, are passed over.
-/
import Statechart.Proofs.Folds

set_option autoImplicit false

namespace Statechart.Siblings

variable {α : Type}

/-! ## 1. What a child adds -/

/-- What a child adds to the table of states: a state that has an id adds itself under its id. -/
def keyedState? : Fragment → Option (String × StateNode)
  | .state node => node.id.map fun id => (id, node)
  | .transition _ _ | .invoke _ | .record _ | .options _ => none

/-- What a child adds to the table of transitions: a transition that has an event adds its target
and its attributes under its event. -/
def keyedTransition? : Fragment → Option (String × Transition)
  | .transition event declared => event.map fun name => (name, declared)
  | .state _ | .invoke _ | .record _ | .options _ => none

/-- A fold of children keeps the last of what they add under each key. -/
structure KeepsLast (added? : Fragment → Option (String × α))
    (fold : List Fragment → Option (OrderedMap α)) : Prop where
  /-- There is no table exactly where no child adds to it. -/
  eq_none_iff : ∀ children, fold children = none ↔ ∀ child ∈ children, added? child = none
  /-- The keys stand in the order in which they first come, and each of them once. -/
  keys : ∀ children table, fold children = some table →
    table.keys = ((children.filterMap added?).map Prod.fst).eraseDups
  /-- Under a key stands what the last child with that key adds. -/
  get?_eq_some_iff : ∀ children table, fold children = some table → ∀ key value,
    table.get? key = some value ↔
      ∃ before child after, children = before ++ child :: after ∧
        added? child = some (key, value) ∧
          ∀ later ∈ after, ∀ other, added? later ≠ some (key, other)
  /-- A child that adds nothing makes no difference, wherever it stands. -/
  passes_over : ∀ before child after, added? child = none →
    fold (before ++ child :: after) = fold (before ++ after)

/-! ## 2. The fold as a table of what is added -/

/-- The states that have a key are what the children add. -/
theorem keyed_states (children : List Fragment) :
    keyed ((states children).map fun node => (node.id, node))
      = children.filterMap keyedState? := by
  rw [keyed, states, List.map_filterMap, List.filterMap_filterMap]
  refine List.filterMap_congr fun child _ => ?_
  cases child <;> rfl

/-- The transitions that have a key are what the children add. -/
theorem keyed_transitions (children : List Fragment) :
    keyed (transitions children) = children.filterMap keyedTransition? := by
  rw [keyed, transitions, List.filterMap_filterMap]
  refine List.filterMap_congr fun child _ => ?_
  cases child <;> rfl

/-- What the last child with a key adds is the last that is added under the key. -/
theorem exists_last_iff {added? : Fragment → Option (String × α)} {children : List Fragment}
    {key : String} {value : α} :
    (∃ before after, children.filterMap added? = before ++ (key, value) :: after ∧
        key ∉ OrderedMap.keys after) ↔
      ∃ before child after, children = before ++ child :: after ∧
        added? child = some (key, value) ∧
          ∀ later ∈ after, ∀ other, added? later ≠ some (key, other) := by
  constructor
  · rintro ⟨before, after, hsplit, hlast⟩
    obtain ⟨front, rest, rfl, -, hrest⟩ := List.filterMap_eq_append_iff.mp hsplit
    -- behind the entries in front there may be children that add nothing
    obtain ⟨silent, child, back, rfl, -, hchild, rfl⟩ := List.filterMap_eq_cons_iff.mp hrest
    refine ⟨front ++ silent, child, back, (List.append_assoc ..).symm, hchild, ?_⟩
    intro later hlater other hentry
    have hadded : (key, other) ∈ back.filterMap added? :=
      List.mem_filterMap.mpr ⟨later, hlater, hentry⟩
    exact hlast (List.mem_map_of_mem hadded)
  · rintro ⟨before, child, after, rfl, hchild, hlast⟩
    refine ⟨before.filterMap added?, after.filterMap added?, ?_, ?_⟩
    · rw [List.filterMap_append, List.filterMap_cons_some hchild]
    · intro hmem
      obtain ⟨⟨name, other⟩, hadded, hname⟩ := List.mem_map.mp hmem
      obtain ⟨later, hlater, hentry⟩ := List.mem_filterMap.mp hadded
      obtain rfl : name = key := hname
      exact hlast later hlater other hentry

/-- A fold that comes to the table of what the children add keeps the last under each key. -/
theorem keepsLast_of_eq {added? : Fragment → Option (String × α)}
    {fold : List Fragment → Option (OrderedMap α)}
    (h : ∀ children, fold children
      = nonempty? (OrderedMap.ofBindings (children.filterMap added?))) :
    KeepsLast added? fold := by
  have htable : ∀ children table, fold children = some table →
      table = OrderedMap.ofBindings (children.filterMap added?) := by
    intro children table hfold
    rw [← getD_nonempty? (OrderedMap.ofBindings (children.filterMap added?)), ← h, hfold,
      Option.getD_some]
  refine ⟨?none, ?keys, ?values, ?others⟩
  case none =>
    intro children
    rw [h, nonempty?_eq_none_iff, ofBindings_eq_nil_iff, List.filterMap_eq_nil_iff]
  case keys =>
    intro children table hfold
    rw [htable children table hfold, OrderedMap.keys_ofBindings]
    rfl
  case values =>
    intro children table hfold key value
    rw [htable children table hfold, OrderedMap.get?_ofBindings_eq_some_iff]
    exact exists_last_iff
  case others =>
    intro before child after hchild
    rw [h, h, List.filterMap_append, List.filterMap_cons_none hchild, ← List.filterMap_append]

/-! ## 3. States and transitions -/

/-- **Keyed folds.** The states of any children come to a table by id and their transitions to one
by event, unless none of them has such a key. Either table lists the keys in the order in which they
first come and holds, under each, the last child of that key as it stands. No other child has any
part in it. -/
theorem keyed_folds_keep_last :
    KeepsLast keyedState? (fun children => (mergeStates children).value) ∧
      KeepsLast keyedTransition? (fun children => (mergeTransitions children).value) := by
  constructor
  · refine keepsLast_of_eq fun children => ?_
    rw [mergeStates, value_mergeKeyed, keyed_states]
  · refine keepsLast_of_eq fun children => ?_
    rw [mergeTransitions, value_mergeKeyed, keyed_transitions]

example :
    ((mergeTransitions [.transition (some "GO") { target := some (.str "a") }, .record [],
        .transition (some "STOP") {}, .transition none {}, .transition (some "GO") {}]).value.getD
      []) = [("GO", {}), ("STOP", {})] := by
  decide

end Statechart.Siblings
