/-
`Siblings/Merge.lean` -- folding the fragments of one element's children.

Each fold looks at the fragments of one kind and passes over the others. States are keyed by id and
transitions by event, and a key keeps its first place and its last value. Of the invoke blocks the
first is used. Records are united, a later member over an earlier one. What a fold loses on the way
it reports: the value of a fold and its notices are given side by side.
-/
import Statechart.Fragment
import Statechart.Notice

set_option autoImplicit false

namespace Statechart

/-! ## 1. Siblings by kind -/

/-- The fragments that take a route. -/
def alongRoute (route : Route) (children : List Fragment) : List Fragment :=
  children.filter fun child => child.route? == some route

namespace Siblings

/-- The states among the children. -/
def states (children : List Fragment) : List StateNode := children.filterMap Fragment.state?

/-- The transitions among the children, each with its event. -/
def transitions (children : List Fragment) : List (Option String × Transition) :=
  children.filterMap Fragment.transition?

/-- The invoke blocks among the children. -/
def invokes (children : List Fragment) : List Attributes := children.filterMap Fragment.invoke?

/-- The records among the children. -/
def records (children : List Fragment) : List Attributes := children.filterMap Fragment.record?

/-! ## 2. Keyed folds -/

section Keyed

variable {α : Type}

/-- Put one entry into a table. It is reported if it has no key, and if it takes the place of an
earlier one. -/
def place (skipped : Notice) (replaced : String → Notice) (table : OrderedMap α) :
    Option String × α → Logged (OrderedMap α)
  -- without a key there is no place in the table
  | (none, _) => { value := table, log := [skipped] }
  | (some key, value) =>
      { value := table.insert key value
        log := if table.contains key then [replaced key] else [] }

/-- A table, or nothing where it would be empty. -/
def nonempty? : OrderedMap α → Option (OrderedMap α)
  | [] => none
  | table => some table

/-- Fold entries into a table. -/
def mergeKeyed (skipped : Notice) (replaced : String → Notice)
    (entries : List (Option String × α)) : Logged (Option (OrderedMap α)) := do
  let table ← entries.foldlM (place skipped replaced) []
  return nonempty? table

/-- The entries that have a key. -/
def keyed (entries : List (Option String × α)) : List (String × α) :=
  entries.filterMap fun entry => entry.1.map fun key => (key, entry.2)

/-- Placing entries over a table writes those that have a key. -/
theorem value_foldlM_place (skipped : Notice) (replaced : String → Notice)
    (entries : List (Option String × α)) (table : OrderedMap α) :
    (entries.foldlM (place skipped replaced) table).value = table.extend (keyed entries) := by
  induction entries generalizing table with
  | nil => rfl
  | cons entry rest ih =>
      obtain ⟨key?, value⟩ := entry
      rw [List.foldlM_cons, Logged.value_bind, ih]
      cases key? with
      | none => rfl
      | some key => rfl

/-- A keyed fold holds the entries that have a key. -/
theorem value_mergeKeyed (skipped : Notice) (replaced : String → Notice)
    (entries : List (Option String × α)) :
    (mergeKeyed skipped replaced entries).value
      = nonempty? (OrderedMap.ofBindings (keyed entries)) := by
  rw [mergeKeyed, Logged.value_bind, value_foldlM_place]
  rfl

theorem log_mergeKeyed (skipped : Notice) (replaced : String → Notice)
    (entries : List (Option String × α)) :
    (mergeKeyed skipped replaced entries).log
      = (entries.foldlM (place skipped replaced) []).log := by
  rw [mergeKeyed, Logged.log_bind]
  exact List.append_nil _

/-- Whatever a keyed fold reports was skipped or replaced. -/
theorem mem_log_foldlM_place {skipped : Notice} {replaced : String → Notice}
    {entries : List (Option String × α)} {table : OrderedMap α} {notice : Notice}
    (h : notice ∈ (entries.foldlM (place skipped replaced) table).log) :
    notice = skipped ∨ ∃ key, notice = replaced key := by
  induction entries generalizing table with
  | nil => exact absurd h List.not_mem_nil
  | cons entry rest ih =>
      obtain ⟨key?, value⟩ := entry
      rw [List.foldlM_cons, Logged.log_bind, List.mem_append] at h
      rcases h with hfirst | hrest
      · cases key? with
        | none => exact .inl (List.mem_singleton.mp hfirst)
        | some key =>
            rw [place] at hfirst
            split at hfirst
            · exact .inr ⟨key, List.mem_singleton.mp hfirst⟩
            · exact absurd hfirst List.not_mem_nil
      · exact ih hrest

end Keyed

/-- Fold the states into a table by id. -/
def mergeStates (children : List Fragment) : Logged (Option StateTable) :=
  mergeKeyed .stateSkipped .stateReplaced ((states children).map fun node => (node.id, node))

/-- Fold the transitions into a table by event. -/
def mergeTransitions (children : List Fragment) : Logged (Option TransitionTable) :=
  mergeKeyed .transitionSkipped .transitionReplaced (transitions children)

/-! ## 3. The other folds -/

/-- The invoke block that is used: the first. -/
def firstInvoke? (children : List Fragment) : Option Attributes := (invokes children).head?

/-- The name that a child which is no record goes by when it is passed over. -/
def passedOverName (child : Fragment) : String :=
  match child.route? with
  | some route => route.name
  | none => "options"

/-- Unite the records, and report each child that is none. -/
def mergeRecords (children : List Fragment) : Logged Attributes :=
  { value := (records children).foldl OrderedMap.extend []
    log := (children.filter fun child => child.record?.isNone).map fun child =>
      .childIgnored (passedOverName child) }

end Siblings

end Statechart
