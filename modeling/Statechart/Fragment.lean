/-
`Fragment.lean` -- what an element below the machine compiles to.

A parent folds the fragments of its children: states, transitions and invoke blocks go to a table
or field of their own, which is their route; records are merged into their parent, and an options
record belongs to the machine.
-/
import Statechart.StateNode.Basic
import Statechart.Options.Record

set_option autoImplicit false

namespace Statechart

/-- Where a parent routes a fragment. -/
inductive Route where
  | state
  | transition
  /-- A named route that no fragment takes. -/
  | childConfig
  | invoke
  deriving DecidableEq

namespace Route

/-- The name of a route. -/
def name : Route → String
  | .state => "state"
  | .transition => "transition"
  | .childConfig => "childConfig"
  | .invoke => "invoke"

/-- All routes. -/
def all : List Route := [.state, .transition, .childConfig, .invoke]

/-- The route of a name. -/
def ofName? (name : String) : Option Route := all.find? fun route => route.name == name

/-- A route is found by its name. -/
theorem ofName?_name (route : Route) : ofName? route.name = some route := by
  cases route <;> rfl

/-- The route as JSON. -/
def toJson (route : Route) : Json := .str route.name

/-- The route of a JSON name. -/
def ofJson? (value : Json) : Option Route := value.unitName?.bind ofName?

end Route

/-- The result of compiling one element below the machine. -/
inductive Fragment where
  | state (node : StateNode)
  /-- A transition as declared, before its parent keys it by its event. -/
  | transition (event : Option String) (transition : Transition)
  | invoke (block : Attributes)
  | record (members : Attributes)
  | options (record : OptionsRecord)

namespace Fragment

/-- The route of a fragment; records and options records have none. -/
def route? : Fragment → Option Route
  | .state _ => some .state
  | .transition _ _ => some .transition
  | .invoke _ => some .invoke
  | .record _ => none
  | .options _ => none

/-- The name of what a fragment is. -/
def kindName : Fragment → String
  | .state _ => "state"
  | .transition _ _ => "transition"
  | .invoke _ => "invoke"
  | .record _ => "record"
  | .options _ => "options"

/-- The state, if the fragment is one. -/
def state? : Fragment → Option StateNode
  | .state node => some node
  | _ => none

/-- The event and the transition, if the fragment is one. -/
def transition? : Fragment → Option (Option String × Transition)
  | .transition event declared => some (event, declared)
  | _ => none

/-- The invoke block, if the fragment is one. -/
def invoke? : Fragment → Option Attributes
  | .invoke block => some block
  | _ => none

/-- The record, if the fragment is one. -/
def record? : Fragment → Option Attributes
  | .record members => some members
  | _ => none

/-- The options record, if the fragment is one. -/
def options? : Fragment → Option OptionsRecord
  | .options found => some found
  | _ => none

/-- Equality of fragments, up to the order of tables. -/
def same : Fragment → Fragment → Bool
  | .state a, .state b => a.same b
  | .transition event a, .transition event' b => event == event' && a.same b
  | .invoke a, .invoke b => Attributes.same a b
  | .record a, .record b => Attributes.same a b
  | .options a, .options b => a.same b
  | _, _ => false

end Fragment

end Statechart
