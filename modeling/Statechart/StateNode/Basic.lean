/-
`StateNode/Basic.lean` -- the states of a compiled machine and the transitions between them.

A state's id is its key in the table of its parent and no part of what is written for the state
itself. Attributes that mean nothing to the compiler are passed through in `attributes`.
-/
import Statechart.Json.Basic

set_option autoImplicit false

namespace Statechart

/-- What a state's `on` table holds for one event. -/
structure Transition where
  target : Option Json := none
  attributes : Attributes := []
  deriving DecidableEq

/-- A state: its hooks, its transitions by event, its invoked service and its states by id. -/
structure StateNode where
  id : Option String := none
  entry : Option Json := none
  exit : Option Json := none
  on : Option (List (String × Transition)) := none
  invoke : Option (List (String × Json)) := none
  states : Option (List (String × StateNode)) := none
  attributes : List (String × Json) := []
  deriving Inhabited

/-- A state's transitions, by event. -/
abbrev TransitionTable : Type := OrderedMap Transition

/-- States, by id. -/
abbrev StateTable : Type := OrderedMap StateNode

/-! ## Equality up to the order of tables -/

/-- Equality of transitions. -/
def Transition.same (a b : Transition) : Bool :=
  sameOption Json.same a.target b.target && Attributes.same a.attributes b.attributes

mutual
/-- Equality of states, ids included. -/
def StateNode.same : StateNode → StateNode → Bool
  | ⟨id, entry, exit, on, invoke, states, attributes⟩, other =>
      id == other.id && sameOption Json.same entry other.entry
        && sameOption Json.same exit other.exit
        && sameOption (OrderedMap.same Transition.same) on other.on
        && sameOption Attributes.same invoke other.invoke
        && StateNode.sameStates states other.states
        && Attributes.same attributes other.attributes
/-- Equality of the nested states of two states. -/
def StateNode.sameStates :
    Option (List (String × StateNode)) → Option (List (String × StateNode)) → Bool
  | none, none => true
  | some left, some right => left.length == right.length && StateNode.sameEntries left right
  | _, _ => false
/-- Each state on the left has its equal on the right. -/
def StateNode.sameEntries : List (String × StateNode) → List (String × StateNode) → Bool
  | [], _ => true
  | (id, node) :: rest, right =>
      (match OrderedMap.get? right id with
        | some other => node.same other
        | none => false)
      && StateNode.sameEntries rest right
end

end Statechart
