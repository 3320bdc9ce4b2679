/-
`StateNode/Written.lean` -- states and transitions as JSON, written and read.

A state is written as one object: the fields that are present, in a fixed order, and behind them
its passed-through attributes. So an attribute named like a field that is present would stand there
twice. `written` shows the object as it goes into text; `toJson` is the value that it denotes, with
nothing repeated.

Reading takes the fields out by name and keeps every other member as an attribute. A field that is
`null` reads as absent, and one that comes twice is refused.
-/
import Statechart.StateNode.Basic

set_option autoImplicit false

namespace Statechart

/-- A member that is written only when its value is present. -/
def optionalMember (key : String) (value : Option Json) : List (String × Json) :=
  match value with
  | some value => [(key, value)]
  | none => []

/-- The value of an optional field: `null` reads as absent. -/
def presentField? (members : List (String × Json)) (key : String) : Option Json :=
  match OrderedMap.get? members key with
  | some .null => none
  | found => found

/-- Whether each field comes at most once. -/
def fieldsOnce (fields : List String) (members : List (String × Json)) : Bool :=
  fields.all fun field => (OrderedMap.keys members).count field ≤ 1

/-- The members that are no fields, each with its first position and its last value. -/
def passedThrough (fields : List String) (members : List (String × Json)) : Attributes :=
  Json.collapseRecord (OrderedMap.without members fields)

/-! ## 1. Transitions -/

namespace Transition

/-- The fields of a transition. -/
def fields : List String := ["target"]

/-- A transition as it is written, repeated members included. -/
def written (transition : Transition) : Json :=
  .obj (optionalMember "target" transition.target ++ transition.attributes)

/-- A transition as a value. -/
def toJson (transition : Transition) : Json := transition.written.collapse

/-- Read a transition. -/
def ofJson? : Json → Option Transition
  | .obj members =>
      if fieldsOnce fields members then
        some { target := (presentField? members "target").map Json.collapse
               attributes := passedThrough fields members }
      else none
  | _ => none

/-- Read a table of transitions; each entry has to be readable, also one that is replaced. -/
def tableOfJson? : Json → Option TransitionTable
  | .obj members =>
      (members.mapM fun entry => (ofJson? entry.2).map fun read => (entry.1, read)).map
        OrderedMap.ofBindings
  | _ => none

end Transition

/-! ## 2. States -/

/-- A record that is read as it stands. -/
def recordOfJson? : Json → Option Attributes
  | .obj members => some (Json.collapseRecord members)
  | _ => none

/-- Read an optional field, if it is present, with `read`. -/
def readField? {α : Type} (read : Json → Option α) : Option Json → Option (Option α)
  | none => some none
  | some value => (read value).map some

namespace StateNode

/-- The fields of a state. Its id is none of them. -/
def fields : List String := ["entry", "exit", "on", "invoke", "states"]

mutual
/-- The members of a state as it is written. -/
def members : StateNode → List (String × Json)
  | ⟨_, entry, exit, on, invoke, states, attributes⟩ =>
      optionalMember "entry" entry ++ optionalMember "exit" exit
        ++ optionalMember "on" (on.map fun table =>
            .obj (OrderedMap.mapValues Transition.written table))
        ++ optionalMember "invoke" (invoke.map .obj)
        ++ nestedMember states ++ attributes
/-- The member that holds the nested states, if there are any. -/
def nestedMember : Option (List (String × StateNode)) → List (String × Json)
  | none => []
  | some table => [("states", .obj (tableMembers table))]
/-- The members of a table of states. -/
def tableMembers : List (String × StateNode) → List (String × Json)
  | [] => []
  | (id, node) :: rest => (id, .obj node.members) :: tableMembers rest
end

/-- A state as it is written, repeated members included. -/
def written (node : StateNode) : Json := .obj node.members

/-- A state as a value. -/
def toJson (node : StateNode) : Json := node.written.collapse

/-- A table of states as it is written. -/
def writtenTable (table : StateTable) : Json := .obj (tableMembers table)

/-- The state that members spell, given its nested states. -/
def ofMembers? (members : List (String × Json)) (states : Option StateTable) :
    Option StateNode := do
  guard (fieldsOnce fields members)
  let on ← readField? Transition.tableOfJson? (presentField? members "on")
  let invoke ← readField? recordOfJson? (presentField? members "invoke")
  return {
    entry := (presentField? members "entry").map Json.collapse
    exit := (presentField? members "exit").map Json.collapse
    on
    invoke
    states
    attributes := passedThrough fields members }

mutual
/-- Read a state. -/
def ofJson? : Json → Option StateNode
  | .obj members =>
      match nestedOfMembers? members with
      | some states => ofMembers? members states
      | none => none
  | _ => none
/-- Read the nested states of a state from its members. -/
def nestedOfMembers? : List (String × Json) → Option (Option (List (String × StateNode)))
  | [] => some none
  | (key, value) :: rest =>
      -- the first of several decides, but then the state is refused anyway
      if key = "states" then
        match value with
        | .null => some none
        | .obj members => (tableOfMembers? members).map fun entries =>
            some (OrderedMap.ofBindings entries)
        | _ => none
      else nestedOfMembers? rest
/-- Read the entries of a table of states, one by one. -/
def tableOfMembers? : List (String × Json) → Option (List (String × StateNode))
  | [] => some []
  | (id, value) :: rest =>
      match ofJson? value, tableOfMembers? rest with
      | some node, some nodes => some ((id, node) :: nodes)
      | _, _ => none
end

/-- Read a table of states; each entry has to be readable, also one that is replaced. -/
def tableOfJson? : Json → Option StateTable
  | .obj members => (tableOfMembers? members).map OrderedMap.ofBindings
  | _ => none

end StateNode

end Statechart
