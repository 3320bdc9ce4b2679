/-
`Machine/Written.lean` -- machine configurations as JSON, written and read.

A configuration is one object, like a state: its present fields in a fixed order and behind them the
extra members. The context is always written. Reading takes the fields out by name and keeps every
other member as an extra one; a configuration without a context has the context `null`.
-/
import Statechart.Machine.Config
import Statechart.StateNode.Written

set_option autoImplicit false

namespace Statechart.MachineConfig

/-- The fields of a configuration, in the order in which they are written. -/
def fields : List String := ["id", "context", "initial", "type", "states"]

/-- The members of a configuration as it is written. -/
def members (config : MachineConfig) : List (String × Json) :=
  optionalMember "id" config.id ++ [("context", config.context)]
    ++ optionalMember "initial" config.initial ++ optionalMember "type" config.type
    ++ StateNode.nestedMember config.states ++ config.extra

/-- A configuration as it is written, repeated members included. -/
def written (config : MachineConfig) : Json := .obj config.members

/-- A configuration as a value. -/
def toJson (config : MachineConfig) : Json := config.written.collapse

/-- Read a configuration. -/
def ofJson? : Json → Option MachineConfig
  | .obj members => do
      guard (fieldsOnce fields members)
      let states ← readField? StateNode.tableOfJson? (presentField? members "states")
      return {
        id := (presentField? members "id").map Json.collapse
        context := ((OrderedMap.get? members "context").getD .null).collapse
        initial := (presentField? members "initial").map Json.collapse
        type := (presentField? members "type").map Json.collapse
        states
        extra := passedThrough fields members }
  | _ => none

end Statechart.MachineConfig
