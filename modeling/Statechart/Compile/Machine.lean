/-
`Compile/Machine.lean` -- what a machine compiles to.

Three sources give a machine its configuration: its attributes, the record in its `config`
attribute, and the options record that leads its children. Their raw members are laid over each
other, and the fields of the top level are taken out of the result, behind the machine's own
attributes. Whether the outcome makes sense is not judged here.
-/
import Statechart.Siblings.Check
import Statechart.Options.Leading
import Statechart.Options.Derive
import Statechart.Machine.Written
import Statechart.Json.Render

set_option autoImplicit false

namespace Statechart.Compile

/-! ## 1. Layers of the configuration -/

/-- The name of a machine in notices. -/
def machineName (attributes : Attributes) : String :=
  ((attributes.get? "id").map Json.key).getD "machine"

/-- The attributes that a machine has a use for. -/
def machineAttributes : List String := ["config", "id", "initial", "type"]

/-- The raw members of the `config` attribute, if it is a record. -/
def configMembers (attributes : Attributes) : Attributes :=
  ((attributes.get? "config").bind Json.members?).getD []

/-- The raw members of a configuration: those of the `config` attribute, with those of the options
record over them. -/
def rawMembers (attributes : Attributes) (options : OptionsRecord) : Attributes :=
  (configMembers attributes).extend options.config

/-- A field that is an attribute of the machine or else a raw member. -/
def layered? (attributes raw : Attributes) (field : String) : Option Json :=
  (attributes.get? field).or (raw.get? field)

/-- The states of a machine: those of its children, or else the raw ones if they can be read. -/
def machineStates? (folded : Option StateTable) (raw : Attributes) : Option StateTable :=
  folded.or ((raw.get? "states").bind StateNode.tableOfJson?)

/-- The configuration, from all its sources. -/
def assembleConfig (attributes : Attributes) (options : OptionsRecord)
    (folded : Option StateTable) : MachineConfig :=
  let raw := rawMembers attributes options
  let states := machineStates? folded raw
  { id := layered? attributes raw "id"
    context := (options.context.or (raw.get? "context")).getD (.obj [])
    initial := layered? attributes raw "initial"
    type := layered? attributes raw "type"
    states
    extra := raw.without
      (["id", "context", "initial", "type"] ++ if states.isSome then ["states"] else []) }

/-- The implementations, given the actions. -/
def assembleOptions (options : OptionsRecord) (actions : Implementations) : MachineOptions :=
  { actions
    guards := options.guards
    activities := options.activities
    delays := options.delays
    services := options.services }

/-! ## 2. The machine -/

/-- Report a `config` attribute that is no record. -/
def configNotices (node : String) (attributes : Attributes) : List Notice :=
  match attributes.get? "config" with
  | none => []
  | some (.obj _) => []
  | some other => [.configIgnored node other]

/-- Report the attributes that a machine has no use for. -/
def attributeNotices (node : String) (attributes : Attributes) : List Notice :=
  (attributes.without machineAttributes).keys.map (.attributeIgnored node)

/-- Compile a machine. `run` tells the derived actions of this run from those of any other. -/
def machine (run : Nat) (patcher : Patcher) (policy : Policy) (attributes : Attributes)
    (children : List Fragment) : Compilation Blueprint := do
  let split ← ExceptT.lift (splitOptions children)
  let options := split.options.getD {}
  let name := machineName attributes
  Siblings.enforce Siblings.machineChecks policy name split.rest
  ExceptT.lift (Logged.notices (configNotices name attributes))
  let folded ← ExceptT.lift (Siblings.mergeStates split.rest)
  let config := assembleConfig attributes options folded
  ExceptT.lift (Logged.notices (attributeNotices name attributes))
  -- every action is derived before the first one takes the place of a plain action
  let derived ← ExceptT.lift (deriveActions run patcher options.mutations)
  let actions ← ExceptT.lift (overrideActions name options.actions derived)
  Compilation.notice (.assembled name (config.states.getD []).length actions.length)
  return { config, options := assembleOptions options actions }

end Statechart.Compile
