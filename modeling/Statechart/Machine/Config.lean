/-
`Machine/Config.lean` -- what a compiled machine consists of.

A configuration has the fields of the top level and, in `extra`, every raw member without a field
of its own. Next to it stand the implementations of the names that it refers to.
-/
import Statechart.StateNode.Basic
import Statechart.Implementation

set_option autoImplicit false

namespace Statechart

/-- The configuration of a machine. -/
structure MachineConfig where
  id : Option Json := none
  /-- The initial context. -/
  context : Json := .null
  initial : Option Json := none
  type : Option Json := none
  states : Option StateTable := none
  extra : Attributes := []
  deriving Inhabited

/-- Walk from a table of states along a path of ids. The empty path leads nowhere. -/
def StateTable.lookup? (table : Option StateTable) : List String → Option StateNode
  | [] => none
  | [id] => table.bind (OrderedMap.get? · id)
  | id :: path =>
      match table.bind (OrderedMap.get? · id) with
      | some node => StateTable.lookup? node.states path
      | none => none

namespace MachineConfig

/-- The state at the end of a path of ids. -/
def state? (config : MachineConfig) (path : List String) : Option StateNode :=
  StateTable.lookup? config.states path

/-- Equality of configurations, up to the order of tables. -/
def same (a b : MachineConfig) : Bool :=
  sameOption Json.same a.id b.id
    && a.context.same b.context
    && sameOption Json.same a.initial b.initial
    && sameOption Json.same a.type b.type
    && StateNode.sameStates a.states b.states
    && Attributes.same a.extra b.extra

end MachineConfig

/-- The implementations of a machine, by what they serve as. -/
structure MachineOptions where
  actions : Implementations := []
  guards : Implementations := []
  activities : Implementations := []
  delays : Implementations := []
  services : Implementations := []
  deriving Inhabited

/-- Equality of implementations of machines, up to the order of their tables. -/
def MachineOptions.same (a b : MachineOptions) : Bool :=
  Implementations.same a.actions b.actions
    && Implementations.same a.guards b.guards
    && Implementations.same a.activities b.activities
    && Implementations.same a.delays b.delays
    && Implementations.same a.services b.services

/-- A machine as compiled, with nothing made of it yet. -/
structure Blueprint where
  config : MachineConfig
  options : MachineOptions
  deriving Inhabited

/-- Equality of blueprints, up to the order of tables. -/
def Blueprint.same (a b : Blueprint) : Bool :=
  a.config.same b.config && a.options.same b.options

end Statechart
