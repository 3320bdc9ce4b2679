/-
`Options/Record.lean` -- the options record of a machine.

Markup refers to guards, actions, services and the like by name. The options record binds these
names to implementations and may bring the initial context and raw configuration members. It is
built step by step; a name that is bound again keeps its place and takes the later implementation.
-/
import Statechart.Implementation

set_option autoImplicit false

namespace Statechart

/-- What a named implementation serves as. -/
inductive Group where
  | guard
  | action
  /-- A context mutator, which compilation turns into an action. -/
  | mutation
  | activity
  | service
  | delay
  deriving DecidableEq

/-- The definitions that a machine's first child may carry. -/
structure OptionsRecord where
  context : Option Json := none
  guards : Implementations := []
  actions : Implementations := []
  mutations : Implementations := []
  activities : Implementations := []
  services : Implementations := []
  delays : Implementations := []
  /-- Raw members for the machine configuration. -/
  config : Attributes := []

namespace OptionsRecord

/-- One step in building a record. -/
inductive Step where
  /-- Set the initial context. -/
  | context (value : Json)
  /-- Merge raw configuration members. -/
  | config (members : Attributes)
  /-- Bind a name of a group. -/
  | bind (group : Group) (name : String) (implementation : Implementation)

/-- Bind a name of a group. -/
def bind (record : OptionsRecord) (group : Group) (name : String)
    (implementation : Implementation) : OptionsRecord :=
  match group with
  | .guard => { record with guards := record.guards.insert name implementation }
  | .action => { record with actions := record.actions.insert name implementation }
  | .mutation => { record with mutations := record.mutations.insert name implementation }
  | .activity => { record with activities := record.activities.insert name implementation }
  | .service => { record with services := record.services.insert name implementation }
  | .delay => { record with delays := record.delays.insert name implementation }

/-- Take one step. -/
def apply (record : OptionsRecord) : Step → OptionsRecord
  | .context value => { record with context := some value }
  | .config members => { record with config := record.config.extend members }
  | .bind group name implementation => record.bind group name implementation

/-- The record that a run of steps leaves. -/
def ofSteps (steps : List Step) : OptionsRecord := steps.foldl apply {}

/-- The implementations of a group. -/
def table (record : OptionsRecord) : Group → Implementations
  | .guard => record.guards
  | .action => record.actions
  | .mutation => record.mutations
  | .activity => record.activities
  | .service => record.services
  | .delay => record.delays

/-- Equality of records, up to the order of their tables. -/
def same (a b : OptionsRecord) : Bool :=
  sameOption Json.same a.context b.context
    && Implementations.same a.guards b.guards
    && Implementations.same a.actions b.actions
    && Implementations.same a.mutations b.mutations
    && Implementations.same a.activities b.activities
    && Implementations.same a.services b.services
    && Implementations.same a.delays b.delays
    && Attributes.same a.config b.config

end OptionsRecord

end Statechart
