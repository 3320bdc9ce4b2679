/-
`Compile/Invoke.lean` -- what an invoked service and its outcomes compile to.

An outcome is a record with one member, and the service takes the records of its children into its
own attributes. So each outcome comes to stand under its name in the block of the service.
-/
import Statechart.Siblings.Merge

set_option autoImplicit false

namespace Statechart.Compile

/-- Compile an invoked service: its attributes with the records of its children over them. -/
def invoke (attributes : Attributes) (children : List Fragment) : Logged Attributes := do
  return attributes.extend (← Siblings.mergeRecords children)

/-- A service reports what uniting the records does. -/
theorem log_invoke (attributes : Attributes) (children : List Fragment) :
    (invoke attributes children).log = (Siblings.mergeRecords children).log := by
  rw [invoke, Logged.log_bind, Logged.log_pure, List.append_nil]

/-- Compile an outcome: its attributes under the name of the outcome. -/
def outcome (name : String) (attributes : Attributes) : Attributes := [(name, .obj attributes)]

end Statechart.Compile
