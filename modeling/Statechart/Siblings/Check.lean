/-
`Siblings/Check.lean` -- finding ambiguities among the children of one element.

A check lists the violations it finds, and to enforce checks is to do with all their violations what
the policy says. What the folds of `Siblings/Merge.lean` lose without asking is what the checks
find.
-/
import Statechart.Siblings.Merge
import Statechart.Compilation

set_option autoImplicit false

namespace Statechart

/-- Something that siblings are examined for. -/
abbrev Check : Type := List Fragment → List Violation

namespace Siblings

/-! ## 1. Keys -/

/-- The ids of the states, `none` for a state without one. -/
def stateIds (children : List Fragment) : List (Option String) :=
  (states children).map StateNode.id

/-- The events of the transitions, `none` for a transition without one. -/
def events (children : List Fragment) : List (Option String) :=
  (transitions children).map Prod.fst

/-- Count a key once more. -/
def countKey (counted : OrderedMap Nat) (key : String) : OrderedMap Nat :=
  counted.insert key ((counted.get? key).getD 0 + 1)

/-- How often each key comes, in order of first arrival. -/
def counts (keys : List String) : OrderedMap Nat := keys.foldl countKey []

/-- The keys that come more than once, in order of first arrival, with how often they come. -/
def repeated (keys : List String) : OrderedMap Nat :=
  (counts keys).filter fun entry => 1 < entry.2

/-- The violations of keys that should be present and distinct: one for each missing key, then one
for each repeated one. -/
def keyViolations (missing : Violation) (duplicate : String → Nat → Violation)
    (keys : List (Option String)) : List Violation :=
  (keys.filter Option.isNone).map (fun _ => missing)
    ++ (repeated (keys.filterMap id)).map fun entry => duplicate entry.1 entry.2

/-! ## 2. Checks -/

/-- Every state has an id that no sibling shares. -/
def uniqueStateIds : Check := fun children =>
  keyViolations .missingStateId .duplicateStateId (stateIds children)

/-- Every transition has an event that no sibling shares. -/
def uniqueEvents : Check := fun children =>
  keyViolations .missingEvent .duplicateEvent (events children)

/-- There is at most one invoke block. -/
def singleInvoke : Check := fun children =>
  let count := (invokes children).length
  if 1 < count then [.multipleInvokes count] else []

/-- The checks on the children of a state. -/
def stateChecks : List Check := [uniqueStateIds, uniqueEvents, singleInvoke]

/-- The checks on the children of a machine. -/
def machineChecks : List Check := [uniqueStateIds]

/-- Every violation that the checks find, check by check. -/
def violations (checks : List Check) (children : List Fragment) : List Violation :=
  checks.flatMap fun check => check children

/-! ## 3. Enforcement -/

/-- Report violations at a level, under the name of the element they concern. -/
def report (level : Level) (node : String) (found : List Violation) : Compilation Unit :=
  ExceptT.lift (Logged.notices (found.map (.violation level node)))

/-- Run checks and do with the violations what the policy says. -/
def enforce (checks : List Check) (policy : Policy) (node : String) (children : List Fragment) :
    Compilation Unit :=
  let found := violations checks children
  match policy with
  | .permissive => report .debug node found
  | .warn => report .warn node found
  | .reject => if found = [] then pure () else throw (.ambiguousStructure found)

end Siblings

end Statechart
