/-
`Compile/State.lean` -- what a state and a transition compile to.

A state takes its id, its hooks and the folds of its children out of what it is given, and passes
every other attribute through. An attribute `on`, `invoke` or `states` of its own stays only where
no child contributes to the table of that name.
-/
import Statechart.Siblings.Check
import Statechart.Json.Render

set_option autoImplicit false

namespace Statechart.Compile

/-! ## 1. Transitions -/

/-- The event that a transition declares, and the transition. -/
def transition (attributes : Attributes) : Option String × Transition :=
  ((attributes.get? "event").map Json.key,
    { target := attributes.get? "target"
      attributes := attributes.without ["event", "target"] })

/-! ## 2. States -/

/-- The key that a state is to be found under. -/
def stateId? (attributes : Attributes) : Option String := (attributes.get? "id").map Json.key

/-- A hook, by its own name or else by the name that it has in markup. -/
def hook? (attributes : Attributes) (name markupName : String) : Option Json :=
  (attributes.get? name).or (attributes.get? markupName)

/-- The attributes that a state takes for itself. -/
def stateAttributes : List String := ["id", "entry", "exit", "on-entry", "on-exit"]

/-- A name, if a value was folded for it. -/
def folded {α : Type} (name : String) (value : Option α) : List String :=
  if value.isSome then [name] else []

/-- A state, from its attributes and the folds of its children. -/
def assembleState (attributes : Attributes) (on : Option TransitionTable)
    (invoke : Option Attributes) (states : Option StateTable) : StateNode :=
  { id := stateId? attributes
    entry := hook? attributes "entry" "on-entry"
    exit := hook? attributes "exit" "on-exit"
    on
    invoke
    states
    attributes := attributes.without
      (stateAttributes ++ folded "on" on ++ folded "invoke" invoke ++ folded "states" states) }

/-- Compile a state. -/
def state (policy : Policy) (attributes : Attributes) (children : List Fragment) :
    Compilation StateNode := do
  Siblings.enforce Siblings.stateChecks policy ((stateId? attributes).getD "state") children
  -- what is lost among the transitions is reported before what is lost among the states
  let on ← ExceptT.lift (Siblings.mergeTransitions children)
  let states ← ExceptT.lift (Siblings.mergeStates children)
  return assembleState attributes on (Siblings.firstInvoke? children) states

end Statechart.Compile
