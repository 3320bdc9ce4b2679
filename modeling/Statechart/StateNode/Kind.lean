/-
`StateNode/Kind.lean` -- what category of statechart node a state is.

The category is not stored. An explicit `type` attribute decides, and a `type` that names no
category leaves the state without one. Otherwise a boolean marker attribute decides, and otherwise
the structure: a state with nested states is compound, one without is atomic.
-/
import Statechart.StateNode.Basic

set_option autoImplicit false

namespace Statechart

/-- The categories of a state. -/
inductive StateKind where
  /-- No nested states. -/
  | atomic
  /-- Nested states, one of them active at a time. -/
  | compound
  /-- Nested states, all of them active at once. -/
  | parallel
  /-- A terminal leaf. -/
  | final
  /-- Stands for the most recently visited state of its parent. -/
  | history
  deriving DecidableEq

namespace StateKind

/-- The category as the `type` attribute names it. -/
def name : StateKind → String
  | .atomic => "atomic"
  | .compound => "compound"
  | .parallel => "parallel"
  | .final => "final"
  | .history => "history"

/-- All categories. -/
def all : List StateKind := [.atomic, .compound, .parallel, .final, .history]

/-- The category of a name. -/
def ofName? (name : String) : Option StateKind := all.find? fun kind => kind.name == name

/-- A category is found by its name. -/
theorem ofName?_name (kind : StateKind) : ofName? kind.name = some kind := by
  cases kind <;> rfl

/-- The category as JSON. -/
def toJson (kind : StateKind) : Json := .str kind.name

/-- The category of a JSON name. -/
def ofJson? (value : Json) : Option StateKind := value.unitName?.bind ofName?

/-- The categories that a marker attribute may claim, the first claimed one winning. -/
def markers : List StateKind := [.compound, .parallel, .final, .history]

/-- Whether states of this category have states of their own to speak of. -/
def hasChildStates : StateKind → Bool
  | .compound | .parallel | .history => true
  | .atomic | .final => false

end StateKind

namespace StateNode

/-- Whether the attribute named after a category is exactly `true`. -/
def isMarked (node : StateNode) (kind : StateKind) : Bool :=
  OrderedMap.get? node.attributes kind.name == some (.bool true)

/-- The category that a state's structure gives it. -/
def structuralKind (node : StateNode) : StateKind :=
  match node.states with
  | some (_ :: _) => .compound
  | _ => .atomic

/-- The category of a state, or `none` when its `type` names none. -/
def kind? (node : StateNode) : Option StateKind :=
  match OrderedMap.get? node.attributes "type" with
  | some explicit => explicit.string?.bind StateKind.ofName?
  | none => some ((StateKind.markers.find? node.isMarked).getD node.structuralKind)

/-- Whether a state's category carries nested states. -/
def hasChildStates (node : StateNode) : Bool :=
  node.kind?.any StateKind.hasChildStates

end StateNode

end Statechart
