/-
`Notice.lean` -- what is reported while markup is compiled.

A step yields a value and the notices that it gave on the way. The notices are data, so a statement
about the log is a statement about a list.
-/
import Statechart.Siblings.Violation

set_option autoImplicit false

namespace Statechart

/-! ## 1. Notices -/

/-- How much a notice matters. -/
inductive Level where
  | warn
  | debug
  | trace
  deriving DecidableEq

namespace Level

/-- The name of a level. -/
def name : Level → String
  | .warn => "WARN"
  | .debug => "DEBUG"
  | .trace => "TRACE"

/-- Levels by increasing detail. -/
def detail : Level → Nat
  | .warn => 0
  | .debug => 1
  | .trace => 2

end Level

/-- One report of a compilation. `node` is the name of the element it concerns. -/
inductive Notice where
  /-- An element with this many compiled children is being compiled. -/
  | compiling (tag : String) (children : Nat)
  /-- A violation among the children of an element that the policy lets pass. -/
  | violation (level : Level) (node : String) (violation : Violation)
  | stateReplaced (id : String)
  | stateSkipped
  | transitionReplaced (event : String)
  | transitionSkipped
  /-- A child that is no record stood where only records are merged. -/
  | childIgnored (kind : String)
  /-- An options record that is not the first child was dropped. -/
  | optionsIgnored
  /-- The raw configuration of a machine is no record. -/
  | configIgnored (node : String) (value : Json)
  | attributeIgnored (node : String) (key : String)
  | derivingAction (name : String)
  /-- A derived action takes the place of a plain one. -/
  | actionReplaced (node : String) (action : String)
  | assembled (node : String) (states : Nat) (actions : Nat)
  deriving DecidableEq

namespace Notice

/-- How much a notice matters. -/
def level : Notice → Level
  | .compiling _ _ => .trace
  | .violation level _ _ => level
  | .stateReplaced _ => .debug
  | .stateSkipped => .warn
  | .transitionReplaced _ => .debug
  | .transitionSkipped => .warn
  | .childIgnored _ => .warn
  | .optionsIgnored => .warn
  | .configIgnored _ _ => .warn
  | .attributeIgnored _ _ => .debug
  | .derivingAction _ => .debug
  | .actionReplaced _ _ => .debug
  | .assembled _ _ _ => .debug

/-- The sentence that a notice is. -/
def message : Notice → String
  | .compiling tag children =>
      "compiling <" ++ tag ++ "> with " ++ toString children ++ " children"
  | .violation _ node found => node ++ ": " ++ found.message
  | .stateReplaced id => "state '" ++ id ++ "' replaced by a later sibling"
  | .stateSkipped => "skipping state without an id"
  | .transitionReplaced event => "transition on '" ++ event ++ "' replaced by a later sibling"
  | .transitionSkipped => "skipping transition without an event"
  | .childIgnored kind => "ignoring " ++ kind ++ " child where only records merge"
  | .optionsIgnored => "ignoring options record that is not the first child"
  | .configIgnored node value =>
      node ++ ": ignoring config attribute that is not a record: " ++ value.render
  | .attributeIgnored node key => node ++ ": ignoring machine attribute '" ++ key ++ "'"
  | .derivingAction name => "deriving patch action '" ++ name ++ "'"
  | .actionReplaced node action => node ++ ": mutation '" ++ action ++ "' replaces an action"
  | .assembled node states actions =>
      node ++ ": assembled " ++ toString states ++ " top-level states, " ++ toString actions
        ++ " actions"

end Notice

/-! ## 2. Steps that report -/

/-- A value and the notices given on the way to it. -/
structure Logged (α : Type) where
  value : α
  log : List Notice := []

namespace Logged

instance : Monad Logged where
  pure value := { value }
  bind step next :=
    let after := next step.value
    { value := after.value, log := step.log ++ after.log }

variable {α β : Type}

@[simp] theorem value_pure (a : α) : (pure a : Logged α).value = a := rfl

@[simp] theorem log_pure (a : α) : (pure a : Logged α).log = [] := rfl

@[simp] theorem value_bind (step : Logged α) (next : α → Logged β) :
    (step >>= next).value = (next step.value).value := rfl

@[simp] theorem log_bind (step : Logged α) (next : α → Logged β) :
    (step >>= next).log = step.log ++ (next step.value).log := rfl

/-- Two steps are equal when their values and their logs are. -/
@[ext] theorem ext {step step' : Logged α} (value : step.value = step'.value)
    (log : step.log = step'.log) : step = step' := by
  cases step
  cases step'
  simp only at value log
  rw [value, log]

instance : LawfulMonad Logged := LawfulMonad.mk' Logged
  (fun step => ext rfl (List.append_nil step.log))
  (fun _ _ => rfl)
  (fun step next last => ext rfl (List.append_assoc ..))

/-- Give one notice. -/
def notice (notice : Notice) : Logged Unit := { value := (), log := [notice] }

/-- Give notices in order. -/
def notices (log : List Notice) : Logged Unit := { value := (), log }

end Logged

end Statechart
