/-
`Element/Tag.lean` -- the tags of markup.

Six tags are built in. Any other meaning of an element is given by a component, a function of the
element's attributes and its compiled children.
-/
import Statechart.Compilation
import Statechart.Fragment

set_option autoImplicit false

namespace Statechart

/-- The built-in tags. -/
inductive Builtin where
  | machine
  | state
  | transition
  | invoke
  | onDone
  | onError
  deriving DecidableEq

namespace Builtin

/-- The tag as it stands in markup. -/
def name : Builtin → String
  | .machine => "machine"
  | .state => "state"
  | .transition => "transition"
  | .invoke => "invoke"
  | .onDone => "on-done"
  | .onError => "on-error"

/-- All built-in tags. -/
def all : List Builtin := [.machine, .state, .transition, .invoke, .onDone, .onError]

/-- The built-in tag of a name. -/
def ofName? (name : String) : Option Builtin := all.find? fun builtin => builtin.name == name

/-- A built-in tag is found by its name. -/
theorem ofName?_name (builtin : Builtin) : ofName? builtin.name = some builtin := by
  cases builtin <;> rfl

/-- The built-in tag of a name, or the error that there is none. -/
def ofName (name : String) : Except CompileError Builtin :=
  match ofName? name with
  | some builtin => .ok builtin
  | none => .error (.unrecognizedTag name)

theorem ofName_name (builtin : Builtin) : ofName builtin.name = .ok builtin := by
  rw [ofName, ofName?_name]

end Builtin

/-- What a component receives. -/
structure Props where
  attributes : Attributes
  children : List Fragment

/-- The result of compiling one element: a machine, or a fragment for its parent. -/
inductive Output (M : Type) where
  | fragment (fragment : Fragment)
  | machine (machine : M)

namespace Output

variable {M : Type}

/-- The fragment, if the result is one. -/
def fragment? : Output M → Option Fragment
  | .fragment found => some found
  | .machine _ => none

/-- The machine, if the result is one. -/
def machine? : Output M → Option M
  | .fragment _ => none
  | .machine found => some found

end Output

/-- The meaning of an element that no built-in tag gives. -/
abbrev Component (M : Type) : Type := Props → Compilation (Output M)

/-- What an element is to be compiled as. -/
inductive Tag (M : Type) where
  | builtin (builtin : Builtin)
  | custom (component : Component M)

namespace Tag

variable {M : Type}

/-- The name of a tag. Components have no names of their own. -/
def name : Tag M → String
  | .builtin known => known.name
  | .custom _ => "component"

end Tag

end Statechart
