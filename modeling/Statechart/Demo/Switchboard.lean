/-
`Demo/Switchboard.lean` -- a component over the built-in tags, and the policies for duplicates.

The component compiles built-in elements itself: one element of markup becomes a state that flips
between two states of its own. The second part builds the same ambiguous markup under each policy.
-/
import Statechart.Compile.Compiler
import Statechart.Demo.Page

set_option autoImplicit false

namespace Statechart.Demo.Switchboard

/-- A state that changes to another one when toggled. -/
def leaf (id target : Json) : Compilation (Output Blueprint) := do
  let flip ← Compiler.blueprint.compileNamed "transition"
    [("event", .str "TOGGLE"), ("target", target)] []
  Compiler.blueprint.compileNamed "state" [("id", id)] flip.fragment?.toList

/-- A compound state that flips between the states named by its attributes `on` and `off`. -/
def toggle : Component Blueprint := fun props => do
  let given := fun key => (props.attributes.get? key).getD .null
  let (on, off) := (given "on", given "off")
  let leaves := [← leaf off on, ← leaf on off]
  Compiler.blueprint.compile (.builtin .state) [("id", given "id"), ("initial", off)]
    (leaves.filterMap Output.fragment?)

/-- The markup of the machine. -/
def markup : Element Blueprint :=
  ((Element.machine "switchboard" "lamp").child
    ((Element.component toggle).attrs
      [("id", .str "lamp"), ("on", .str "lit"), ("off", .str "dark")])).child
    ((Element.state "fan").child (.transition "POWER" "lamp"))

/-- Markup with two transitions for one event and two states of one id. -/
def ambiguous : Element Blueprint :=
  ((Element.machine "m" "a").child
    (((Element.state "a").child (.transition "GO" "b")).child (.transition "GO" "c"))).child
    (.state "a")

/-- What comes of the ambiguous markup under a policy. -/
def outcome (policy : Policy) : String :=
  let compiler := { Compiler.blueprint with settings := { duplicates := policy } }
  match (compiler.build ambiguous).result with
  | .ok machine =>
      let table := machine.config.toJson.atPath ["states", "a", "on"]
      "compiled, a.on = " ++ table.render
  | .error error => error.message

/-- The lines of the demonstration. -/
def lines : Except CompileError (List String) := do
  let config := (← (Compiler.blueprint.build markup).result).config
  let lampStates := ((config.state? ["lamp"]).bind StateNode.states).getD []
  let target := config.toJson.atPath ["states", "lamp", "states", "dark", "on", "TOGGLE", "target"]
  return page "Custom Components"
    [["Lamp states: " ++ nameList (OrderedMap.keys lampStates),
        "dark --TOGGLE--> " ++ target.render],
      "Duplicate siblings under each policy:" :: Policy.all.map fun policy =>
        "  " ++ policy.title ++ ": " ++ outcome policy]

end Statechart.Demo.Switchboard
