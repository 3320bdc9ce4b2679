/-
`Demo/TrafficLight.lean` -- a traffic light: three states in a cycle, as nested markup.

The page shows the transition table of the compiled machine and its whole configuration.
-/
import Statechart.Compile.Compiler
import Statechart.Demo.Page

set_option autoImplicit false

namespace Statechart.Demo.TrafficLight

/-- A light that changes to the next one on a timer. -/
def light {M : Type} (id next : String) : Element M :=
  (Element.state id).child (.transition "TIMER" next)

/-- The markup of the machine. -/
def markup {M : Type} : Element M :=
  (((Element.machine "light" "red").child (light "red" "green")).child
    (light "green" "yellow")).child (light "yellow" "red")

/-- A string, or a dash for any other value and for none. -/
def shown (value : Option Json) : String := (value.bind Json.string?).getD "-"

/-- One line of the transition table for each transition of a state. -/
def tableLines (id : String) (node : StateNode) : List String :=
  (node.on.getD []).map fun (event, transition) =>
    "  " ++ padded 7 id ++ " --" ++ event ++ "--> " ++ shown transition.target

/-- The lines of the demonstration. -/
def lines : Except CompileError (List String) := do
  let config := (← (Compiler.blueprint.build markup).result).config
  return page "Traffic Light Markup"
    [["Machine id: " ++ shown config.id, "Initial state: " ++ shown config.initial],
      "Transition table:" :: (config.states.getD []).flatMap fun (id, node) => tableLines id node,
      "Compiled configuration:" :: (config.toJson.indented 0).splitOn "\n"]

end Statechart.Demo.TrafficLight
