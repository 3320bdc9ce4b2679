/-
`Demo/Fetcher.lean` -- a machine that fetches data, with everything it needs in an options record.

The first part compiles it for a runtime that keeps only a summary. The second part compiles a
smaller one to a blueprint and calls the action that was derived for its mutator.
-/
import Statechart.Compile.Compiler
import Statechart.Demo.Page

set_option autoImplicit false

namespace Statechart.Demo.Fetcher

/-- What the runtime keeps of a machine. -/
structure Summary where
  id : Json
  states : List String
  actions : List String
  services : List String

/-- Keep the names and drop the rest. -/
def Summary.ofMachine (config : MachineConfig) (options : MachineOptions) : Summary :=
  { id := config.id.getD .null
    states := (config.states.getD []).keys
    actions := options.actions.keys
    services := options.services.keys }

/-- How often the fetch was retried, according to the context in front of the arguments. -/
def retries (arguments : List Json) : Int :=
  (((arguments.headD .null).member "retries").int?).getD 0

/-- The patch of a context that counts so many retries. -/
def retriesPatch (count : Int) : Json := .obj [("retries", .num (.int count))]

/-- The definitions that the markup refers to. -/
def options : OptionsRecord := .ofSteps
  [.context (.obj [("retries", .num (.int 0)), ("data", .null)]),
    .bind .guard "canRetry" (.given 0 fun arguments => .bool (retries arguments < 3)),
    .bind .mutation "countRetry" (.given 1 fun arguments => retriesPatch (retries arguments + 1)),
    .bind .service "fetchData" (.given 2 fun _ => .obj [("status", .str "pending")]),
    .bind .delay "backoff" (.given 3 fun _ => .num (.int 500))]

/-- The state in which the fetch is under way. -/
def loading {M : Type} : Element M :=
  (Element.state "loading").child <|
    ((Element.invoke "fetchData").child (Element.onDone.attr "target" (.str "success"))).child <|
      ((Element.onError.attr "target" (.str "idle")).attr "actions" (.str "countRetry")).attr "cond"
        (.str "canRetry")

/-- The markup of the machine. -/
def markup {M : Type} : Element M :=
  ((((Element.machine "fetcher" "idle").options options).child
    ((Element.state "idle").child (.transition "FETCH" "loading"))).child loading).child
    ((Element.state "success").attr "type" (.str "final"))

/-- The markup of the smaller machine. -/
def smallMarkup {M : Type} : Element M :=
  ((Element.machine "fetcher" "idle").options
    (.ofSteps [.bind .mutation "countRetry" (.given 0 fun _ => retriesPatch 1)])).child
    (.state "idle")

/-- The compiler of the runtime that keeps only a summary. -/
def summarizer : Compiler Summary := { construct := Summary.ofMachine }

/-- The lines of the demonstration. -/
def lines : Except CompileError (List String) := do
  let summary ← (summarizer.build markup).result
  let blueprint ← (Compiler.blueprint.build smallMarkup).result
  let action := blueprint.options.actions.get? "countRetry"
  let patch := (action.map fun derived => derived.call [retriesPatch 0]).getD .null
  return page "Fetching With Options"
    [["Constructed machine " ++ summary.id.render,
        "  states:   " ++ nameList summary.states,
        "  actions:  " ++ nameList summary.actions,
        "  services: " ++ nameList summary.services],
      ["Derived patch action for countRetry:", "  " ++ patch.render]]

end Statechart.Demo.Fetcher
