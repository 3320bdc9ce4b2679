/-
`Siblings/Violation.lean` -- ambiguities among the children of one element, and what to do about
them.

Each violation has a sentence for people and a JSON form for programs. A policy says whether
violations are noted, warned about, or end the compilation.
-/
import Statechart.Json.Parse
import Statechart.Json.Render

set_option autoImplicit false

namespace Statechart

/-- An ambiguity among siblings. -/
inductive Violation where
  | duplicateStateId (id : String) (count : Nat)
  | duplicateEvent (event : String) (count : Nat)
  | multipleInvokes (count : Nat)
  | missingStateId
  | missingEvent
  deriving DecidableEq

namespace Violation

/-- The sentence that reports a violation. -/
def message : Violation → String
  | .duplicateStateId id count =>
      "Duplicate state id '" ++ id ++ "' (" ++ toString count ++ " siblings)"
  | .duplicateEvent event count =>
      "Duplicate transition event '" ++ event ++ "' (" ++ toString count ++ " siblings)"
  | .multipleInvokes count =>
      "Multiple invoke blocks (" ++ toString count ++ "); only the first is used"
  | .missingStateId => "State without an id cannot be keyed"
  | .missingEvent => "Transition without an event cannot be keyed"

/-- The JSON form: the name of the violation, as the key of its data if it has any. -/
def toJson : Violation → Json
  | .duplicateStateId id count =>
      .obj [("DuplicateStateId", .obj [("id", .str id), ("count", .num (.int count))])]
  | .duplicateEvent event count =>
      .obj [("DuplicateEvent", .obj [("event", .str event), ("count", .num (.int count))])]
  | .multipleInvokes count => .obj [("MultipleInvokes", .obj [("count", .num (.int count))])]
  | .missingStateId => .str "MissingStateId"
  | .missingEvent => .str "MissingEvent"

/-- A count among the fields of a violation. -/
def countField? (fields : OrderedMap Json.Source) : Option Nat := do
  let count ← (← Json.Source.field? fields "count").int?
  if 0 ≤ count then some count.toNat else none

/-- The violation of a name and the source of its data. -/
def ofNamed? (name : String) (data : Json.Source) : Option Violation :=
  if name = "DuplicateStateId" then do
    let fields ← data.fields? ["id", "count"]
    return .duplicateStateId (← (← Json.Source.field? fields "id").string?) (← countField? fields)
  else if name = "DuplicateEvent" then do
    let fields ← data.fields? ["event", "count"]
    return .duplicateEvent (← (← Json.Source.field? fields "event").string?) (← countField? fields)
  else if name = "MultipleInvokes" then do
    return .multipleInvokes (← countField? (← data.fields? ["count"]))
  else
    match name, data with
    | "MissingStateId", .null => some .missingStateId
    | "MissingEvent", .null => some .missingEvent
    | _, _ => none

/-- Read a violation from its source: a bare name if it has no data, else its name with its data. -/
def ofSource? : Json.Source → Option Violation
  | .text pieces => do
      let name ← Json.Piece.string? pieces
      if name = "MissingStateId" then some .missingStateId
      else if name = "MissingEvent" then some .missingEvent
      else none
  | .record [(pieces, data)] => do ofNamed? (← Json.Piece.string? pieces) data
  | _ => none

/-- Read a violation from text. -/
def ofText? (text : String) : Option Violation := (Json.Source.ofText? text).bind ofSource?

end Violation

/-- What happens to violations. -/
inductive Policy where
  /-- Resolve by order, and note the violations for debugging. -/
  | permissive
  /-- Resolve by order, and warn of the violations. -/
  | warn
  /-- End the compilation with every violation found. -/
  | reject
  deriving DecidableEq, Inhabited

namespace Policy

/-- The name of a policy in settings. -/
def name : Policy → String
  | .permissive => "permissive"
  | .warn => "warn"
  | .reject => "reject"

/-- The name of a policy in a sentence. -/
def title : Policy → String
  | .permissive => "Permissive"
  | .warn => "Warn"
  | .reject => "Reject"

/-- All policies. -/
def all : List Policy := [.permissive, .warn, .reject]

/-- The policy of a JSON name. -/
def ofJson? (value : Json) : Option Policy :=
  value.unitName?.bind fun name => all.find? fun policy => policy.name == name

end Policy

/-- The settings of a whole compilation. -/
structure Settings where
  /-- How repeated ids and events and further invoke blocks are handled. -/
  duplicates : Policy := .permissive
  deriving DecidableEq, Inhabited

namespace Settings

/-- Settings as JSON. -/
def toJson (settings : Settings) : Json := .obj [("duplicates", .str settings.duplicates.name)]

/-- Read settings from their source; what is not given takes its default. -/
def ofSource? (source : Json.Source) : Option Settings := do
  let fields ← source.fields? ["duplicates"]
  match fields.get? "duplicates" with
  | none => some {}
  | some _ => return { duplicates := ← Policy.ofJson? (← Json.Source.field? fields "duplicates") }

/-- Read settings from text. -/
def ofText? (text : String) : Option Settings := (Json.Source.ofText? text).bind ofSource?

end Settings

end Statechart
