/-
`Demo/Page.lean` -- the printed page of a demonstration.

A page has a title, some paragraphs of lines, and a last line that says that the demonstration came
to its end. Between these stand empty lines.
-/
import Statechart.Json.Render

set_option autoImplicit false

namespace Statechart.Demo

/-- The lines of a page. -/
def page (title : String) (paragraphs : List (List String)) : List String :=
  ["=== " ++ title ++ " ==="] ++ paragraphs.flatMap ("" :: ·) ++ ["", "=== Example Complete ==="]

/-- Names between brackets, each of them quoted. -/
def nameList (names : List String) : String :=
  "[" ++ ", ".intercalate (names.map Json.quote) ++ "]"

/-- A text filled up with spaces to a width. -/
def padded (width : Nat) (text : String) : String :=
  text ++ String.ofList (List.replicate (width - text.length) ' ')

end Statechart.Demo
