/-
`Json/Render.lean` -- the text of a JSON value.

Compact text has no space at all; indented text opens a line for every item and member. Quotation
mark and backslash are escaped, and so is every character below the space; everything else stands
for itself.
-/
import Statechart.Json.Basic

set_option autoImplicit false

namespace Statechart.Json

/-! ## Strings -/

/-- The four hexadecimal digits of a character below `0x100`. -/
def hexEscape (c : Char) : List Char :=
  ['\\', 'u', '0', '0', Nat.digitChar (c.toNat / 16), Nat.digitChar (c.toNat % 16)]

/-- How a character stands inside a string. -/
def escape (c : Char) : List Char :=
  if c = '"' then ['\\', '"']
  else if c = '\\' then ['\\', '\\']
  else if c = '\x08' then ['\\', 'b']
  else if c = '\x0c' then ['\\', 'f']
  else if c = '\n' then ['\\', 'n']
  else if c = '\r' then ['\\', 'r']
  else if c = '\t' then ['\\', 't']
  else if c.toNat < 0x20 then hexEscape c
  else [c]

/-- A quoted string. -/
def quote (text : String) : String :=
  String.ofList ('"' :: (text.toList.flatMap escape ++ ['"']))

/-! ## Values -/

mutual
/-- Compact text. Members are written as they stand, repeated ones included. -/
def render : Json → String
  | .null => "null"
  | .bool true => "true"
  | .bool false => "false"
  | .num value => value.render
  | .str value => quote value
  | .arr items => "[" ++ ",".intercalate (renderItems items) ++ "]"
  | .obj members => "\x7b" ++ ",".intercalate (renderMembers members) ++ "\x7d"
/-- The text of each item. -/
def renderItems : List Json → List String
  | [] => []
  | item :: rest => item.render :: renderItems rest
/-- The text of each member. -/
def renderMembers : List (String × Json) → List String
  | [] => []
  | (key, value) :: rest => (quote key ++ ":" ++ value.render) :: renderMembers rest
end

/-- The text of a record. -/
def renderRecord (members : Attributes) : String := (Json.obj members).render

/-- Lines between brackets, each indented by two spaces more than the brackets. -/
def bracketed (opening closing : String) (depth : Nat) (lines : List String) : String :=
  if lines.isEmpty then opening ++ closing
  else
    let outer := String.ofList (List.replicate (2 * depth) ' ')
    let inner := String.ofList (List.replicate (2 * depth + 2) ' ')
    opening ++ "\n" ++ ",\n".intercalate (lines.map (inner ++ ·)) ++ "\n" ++ outer ++ closing

mutual
/-- Indented text, with the value standing at `depth` levels of two spaces. -/
def indented (depth : Nat) : Json → String
  | .arr items => bracketed "[" "]" depth (indentedItems (depth + 1) items)
  | .obj members => bracketed "\x7b" "\x7d" depth (indentedMembers (depth + 1) members)
  | .null => "null"
  | .bool value => (Json.bool value).render
  | .num value => value.render
  | .str value => quote value
/-- The indented text of each item. -/
def indentedItems (depth : Nat) : List Json → List String
  | [] => []
  | item :: rest => indented depth item :: indentedItems depth rest
/-- The indented text of each member. -/
def indentedMembers (depth : Nat) : List (String × Json) → List String
  | [] => []
  | (key, value) :: rest =>
      (quote key ++ ": " ++ indented depth value) :: indentedMembers depth rest
end

/-! ## Values as keys -/

/-- The key a value stands for: a string is itself, any other value is its compact text. -/
def key : Json → String
  | .str value => value
  | other => other.render

end Statechart.Json
