/-
`Json/Parse.lean` -- JSON values from their text.

A source tree becomes a value when its lists and records nest at most 127 deep, its numbers are
within range, and its `\u` escapes are characters or surrogate pairs. Repeated members stay
repeated: whether that is an error depends on who reads the record.
-/
import Statechart.Json.Source
import Statechart.Json.Basic

set_option autoImplicit false

namespace Statechart.Json

/-- How deep lists and records may nest. -/
def maxDepth : Nat := 127

/-- The characters of a string: a unit below or above the surrogates stands for itself, a high
surrogate needs a low one behind it, and a low one does not stand alone. -/
def Piece.chars? : List Piece → Option (List Char)
  | [] => some []
  | .char c :: rest => (chars? rest).map (c :: ·)
  | .unit high :: .unit low :: rest =>
      if 0xD800 ≤ high ∧ high < 0xDC00 then
        if 0xDC00 ≤ low ∧ low < 0xE000 then
          (chars? rest).map (Char.ofNat ((high - 0xD800) * 0x400 + (low - 0xDC00) + 0x10000) :: ·)
        else none
      else if 0xDC00 ≤ high ∧ high < 0xE000 then none
      else (chars? (.unit low :: rest)).map (Char.ofNat high :: ·)
  | .unit value :: rest =>
      if 0xD800 ≤ value ∧ value < 0xE000 then none
      else (chars? rest).map (Char.ofNat value :: ·)

/-- The string that pieces spell. -/
def Piece.string? (pieces : List Piece) : Option String := (chars? pieces).map String.ofList

namespace Source

mutual
/-- The value of a source tree in which lists and records nest at most `depth` deep. -/
def json? (depth : Nat) : Source → Option Json
  | .null => some .null
  | .bool value => some (.bool value)
  | .number literal => literal.number?.map .num
  | .text pieces => (Piece.string? pieces).map .str
  | .list items =>
      match depth with
      | 0 => none
      | depth + 1 => (jsonItems? depth items).map .arr
  | .record members =>
      match depth with
      | 0 => none
      | depth + 1 => (jsonMembers? depth members).map .obj
/-- The value of each item. -/
def jsonItems? (depth : Nat) : List Source → Option (List Json)
  | [] => some []
  | item :: rest =>
      match json? depth item, jsonItems? depth rest with
      | some value, some values => some (value :: values)
      | _, _ => none
/-- The name and the value of each member. -/
def jsonMembers? (depth : Nat) : List (List Piece × Source) → Option (List (String × Json))
  | [] => some []
  | (key, member) :: rest =>
      match Piece.string? key, json? depth member, jsonMembers? depth rest with
      | some key, some value, some values => some ((key, value) :: values)
      | _, _, _ => none
end

/-- The named fields of a small record, written as an object or as a list in field order. Unknown
members are skipped. A field may not come twice, and a list may not be longer than the names. -/
def fields? (names : List String) : Source → Option (OrderedMap Source)
  | .record members => do
      let named ← members.mapM fun (key, source) => (Piece.string? key).map (·, source)
      -- a skipped member may repeat, and its value may be out of range
      let known := named.filter fun entry => names.contains entry.1
      if (OrderedMap.keys known).Nodup then some known else none
  | .list items => if items.length ≤ names.length then some (names.zip items) else none
  | _ => none

/-- The value of a named field. -/
def field? (fields : OrderedMap Source) (name : String) : Option Json :=
  (fields.get? name).bind (json? maxDepth)

end Source

/-- The value of a text, with repeated members as they stand. -/
def ofText? (text : String) : Option Json := (Source.ofText? text).bind (Source.json? maxDepth)

end Statechart.Json
