/-
`Json/Source.lean` -- the tree that JSON text spells, before anything is asked of its values.

A text has a source tree exactly when it is one complete value of the grammar. The tree still holds
numbers as digits and strings as pieces, because a record that skips a member it does not know must
not care whether that member's numbers fit or its escapes pair up.
-/
import Statechart.Json.Token

set_option autoImplicit false

namespace Statechart.Json

/-- The source of a JSON value. -/
inductive Source where
  | null
  | bool (value : Bool)
  | number (literal : Number.Literal)
  | text (pieces : List Piece)
  | list (items : List Source)
  | record (members : List (List Piece × Source))

namespace Source

/-- What is left of a run of tokens once something was read from its front. -/
abbrev Rest (tokens : List Token) : Type := { rest : List Token // rest.length < tokens.length }

/-- What stands behind the first token. -/
def Rest.tail {token : Token} (tokens : List Token) : Rest (token :: tokens) :=
  ⟨tokens, Nat.lt_succ_self tokens.length⟩

/-- What is left of the tokens behind the first one is left of all of them. -/
def Rest.behind {token : Token} {tokens : List Token} (rest : Rest tokens) :
    Rest (token :: tokens) :=
  ⟨rest.val, Nat.lt_succ_of_lt rest.property⟩

/-- What is left of what is left. -/
def Rest.trans {tokens : List Token} (first : Rest tokens) (second : Rest first.val) :
    Rest tokens :=
  ⟨second.val, Nat.lt_trans second.property first.property⟩

mutual
/-- Read a value from the front of the tokens. -/
def value? (tokens : List Token) : Option (Source × Rest tokens) :=
  match tokens with
  | .null :: rest => some (.null, .tail rest)
  | .bool value :: rest => some (.bool value, .tail rest)
  | .number literal :: rest => some (.number literal, .tail rest)
  | .quoted pieces :: rest => some (.text pieces, .tail rest)
  | .mark '[' :: .mark ']' :: rest => some (.list [], (Rest.tail rest).behind)
  | .mark '[' :: rest =>
      match items? rest with
      | some (items, after) => some (.list items, after.behind)
      | none => none
  | .mark '\x7b' :: .mark '\x7d' :: rest => some (.record [], (Rest.tail rest).behind)
  | .mark '\x7b' :: rest =>
      match members? rest with
      | some (members, after) => some (.record members, after.behind)
      | none => none
  | _ => none
termination_by (tokens.length, 0)
/-- Read items from the front of the tokens, up to the bracket that closes their list. -/
def items? (tokens : List Token) : Option (List Source × Rest tokens) :=
  match value? tokens with
  | some (item, ⟨.mark c :: rest, h⟩) =>
      have shorter : rest.length < tokens.length := Nat.lt_of_succ_lt h
      if c = ']' then some ([item], ⟨rest, shorter⟩)
      -- behind a comma at least one more item has to follow
      else if c = ',' then
        match items? rest with
        | some (items, after) => some (item :: items, Rest.trans ⟨rest, shorter⟩ after)
        | none => none
      else none
  | _ => none
termination_by (tokens.length, 1)
/-- Read members from the front of the tokens, up to the brace that closes their record. -/
def members? (tokens : List Token) : Option (List (List Piece × Source) × Rest tokens) :=
  match tokens with
  | .quoted key :: .mark ':' :: rest =>
      match value? rest with
      | some (value, ⟨.mark c :: after, h⟩) =>
          have shorter : after.length < rest.length := Nat.lt_of_succ_lt h
          if c = '\x7d' then
            let closed : Rest rest := ⟨after, shorter⟩
            some ([(key, value)], closed.behind.behind)
          -- and behind this comma at least one more member
          else if c = ',' then
            match members? after with
            | some (members, last) =>
                let closed := Rest.trans ⟨after, shorter⟩ last
                some ((key, value) :: members, closed.behind.behind)
            | none => none
          else none
      | _ => none
  | _ => none
termination_by (tokens.length, 1)
end

/-- The source tree of a text, if the text is one complete value. -/
def ofText? (text : String) : Option Source := do
  let tokens ← Token.split? text.toList
  match value? tokens with
  | some (source, ⟨[], _⟩) => some source
  | _ => none

end Source

end Statechart.Json
