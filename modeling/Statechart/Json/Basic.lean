/-
`Json/Basic.lean` -- JSON values, with ordered members.

An object is the list of its members, so that their order is part of the value. Nothing in the
type forbids a repeated member: text may repeat one, and so may the text of a record whose extra
members meet a named one. `Json.collapse` gives every member its first position and its last value,
at every depth; `Json.Distinct` says that there is nothing to collapse.
-/
import Statechart.OrderedMap
import Statechart.Json.Number

set_option autoImplicit false

namespace Statechart

/-- A JSON value. -/
inductive Json where
  | null
  | bool (value : Bool)
  | num (value : Number)
  | str (value : String)
  | arr (items : List Json)
  | obj (members : List (String × Json))
  deriving Inhabited

/-- The attributes of an element, or the members of any other record. -/
abbrev Attributes : Type := OrderedMap Json

namespace Json

/-! ## 1. Decidable equality

This is equality of the value as written, order of members included. -/

mutual
/-- Decides equality of two values. -/
def decEq : (a b : Json) → Decidable (a = b)
  | .null, .null => isTrue rfl
  | .bool a, .bool b => if h : a = b then isTrue (h ▸ rfl) else isFalse fun e => h (bool.inj e)
  | .num a, .num b => if h : a = b then isTrue (h ▸ rfl) else isFalse fun e => h (num.inj e)
  | .str a, .str b => if h : a = b then isTrue (h ▸ rfl) else isFalse fun e => h (str.inj e)
  | .arr a, .arr b =>
      match decEqItems a b with
      | isTrue h => isTrue (h ▸ rfl)
      | isFalse h => isFalse fun e => h (arr.inj e)
  | .obj a, .obj b =>
      match decEqMembers a b with
      | isTrue h => isTrue (h ▸ rfl)
      | isFalse h => isFalse fun e => h (obj.inj e)
  | .null, .bool _ | .null, .num _ | .null, .str _ | .null, .arr _ | .null, .obj _
  | .bool _, .null | .bool _, .num _ | .bool _, .str _ | .bool _, .arr _ | .bool _, .obj _
  | .num _, .null | .num _, .bool _ | .num _, .str _ | .num _, .arr _ | .num _, .obj _
  | .str _, .null | .str _, .bool _ | .str _, .num _ | .str _, .arr _ | .str _, .obj _
  | .arr _, .null | .arr _, .bool _ | .arr _, .num _ | .arr _, .str _ | .arr _, .obj _
  | .obj _, .null | .obj _, .bool _ | .obj _, .num _ | .obj _, .str _ | .obj _, .arr _ =>
      isFalse nofun
/-- Decides equality of two lists of items. -/
def decEqItems : (a b : List Json) → Decidable (a = b)
  | [], [] => isTrue rfl
  | a :: as, b :: bs =>
      match decEq a b, decEqItems as bs with
      | isTrue h, isTrue t => isTrue (by rw [h, t])
      | isFalse h, _ => isFalse fun e => h (List.cons.inj e).1
      | _, isFalse t => isFalse fun e => t (List.cons.inj e).2
  | [], _ :: _ | _ :: _, [] => isFalse nofun
/-- Decides equality of two lists of members. -/
def decEqMembers : (a b : List (String × Json)) → Decidable (a = b)
  | [], [] => isTrue rfl
  | (k, a) :: as, (l, b) :: bs =>
      if hk : k = l then
        match decEq a b, decEqMembers as bs with
        | isTrue h, isTrue t => isTrue (by rw [hk, h, t])
        | isFalse h, _ => isFalse fun e => h (Prod.mk.inj (List.cons.inj e).1).2
        | _, isFalse t => isFalse fun e => t (List.cons.inj e).2
      else isFalse fun e => hk (Prod.mk.inj (List.cons.inj e).1).1
  | [], _ :: _ | _ :: _, [] => isFalse nofun
end

instance : DecidableEq Json := decEq

/-! ## 2. Views -/

/-- The members of an object. -/
def members? : Json → Option Attributes
  | .obj members => some members
  | _ => none

/-- The text of a string. -/
def string? : Json → Option String
  | .str value => some value
  | _ => none

/-- The value of an integer. -/
def int? : Json → Option Int
  | .num (.int value) => some value
  | _ => none

/-- The member of an object under `key`; `null` where there is none. -/
def member (value : Json) (key : String) : Json :=
  ((value.members?.getD []).get? key).getD .null

/-- The value at the end of a path of members; `null` where the path leads nowhere. -/
def atPath (value : Json) (path : List String) : Json := path.foldl member value

/-- The name of an alternative that carries no data: a string, or an object with one `null`. -/
def unitName? : Json → Option String
  | .str name => some name
  | .obj [(name, .null)] => some name
  | _ => none

/-! ## 3. Repeated members -/

mutual
/-- Give every member of every object its first position and its last value. -/
def collapse : Json → Json
  | .null => .null
  | .bool value => .bool value
  | .num value => .num value
  | .str value => .str value
  | .arr items => .arr (collapseItems items)
  | .obj members => .obj (OrderedMap.ofBindings (collapseMembers members))
/-- `collapse` on each item. -/
def collapseItems : List Json → List Json
  | [] => []
  | item :: rest => item.collapse :: collapseItems rest
/-- `collapse` on the value of each member. -/
def collapseMembers : List (String × Json) → List (String × Json)
  | [] => []
  | (key, value) :: rest => (key, value.collapse) :: collapseMembers rest
end

/-- The members of a record, each with its first position and its last value. -/
def collapseRecord (members : List (String × Json)) : Attributes :=
  OrderedMap.ofBindings (collapseMembers members)

mutual
/-- No object in the value repeats a member. -/
def Distinct : Json → Prop
  | .null => True
  | .bool _ => True
  | .num _ => True
  | .str _ => True
  | .arr items => DistinctItems items
  | .obj members => OrderedMap.Distinct members ∧ DistinctMembers members
/-- `Distinct` of each item. -/
def DistinctItems : List Json → Prop
  | [] => True
  | item :: rest => item.Distinct ∧ DistinctItems rest
/-- `Distinct` of the value of each member. -/
def DistinctMembers : List (String × Json) → Prop
  | [] => True
  | (_, value) :: rest => value.Distinct ∧ DistinctMembers rest
end

/-! ## 4. Equality up to the order of members -/

mutual
/-- Equality in which arrays are ordered and the members of objects are not. -/
def same : Json → Json → Bool
  | .null, .null => true
  | .bool a, .bool b => a == b
  | .num a, .num b => a.same b
  | .str a, .str b => a == b
  | .arr a, .arr b => sameItems a b
  | .obj a, .obj b => a.length == b.length && sameMembers a b
  | _, _ => false
/-- Item by item. -/
def sameItems : List Json → List Json → Bool
  | [], [] => true
  | a :: as, b :: bs => a.same b && sameItems as bs
  | _, _ => false
/-- Each member on the left has its equal on the right. -/
def sameMembers : List (String × Json) → List (String × Json) → Bool
  | [], _ => true
  | (key, a) :: rest, right =>
      (match OrderedMap.get? right key with
        | some b => a.same b
        | none => false)
      && sameMembers rest right
end

end Json

/-- Equality of optional values, with `eq` where both are present. -/
def sameOption {α : Type} (eq : α → α → Bool) : Option α → Option α → Bool
  | none, none => true
  | some a, some b => eq a b
  | _, _ => false

/-- Equality of records up to the order of members at every depth. -/
def Attributes.same (left right : Attributes) : Bool := OrderedMap.same Json.same left right

end Statechart
