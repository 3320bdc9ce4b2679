/-
`Implementation.lean` -- the callables behind the names of a machine.

Compilation moves implementations around and wraps them, but never calls one. Two of them are equal
when they are one and the same callable, so each carries an identity: a user's implementation the
number it was made under, a derived action the run that derived it, its name and the identity of
its mutator. What a callable computes has no say in it.
-/
import Statechart.Json.Basic

set_option autoImplicit false

namespace Statechart

/-- What tells implementations apart. -/
inductive Identity where
  | given (number : Nat)
  | derived (run : Nat) (action : String) (mutator : Identity)
  deriving DecidableEq

/-- Turns the context patch that a mutator returns into the runtime's patch action. -/
abbrev Patcher : Type := Json → Json

/-- A callable from runtime arguments to a value. -/
inductive Implementation where
  /-- A user's function, made under a number of its own. -/
  | given (number : Nat) (function : List Json → Json)
  /-- The action derived for a context mutator in one run of a compiler. -/
  | derived (run : Nat) (action : String) (mutator : Implementation) (patcher : Patcher)

namespace Implementation

/-- What tells an implementation apart from every other. -/
def identity : Implementation → Identity
  | .given number _ => .given number
  | .derived run action mutator _ => .derived run action mutator.identity

/-- Call an implementation. A derived action hands the patch of its mutator to the patcher. -/
def call : Implementation → List Json → Json
  | .given _ function, arguments => function arguments
  | .derived _ _ mutator patcher, arguments => patcher (mutator.call arguments)

/-- How many calls of a user's function one call makes. -/
def userCalls : Implementation → Nat
  | .given _ _ => 1
  | .derived _ _ mutator _ => mutator.userCalls

/-- Equality of implementations is equality of their identities. -/
def same (a b : Implementation) : Bool := a.identity == b.identity

/-- An implementation shows nothing of its function. -/
def display (_ : Implementation) : String := "Implementation(..)"

end Implementation

/-- Implementations under their names. -/
abbrev Implementations : Type := OrderedMap Implementation

/-- Equality of two tables of implementations. -/
def Implementations.same (left right : Implementations) : Bool :=
  OrderedMap.same Implementation.same left right

/-- The default patcher: an assignment of the patch. -/
def Patcher.assign : Patcher := fun patch => .obj [("type", .str "assign"), ("patch", patch)]

end Statechart
