/-
`Options/Derive.lean` -- the actions that stand behind context mutators.

A mutator computes a patch of the context. The action derived for it hands that patch to the
patcher. Deriving calls no mutator. A derived action takes the place of a plain action of the same
name.
-/
import Statechart.Implementation
import Statechart.Notice

set_option autoImplicit false

namespace Statechart

/-- The actions derived for mutators in one run of a compiler, under the mutators' names. -/
def deriveActions (run : Nat) (patcher : Patcher) (mutations : Implementations) :
    Logged Implementations :=
  { value := mutations.map fun entry => (entry.1, .derived run entry.1 entry.2 patcher)
    log := mutations.keys.map .derivingAction }

/-- Put derived actions over plain ones, for the machine of the given name. -/
def overrideActions (node : String) (actions derived : Implementations) : Logged Implementations :=
  { value := actions.extend derived
    log := (derived.keys.filter actions.contains).map (.actionReplaced node) }

end Statechart
