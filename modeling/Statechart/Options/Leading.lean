/-
`Options/Leading.lean` -- the options record among a machine's children.

Only the first child counts. An options record that stands anywhere else is dropped, and each one
that is dropped is reported.
-/
import Statechart.Fragment
import Statechart.Notice

set_option autoImplicit false

namespace Statechart

/-- What a machine's children come to: the record that leads them, and the rest. -/
structure SplitChildren where
  options : Option OptionsRecord
  rest : List Fragment

namespace SplitChildren

/-- The options record that leads the children, if one does. -/
def leading? (children : List Fragment) : Option OptionsRecord :=
  children.head?.bind Fragment.options?

/-- The children that are no options records. -/
def withoutOptions (children : List Fragment) : List Fragment :=
  children.filter fun child => child.options?.isNone

/-- The options records that do not lead. -/
def misplaced (children : List Fragment) : List OptionsRecord :=
  children.tail.filterMap Fragment.options?

end SplitChildren

/-- Split a machine's children into the options record and the rest. -/
def splitOptions (children : List Fragment) : Logged SplitChildren :=
  { value :=
      { options := SplitChildren.leading? children
        rest := SplitChildren.withoutOptions children }
    log := (SplitChildren.misplaced children).map fun _ => .optionsIgnored }

end Statechart
