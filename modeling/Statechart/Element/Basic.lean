/-
`Element/Basic.lean` -- trees of markup, and how they are put together.

An element has a tag, attributes and children; a child is an element or a fragment that is compiled
already. Elements are built step by step. Every step adds at the back except one: an options record
goes in front of all children, because only there it counts.
-/
import Statechart.Element.Tag

set_option autoImplicit false

namespace Statechart

mutual
/-- A node of markup. -/
inductive Element (M : Type) where
  | node (tag : Tag M) (attributes : Attributes) (children : List (Child M))
/-- A child of an element. -/
inductive Child (M : Type) where
  | element (element : Element M)
  /-- A child that is compiled already. -/
  | fragment (fragment : Fragment)
end

namespace Element

variable {M : Type}

/-! ## 1. Parts -/

/-- The tag of an element. -/
def tag : Element M → Tag M
  | node tag _ _ => tag

/-- The attributes of an element. -/
def attributes : Element M → Attributes
  | node _ attributes _ => attributes

/-- The children of an element. -/
def children : Element M → List (Child M)
  | node _ _ children => children

/-- An element without attributes or children. -/
def ofTag (tag : Tag M) : Element M := node tag [] []

/-! ## 2. Steps -/

/-- Set one attribute. -/
def attr (element : Element M) (key : String) (value : Json) : Element M :=
  node element.tag (element.attributes.insert key value) element.children

/-- Set several attributes in order. -/
def attrs (element : Element M) (attributes : Attributes) : Element M :=
  node element.tag (element.attributes.extend attributes) element.children

/-- Append children. -/
def append (element : Element M) (children : List (Child M)) : Element M :=
  node element.tag element.attributes (element.children ++ children)

/-- Append a child element. -/
def child (element child : Element M) : Element M := element.append [.element child]

/-- Append child elements in order. -/
def childElements (element : Element M) (children : List (Element M)) : Element M :=
  element.append (children.map .element)

/-- Append a fragment that is compiled already. -/
def fragment (element : Element M) (fragment : Fragment) : Element M :=
  element.append [.fragment fragment]

/-- Put an options record in front of all children. -/
def options (element : Element M) (record : OptionsRecord) : Element M :=
  node element.tag element.attributes (.fragment (.options record) :: element.children)

/-- One step in building an element. -/
inductive Step (M : Type) where
  | attr (key : String) (value : Json)
  | attrs (attributes : Attributes)
  | child (child : Element M)
  | children (children : List (Element M))
  | fragment (fragment : Fragment)
  | options (record : OptionsRecord)

/-- Take one step. -/
def apply (element : Element M) : Step M → Element M
  | .attr key value => element.attr key value
  | .attrs attributes => element.attrs attributes
  | .child child => element.child child
  | .children children => element.childElements children
  | .fragment found => element.fragment found
  | .options record => element.options record

/-! ## 3. Elements of each tag -/

/-- A machine with its id and its initial state. -/
def machine (id initial : String) : Element M :=
  ((ofTag (.builtin .machine)).attr "id" (.str id)).attr "initial" (.str initial)

/-- A state with its id. -/
def state (id : String) : Element M := (ofTag (.builtin .state)).attr "id" (.str id)

/-- A transition with its event and its target. -/
def transition (event target : String) : Element M :=
  ((ofTag (.builtin .transition)).attr "event" (.str event)).attr "target" (.str target)

/-- An invoked service with its source. -/
def invoke (src : String) : Element M := (ofTag (.builtin .invoke)).attr "src" (.str src)

/-- What follows when an invoked service is done. -/
def onDone : Element M := ofTag (.builtin .onDone)

/-- What follows when an invoked service fails. -/
def onError : Element M := ofTag (.builtin .onError)

/-- An element whose meaning is a component. -/
def component (component : Component M) : Element M := ofTag (.custom component)

end Element

end Statechart
