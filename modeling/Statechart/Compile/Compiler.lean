/-
`Compile/Compiler.lean` -- compiling elements and whole trees.

A compiler knows what to make of a finished configuration, how patches become actions, and what to
do about ambiguous siblings. A tree is compiled from the leaves to the root: an element sees its
children only as the fragments that they compiled to. Only the root may be a machine.
-/
import Statechart.Element.Basic
import Statechart.Compile.State
import Statechart.Compile.Invoke
import Statechart.Compile.Machine

set_option autoImplicit false

namespace Statechart

/-- A compiler whose machines are values of `M`. -/
structure Compiler (M : Type) where
  /-- What is made of a machine as compiled. -/
  construct : MachineConfig → MachineOptions → M
  patcher : Patcher := Patcher.assign
  settings : Settings := {}
  /-- Tells the derived actions of this run from those of any other. -/
  run : Nat := 0

namespace Compiler

/-- The compiler whose machines are the blueprints themselves. -/
def blueprint : Compiler Blueprint := { construct := Blueprint.mk }

variable {M : Type}

/-- Compile an element with a built-in tag. -/
def compileBuiltin (compiler : Compiler M) (attributes : Attributes) (children : List Fragment) :
    Builtin → Compilation (Output M)
  | .machine => do
      let compiled ← Compile.machine compiler.run compiler.patcher compiler.settings.duplicates
        attributes children
      return .machine (compiler.construct compiled.config compiled.options)
  | .state => do
      return .fragment (.state
        (← Compile.state compiler.settings.duplicates attributes children))
  | .transition =>
      let (event, declared) := Compile.transition attributes
      return .fragment (.transition event declared)
  | .invoke => do
      return .fragment (.invoke (← ExceptT.lift (Compile.invoke attributes children)))
  | .onDone => return .fragment (.record (Compile.outcome "onDone" attributes))
  | .onError => return .fragment (.record (Compile.outcome "onError" attributes))

/-- Compile one element whose children are compiled. -/
def compile (compiler : Compiler M) (tag : Tag M) (attributes : Attributes)
    (children : List Fragment) : Compilation (Output M) := do
  Compilation.notice (.compiling tag.name children.length)
  match tag with
  | .builtin builtin => compiler.compileBuiltin attributes children builtin
  | .custom component => component { attributes, children }

/-- Compile one element by the name of its tag. -/
def compileNamed (compiler : Compiler M) (name : String) (attributes : Attributes)
    (children : List Fragment) : Compilation (Output M) :=
  match Builtin.ofName name with
  | .ok builtin => compiler.compile (.builtin builtin) attributes children
  | .error error => throw error

mutual
/-- Compile a tree, children before their parent. -/
def evaluate (compiler : Compiler M) : Element M → Compilation (Output M)
  | .node tag attributes children => do
      let fragments ← compiler.evaluateChildren tag.name children
      compiler.compile tag attributes fragments
/-- Compile the children of an element from left to right. -/
def evaluateChildren (compiler : Compiler M) (parent : String) :
    List (Child M) → Compilation (List Fragment)
  | [] => return []
  | .fragment fragment :: rest => do
      return fragment :: (← compiler.evaluateChildren parent rest)
  | .element element :: rest => do
      match ← compiler.evaluate element with
      | .fragment fragment => return fragment :: (← compiler.evaluateChildren parent rest)
      -- no sibling behind a nested machine is looked at
      | .machine _ => throw (.nestedMachine parent)
end

/-- Compile a tree that has to come to a machine. -/
def build (compiler : Compiler M) (root : Element M) : Compilation M := do
  match ← compiler.evaluate root with
  | .machine machine => return machine
  | .fragment _ => throw (.expectedMachine root.tag.name)

end Compiler

end Statechart
