/-
`Proofs/Parallel.lean` -- two trees of one shape, compiled side by side.

Two trees stand beside each other when they have the same built-in tags in the same places, with
attributes in one relation and fragments that are compiled already in another. If compiling one
element keeps that relation between fragments, so does compiling the trees: both end in the same
error or in related fragments, or both come to a machine. The runs may be those of different
compilers, over trees for different kinds of machines, and what they say may be compared or left
open.
-/
import Mathlib.Data.List.Forall2
import Statechart.Compile.Compiler
import Statechart.Proofs.Success

set_option autoImplicit false

namespace Statechart

/-! ## 1. Runs -/

namespace Compilation

variable {α α' β β' : Type} {said : List Notice → List Notice → Prop}

/-- A relation between logs that holds of all that is said if it holds piece by piece. -/
structure Cumulative (said : List Notice → List Notice → Prop) : Prop where
  nil : said [] []
  append : ∀ {first first' rest rest' : List Notice}, said first first' → said rest rest' →
    said (first ++ rest) (first' ++ rest')

theorem cumulative_eq : Cumulative Eq := ⟨rfl, fun hfirst hrest => hfirst ▸ hrest ▸ rfl⟩

/-- Where logs are not compared. -/
theorem cumulative_true : Cumulative fun _ _ => True := ⟨trivial, fun _ _ => trivial⟩

/-- Two runs that end alike, and what they say is in the relation. -/
structure Parallel (said : List Notice → List Notice → Prop) (rel : α → β → Prop)
    (first : Compilation α) (second : Compilation β) : Prop where
  result : EndAlike rel first.result second.result
  log : said first.log second.log

/-- A run is parallel to itself. -/
theorem Parallel.refl (run : Compilation α) : Parallel Eq Eq run run :=
  ⟨.refl (fun _ => rfl) run.result, rfl⟩

theorem Cumulative.pure (cumulative : Cumulative said) {rel : α → β → Prop} {a : α} {b : β}
    (related : rel a b) : Parallel said rel (Pure.pure a) (Pure.pure b) :=
  ⟨.ok related, cumulative.nil⟩

theorem Cumulative.throw (cumulative : Cumulative said) {rel : α → β → Prop}
    (error : CompileError) : Parallel said rel (throwThe _ error) (throwThe _ error) :=
  ⟨.error error, cumulative.nil⟩

/-- Where parallel runs go on in parallel from what they came to, the sequences are parallel. -/
theorem Cumulative.bind (cumulative : Cumulative said) {rel : α → α' → Prop}
    {rel' : β → β' → Prop} {first : Compilation α} {second : Compilation α'}
    {next : α → Compilation β} {next' : α' → Compilation β'} (h : Parallel said rel first second)
    (hnext : ∀ a a', first.result = .ok a → second.result = .ok a' → rel a a' →
      Parallel said rel' (next a) (next' a')) :
    Parallel said rel' (first >>= next) (second >>= next') := by
  have hlog := h.log
  generalize hfirst : first.result = result, hsecond : second.result = result' at *
  have hend : EndAlike rel result result' := hfirst ▸ hsecond ▸ h.result
  cases hend with
  | ok related =>
      have hrest := hnext _ _ rfl rfl related
      constructor
      · rw [result_bind_of_ok hfirst, result_bind_of_ok hsecond]
        exact hrest.result
      · rw [log_bind_of_ok hfirst, log_bind_of_ok hsecond]
        exact cumulative.append hlog hrest.log
  | error error =>
      constructor
      · rw [result_bind_of_error hfirst, result_bind_of_error hsecond]
        exact .error error
      · rw [log_bind_of_error hfirst, log_bind_of_error hsecond]
        exact hlog

end Compilation

/-! ## 2. Trees -/

section Beside

variable (attributesRel : Attributes → Attributes → Prop) (fragmentRel : Fragment → Fragment → Prop)
  {M N : Type}

mutual
/-- The trees have the same built-in tags in the same places, and their attributes and the fragments
in them are related. -/
inductive Element.Beside : Element M → Element N → Prop
  | node (builtin : Builtin) {attributes attributes' : Attributes} {children : List (Child M)}
      {children' : List (Child N)} (related : attributesRel attributes attributes')
      (beside : Child.AllBeside children children') :
      Element.Beside (.node (.builtin builtin) attributes children)
        (.node (.builtin builtin) attributes' children')
/-- Child by child. -/
inductive Child.AllBeside : List (Child M) → List (Child N) → Prop
  | nil : Child.AllBeside [] []
  | element {element : Element M} {element' : Element N} {rest : List (Child M)}
      {rest' : List (Child N)} (beside : Element.Beside element element')
      (others : Child.AllBeside rest rest') :
      Child.AllBeside (.element element :: rest) (.element element' :: rest')
  | fragment {found found' : Fragment} {rest : List (Child M)} {rest' : List (Child N)}
      (related : fragmentRel found found') (others : Child.AllBeside rest rest') :
      Child.AllBeside (.fragment found :: rest) (.fragment found' :: rest')
end

/-- Two related fragments, or two machines. -/
inductive Output.Beside : Output M → Output N → Prop
  | fragment {found found' : Fragment} (related : fragmentRel found found') :
      Output.Beside (.fragment found) (.fragment found')
  | machine (machine : M) (machine' : N) : Output.Beside (.machine machine) (.machine machine')

end Beside

/-! ## 3. Compilers -/

open Compilation (Cumulative Parallel)

section Compilers

variable {M N : Type} (compiler : Compiler M) (other : Compiler N)
  (said : List Notice → List Notice → Prop) (attributesRel : Attributes → Attributes → Prop)
  (fragmentRel : Fragment → Fragment → Prop)

/-- Compiling one element in parallel keeps the relation between fragments. -/
def CompileBeside : Prop :=
  ∀ (builtin : Builtin) {attributes attributes' : Attributes} {fragments fragments' : List Fragment},
    attributesRel attributes attributes' → List.Forall₂ fragmentRel fragments fragments' →
      Parallel said (Output.Beside fragmentRel)
        (compiler.compile (.builtin builtin) attributes fragments)
        (other.compile (.builtin builtin) attributes' fragments')

/-- What two constructors make of two machines as compiled. -/
def Constructed (rel : Blueprint → Blueprint → Prop) (machine : M) (machine' : N) : Prop :=
  ∃ left right, rel left right ∧ machine = compiler.construct left.config left.options ∧
    machine' = other.construct right.config right.options

end Compilers

namespace CompileBeside

variable {M N : Type} {compiler : Compiler M} {other : Compiler N}
  {said : List Notice → List Notice → Prop} {attributesRel : Attributes → Attributes → Prop}
  {fragmentRel : Fragment → Fragment → Prop}

mutual
/-- Compiling trees in parallel. -/
theorem evaluate (h : CompileBeside compiler other said attributesRel fragmentRel)
    (cumulative : Cumulative said) : {element : Element M} → {element' : Element N} →
      element.Beside attributesRel fragmentRel element' →
        Parallel said (Output.Beside fragmentRel) (compiler.evaluate element)
          (other.evaluate element')
  | _, _, .node builtin related beside =>
      cumulative.bind (evaluateChildren h cumulative builtin.name beside) fun _ _ _ _ hfragments =>
        h builtin related hfragments
/-- Child by child. -/
theorem evaluateChildren (h : CompileBeside compiler other said attributesRel fragmentRel)
    (cumulative : Cumulative said) (parent : String) : {children : List (Child M)} →
      {children' : List (Child N)} → Child.AllBeside attributesRel fragmentRel children children' →
        Parallel said (List.Forall₂ fragmentRel) (compiler.evaluateChildren parent children)
          (other.evaluateChildren parent children')
  | _, _, .nil => cumulative.pure .nil
  | _, _, .fragment related others =>
      cumulative.bind (evaluateChildren h cumulative parent others) fun _ _ _ _ hrest =>
        cumulative.pure (.cons related hrest)
  | _, _, .element beside others =>
      cumulative.bind (evaluate h cumulative beside) fun output output' _ _ houtput => by
        cases houtput with
        | fragment related =>
            exact cumulative.bind (evaluateChildren h cumulative parent others)
              fun _ _ _ _ hrest => cumulative.pure (.cons related hrest)
        -- both end here, whatever the machines are
        | machine machine machine' => exact cumulative.throw (.nestedMachine parent)
end

/-- Building machines in parallel. What the two machines have to do with each other is to be seen
from the children of the roots and from the fragments that these yield. -/
theorem build (h : CompileBeside compiler other said attributesRel fragmentRel)
    (cumulative : Cumulative said) {rel : Blueprint → Blueprint → Prop} {root : Element M}
    {root' : Element N} (beside : root.Beside attributesRel fragmentRel root')
    (machines : ∀ {attributes attributes' : Attributes} {children : List (Child M)}
      {children' : List (Child N)} {fragments fragments' : List Fragment},
      root = .node (.builtin .machine) attributes children →
      root' = .node (.builtin .machine) attributes' children' →
      attributesRel attributes attributes' →
      List.Forall₂ compiler.Yields children fragments →
      List.Forall₂ other.Yields children' fragments' →
      List.Forall₂ fragmentRel fragments fragments' →
      rel (Compile.machineOf compiler.run compiler.patcher attributes fragments)
        (Compile.machineOf other.run other.patcher attributes' fragments')) :
    Parallel said (Constructed compiler other rel) (compiler.build root) (other.build root') := by
  refine cumulative.bind (h.evaluate cumulative beside) fun output output' hok hok' houtput => ?_
  cases houtput with
  | fragment related =>
      cases beside with
      | node builtin _ _ => exact cumulative.throw (.expectedMachine builtin.name)
  | machine machine machine' =>
      cases beside with
      | @node builtin attributes attributes' children children' related beside =>
          obtain ⟨fragments, hyields, hcompile⟩ := Compiler.result_evaluate_eq_ok_iff.mp hok
          obtain ⟨fragments', hyields', hcompile'⟩ := Compiler.result_evaluate_eq_ok_iff.mp hok'
          obtain rfl := Compiler.eq_machine_of_compile hcompile
          obtain ⟨-, hmachine⟩ := Compiler.result_compile_machine_eq_ok_iff.mp hcompile
          obtain ⟨-, hmachine'⟩ := Compiler.result_compile_machine_eq_ok_iff.mp hcompile'
          cases hmachine
          cases hmachine'
          -- the children of both roots come to these fragments, so the fragments are related
          have hfragments : List.Forall₂ fragmentRel fragments fragments' :=
            (h.evaluateChildren cumulative "machine" beside).result.related
              (Compiler.result_evaluateChildren_eq_ok_iff.mpr hyields)
              (Compiler.result_evaluateChildren_eq_ok_iff.mpr hyields')
          exact cumulative.pure ⟨_, _, machines rfl rfl related hyields hyields' hfragments, rfl, rfl⟩

end CompileBeside

end Statechart
