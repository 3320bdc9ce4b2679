/-
`Proofs/Precompiled.lean` -- compiling a tree piece by piece.

An element sees its children only as the fragments that they compiled to. So it makes no difference
whether a part of a tree is compiled along with the tree or was compiled before and stands in it as
a fragment: the whole comes to the same machine or fragment, or fails with the same error. Taken to
the end, compiling a tree is compiling its elements one by one, the innermost first.
-/
import Statechart.Proofs.Renewal
import Statechart.Proofs.Visits

set_option autoImplicit false

namespace Statechart

variable {M : Type}

/-! ## 1. Parts that are compiled before -/

mutual
/-- In the second tree some elements below the root of the first are replaced, each by the fragment
that it compiles to in some run. -/
inductive Element.Precompiled (compiler : Compiler M) : Element M → Element M → Prop
  | node (tag : Tag M) (attributes : Attributes) {children children' : List (Child M)}
      (below : Child.AllPrecompiled compiler children children') :
      Element.Precompiled compiler (.node tag attributes children) (.node tag attributes children')
/-- Child by child. -/
inductive Child.AllPrecompiled (compiler : Compiler M) : List (Child M) → List (Child M) → Prop
  | nil : Child.AllPrecompiled compiler [] []
  | fragment (found : Fragment) {rest rest' : List (Child M)}
      (others : Child.AllPrecompiled compiler rest rest') :
      Child.AllPrecompiled compiler (.fragment found :: rest) (.fragment found :: rest')
  /-- The element stays, and there may be replacements below it. -/
  | element {element element' : Element M} {rest rest' : List (Child M)}
      (below : Element.Precompiled compiler element element')
      (others : Child.AllPrecompiled compiler rest rest') :
      Child.AllPrecompiled compiler (.element element :: rest) (.element element' :: rest')
  /-- The element is replaced. -/
  | compiled {element : Element M} {found : Fragment} {rest rest' : List (Child M)} (run : Nat)
      (yields : ((compiler.inRun run).evaluate element).result = .ok (.fragment found))
      (others : Child.AllPrecompiled compiler rest rest') :
      Child.AllPrecompiled compiler (.element element :: rest) (.fragment found :: rest')
end

namespace Compiler

variable {compiler : Compiler M}

/-- What compiles to a fragment compiles to it in every run. -/
theorem result_evaluate_of_inRun {element : Element M} {found : Fragment} {run : Nat}
    (h : ((compiler.inRun run).evaluate element).result = .ok (.fragment found)) :
    (compiler.evaluate element).result = .ok (.fragment found) := by
  have hagain := (compiler.evaluate_again run element).result
  rw [h] at hagain
  generalize (compiler.evaluate element).result = result at hagain ⊢
  cases hagain with
  | ok related =>
      cases related
      rfl

mutual
/-- A tree with parts that are compiled before comes to what the tree comes to. -/
theorem result_evaluate_precompiled : {root root' : Element M} →
    root.Precompiled compiler root' →
      (compiler.evaluate root).result = (compiler.evaluate root').result
  | _, _, .node tag attributes below => by
      rw [evaluate, evaluate, Compilation.result_bind, Compilation.result_bind,
        result_evaluateChildren_precompiled tag.name below]
/-- Child by child. -/
theorem result_evaluateChildren_precompiled (parent : String) :
    {children children' : List (Child M)} → Child.AllPrecompiled compiler children children' →
      (compiler.evaluateChildren parent children).result
        = (compiler.evaluateChildren parent children').result
  | _, _, .nil => rfl
  | _, _, .fragment found others => by
      rw [evaluateChildren, evaluateChildren, Compilation.result_bind, Compilation.result_bind,
        result_evaluateChildren_precompiled parent others]
  | _, _, .element below others => by
      have hothers := result_evaluateChildren_precompiled parent others
      rw [evaluateChildren, evaluateChildren, Compilation.result_bind, Compilation.result_bind,
        result_evaluate_precompiled below]
      congr 1
      funext output
      cases output with
      | fragment found =>
          show (evaluateChildren _ parent _ >>= _).result
            = (evaluateChildren _ parent _ >>= _).result
          rw [Compilation.result_bind, Compilation.result_bind, hothers]
      | machine machine => rfl
  | _, _, .compiled run yields others => by
      rw [evaluateChildren, evaluateChildren,
        Compilation.result_bind_of_ok (result_evaluate_of_inRun yields)]
      show (evaluateChildren _ parent _ >>= _).result = _
      rw [Compilation.result_bind, Compilation.result_bind,
        result_evaluateChildren_precompiled parent others]
end

/-- The same for building a machine. -/
theorem result_build_precompiled {root root' : Element M} (h : root.Precompiled compiler root') :
    (compiler.build root).result = (compiler.build root').result := by
  have htag : root.tag.name = root'.tag.name := by
    cases h
    rfl
  rw [build, build, Compilation.result_bind, Compilation.result_bind,
    result_evaluate_precompiled h, htag]

/-- Two trees come to the same: in one run exactly, and in two runs up to what each run derives. -/
structure ComesToSame (compiler : Compiler M) (root root' : Element M) : Prop where
  evaluate : (compiler.evaluate root).result = (compiler.evaluate root').result
  build : (compiler.build root).result = (compiler.build root').result
  evaluate_inRun : ∀ run, Compilation.EndAlike (OutputAgain compiler.construct)
    (compiler.evaluate root).result ((compiler.inRun run).evaluate root').result
  build_inRun : ∀ run, Compilation.EndAlike (MachineAgain compiler.construct)
    (compiler.build root).result ((compiler.inRun run).build root').result

/-- A tree with parts that are compiled before comes to the same as the tree. -/
theorem comesToSame_of_precompiled {root root' : Element M} (h : root.Precompiled compiler root') :
    compiler.ComesToSame root root' := by
  have hevaluate := result_evaluate_precompiled h
  have hbuild := result_build_precompiled h
  refine ⟨hevaluate, hbuild, fun run => ?_, fun run => ?_⟩
  · rw [hevaluate]
    exact (compiler.evaluate_again run root').result
  · rw [hbuild]
    exact (compiler.build_again run root').result

/-! ## 2. Element by element -/

mutual
/-- What nested calls of `compileNamed` come to, one call for each element and the innermost first.
There is nothing where a call fails, or where a call for an element below the root comes to a
machine. -/
def nested? (compiler : Compiler M) : Element M → Option (Output M)
  | .node tag attributes children => do
      let fragments ← compiler.nestedChildren? children
      (compiler.compileNamed tag.name attributes fragments).result.toOption
/-- The fragments that the calls for the children come to. -/
def nestedChildren? (compiler : Compiler M) : List (Child M) → Option (List Fragment)
  | [] => some []
  | .fragment found :: rest => do return found :: (← compiler.nestedChildren? rest)
  | .element element :: rest => do
      let found ← (← compiler.nested? element).fragment?
      return found :: (← compiler.nestedChildren? rest)
end

/-- What is there of a sequence is there of both its steps. -/
theorem toOption_bind {α β : Type} (first : Except CompileError α)
    (next : α → Except CompileError β) :
    (first.bind next).toOption = first.toOption.bind fun a => (next a).toOption := by
  cases first with
  | ok a => rfl
  | error error => rfl

/-- An element with a built-in tag is compiled as the name of its tag says. -/
theorem compileNamed_name (builtin : Builtin) (attributes : Attributes)
    (children : List Fragment) :
    compiler.compileNamed builtin.name attributes children
      = compiler.compile (.builtin builtin) attributes children := by
  rw [compileNamed, Builtin.ofName_name]

mutual
/-- Nested calls come to what the tree comes to, and fail where it fails. -/
theorem nested?_eq : {root : Element M} → root.BuiltIn →
    compiler.nested? root = (compiler.evaluate root).result.toOption
  | .node tag attributes children, builtIn => by
      obtain ⟨⟨builtin, rfl⟩, hchildren⟩ := builtIn
      rw [nested?, evaluate, Compilation.result_bind, toOption_bind,
        nestedChildren?_eq builtin.name hchildren]
      simp only [Tag.name, compileNamed_name]
      rfl
/-- Child by child. -/
theorem nestedChildren?_eq (parent : String) : {children : List (Child M)} →
    Child.AllBuiltIn children →
      compiler.nestedChildren? children
        = (compiler.evaluateChildren parent children).result.toOption
  | [], _ => rfl
  | .fragment found :: rest, builtIn => by
      have hrest : Child.AllBuiltIn rest := builtIn
      rw [nestedChildren?, evaluateChildren, Compilation.result_bind, toOption_bind,
        nestedChildren?_eq parent hrest]
      rfl
  | .element element :: rest, builtIn => by
      rw [nestedChildren?, evaluateChildren, Compilation.result_bind, toOption_bind,
        nested?_eq builtIn.1, nestedChildren?_eq parent builtIn.2]
      generalize (compiler.evaluate element).result = result
      cases result with
      | error error => rfl
      | ok output =>
          cases output with
          | machine machine => rfl
          | fragment found =>
              show _ = ((evaluateChildren _ parent _ >>= _ : Compilation _).result).toOption
              rw [Compilation.result_bind, toOption_bind]
              rfl
end

/-- Results that end alike are there together, and are related where they are. -/
theorem rel_toOption_of_endAlike {α β : Type} {rel : α → β → Prop}
    {result : Except CompileError α} {result' : Except CompileError β}
    (h : Compilation.EndAlike rel result result') :
    Option.Rel rel result.toOption result'.toOption := by
  cases h with
  | ok related => exact .some related
  | error error => exact .none

end Compiler

/-! ## 3. Compilation is compositional -/

/-- **Compilation is compositional.** Whatever elements below the root of a tree are replaced by the
fragments that they compile to, the tree evaluates and builds to the same as before or fails with
the same error; if the replacements or the whole are compiled in another run, up to the actions that
each run derives. So a tree with built-in tags evaluates to what nested calls for its elements come
to, the innermost first, and where it fails they fail. -/
theorem compilation_compositional (compiler : Compiler M) :
    (∀ {root root' : Element M}, root.Precompiled compiler root' →
        compiler.ComesToSame root root') ∧
      ∀ {root : Element M}, root.BuiltIn →
        compiler.nested? root = (compiler.evaluate root).result.toOption ∧
          ∀ run, Option.Rel (OutputAgain compiler.construct)
            (compiler.evaluate root).result.toOption ((compiler.inRun run).nested? root) := by
  refine ⟨Compiler.comesToSame_of_precompiled, fun builtIn => ⟨Compiler.nested?_eq builtIn, ?_⟩⟩
  intro run
  rw [Compiler.nested?_eq builtIn]
  exact Compiler.rel_toOption_of_endAlike (compiler.evaluate_again run _).result

/-- A machine with a mutator, a state given by a component, and a state with a transition. -/
def composedMarkup : Element Blueprint :=
  (((Element.machine "m" "a").child
      (.component fun _ => pure (.fragment (.state { id := some "b" })))).child
    ((Element.state "a").child (.transition "GO" "b"))).options
      { mutations := [("set", .given 1 fun _ => .obj [])] }

/-- The same machine, with the component and the transition compiled before. -/
def precompiledMarkup : Element Blueprint :=
  (((Element.machine "m" "a").fragment (.state { id := some "b" })).child
    ((Element.state "a").fragment (.transition (some "GO") { target := some (.str "b") }))).options
      { mutations := [("set", .given 1 fun _ => .obj [])] }

theorem compilation_compositional_composedMarkup :
    composedMarkup.Precompiled Compiler.blueprint precompiledMarkup ∧
      Compiler.blueprint.ComesToSame composedMarkup precompiledMarkup ∧
      precompiledMarkup.BuiltIn ∧
      ∃ machine, (Compiler.blueprint.evaluate precompiledMarkup).result = .ok (.machine machine) ∧
        Compiler.blueprint.nested? precompiledMarkup = some (.machine machine) := by
  -- the component stands behind the options, and the transition was compiled in a run of its own
  have hbefore : composedMarkup.Precompiled Compiler.blueprint precompiledMarkup :=
    .node _ _ (.fragment _ (.compiled 0 rfl
      (.element (.node _ _ (.compiled 7 rfl .nil)) .nil)))
  have hbuiltIn : precompiledMarkup.BuiltIn :=
    ⟨⟨.machine, rfl⟩, ⟨⟨.state, rfl⟩, trivial⟩, trivial⟩
  obtain ⟨hprecompiled, hnested⟩ := compilation_compositional Compiler.blueprint
  exact ⟨hbefore, hprecompiled hbefore, hbuiltIn, _, rfl, (hnested hbuiltIn).1⟩

end Statechart
