/-
`Proofs/Boundary.lean` -- the constructor and the patcher, at the boundary of a compilation.

What a compiler makes of a finished configuration, and what it does to the patches of mutators, has
no part in compiling. Over markup with built-in tags, every compiler ends as the one does whose
machines are blueprints, says the same, and makes its machine of the blueprint's configuration and
implementations. Another patcher is found again in the actions that are derived for mutators, and
nowhere else.
-/
import Statechart.Proofs.Markup
import Statechart.Proofs.Parallel
import Statechart.Proofs.Renewal
import Statechart.Proofs.Visits

set_option autoImplicit false

namespace Statechart

open Compilation (Alike Parallel)

variable {M N : Type}

/-! ## 1. The same markup -/

/-- The same markup for another kind of machines: the same tags, which are built in, the same
attributes and the same fragments. -/
def Element.SameMarkup (element : Element M) (element' : Element N) : Prop :=
  element.Beside Eq Eq element'

mutual
/-- Markup with built-in tags is markup for any kind of machines. -/
theorem exists_sameMarkup (N : Type) : (element : Element M) → element.BuiltIn →
    ∃ element' : Element N, element.SameMarkup element'
  | .node _ attributes children, ⟨⟨builtin, hbuiltin⟩, hchildren⟩ => by
      subst hbuiltin
      obtain ⟨children', h⟩ := exists_allBeside_eq N children hchildren
      exact ⟨.node (.builtin builtin) attributes children', .node builtin rfl h⟩
/-- Child by child. -/
theorem exists_allBeside_eq (N : Type) : (children : List (Child M)) → Child.AllBuiltIn children →
    ∃ children' : List (Child N), Child.AllBeside Eq Eq children children'
  | [], _ => ⟨[], .nil⟩
  | .element element :: rest, ⟨helement, hrest⟩ => by
      obtain ⟨element', h⟩ := exists_sameMarkup N element helement
      obtain ⟨rest', hothers⟩ := exists_allBeside_eq N rest hrest
      exact ⟨.element element' :: rest', .element h hothers⟩
  | .fragment found :: rest, hrest => by
      obtain ⟨rest', hothers⟩ := exists_allBeside_eq N rest hrest
      exact ⟨.fragment found :: rest', .fragment rfl hothers⟩
end

mutual
/-- Markup with built-in tags is the same as itself. -/
theorem sameMarkup_refl : (element : Element M) → element.BuiltIn → element.SameMarkup element
  | .node _ _ children, ⟨⟨builtin, hbuiltin⟩, hchildren⟩ => by
      subst hbuiltin
      exact .node builtin rfl (allBeside_eq_refl children hchildren)
/-- Child by child. -/
theorem allBeside_eq_refl : (children : List (Child M)) → Child.AllBuiltIn children →
    Child.AllBeside Eq Eq children children
  | [], _ => .nil
  | .element element :: rest, ⟨helement, hrest⟩ =>
      .element (sameMarkup_refl element helement) (allBeside_eq_refl rest hrest)
  | .fragment _ :: rest, hrest => .fragment rfl (allBeside_eq_refl rest hrest)
end

/-! ## 2. Where the patcher goes -/

/-- The options record that leads the children of an element, or else one without any definition. -/
def Element.leadingOptions (element : Element M) : OptionsRecord :=
  (element.children.head?.bind Child.options?).getD {}

/-- The implementations of a machine as two patchers give them: under the names of mutations stand
the actions derived for these, and everything else is the same. -/
structure MachineOptions.Rederived (mutations : Implementations) (patcher patcher' : Patcher)
    (left right : MachineOptions) : Prop where
  /-- All groups have the same names in the same order, and no group but the actions differs. -/
  repatched : left.Repatched patcher patcher' right
  kept : ∀ name ∉ mutations.keys, left.actions.get? name = right.actions.get? name
  derived : ∀ name ∈ mutations.keys, ∃ run run' mutator, (name, mutator) ∈ mutations ∧
    left.actions.get? name = some (.derived run name mutator patcher) ∧
      right.actions.get? name = some (.derived run' name mutator patcher')

/-- Two machines as compiled, of which only the actions behind mutations differ. -/
structure Blueprint.Rederived (mutations : Implementations) (patcher patcher' : Patcher)
    (left right : Blueprint) : Prop where
  config : left.config = right.config
  options : left.options.Rederived mutations patcher patcher' right.options

namespace Compile

/-- What one and the same children make in two runs with two patchers. -/
theorem machineOf_rederived (run run' : Nat) (patcher patcher' : Patcher) (attributes : Attributes)
    (children : List Fragment) :
    (machineOf run patcher attributes children).Rederived
      ((SplitChildren.leading? children).getD {}).mutations patcher patcher'
      (machineOf run' patcher' attributes children) := by
  refine ⟨rfl, assembleOptions_repatched run run' patcher patcher' _, ?_, ?_⟩
  all_goals
    intro name hname
    -- the last of the derived actions counts, and behind them the plain ones
    simp only [machineOf, assembleOptions, OrderedMap.get?_extend, get?_reverse_deriveActions]
    generalize ((SplitChildren.leading? children).getD {}).mutations = mutations at hname ⊢
  · have hnone : OrderedMap.get? mutations.reverse name = none := by
      rw [OrderedMap.get?_eq_none_iff, OrderedMap.keys, List.map_reverse, List.mem_reverse]
      exact hname
    rw [hnone]
    rfl
  · have hsome : (OrderedMap.get? mutations.reverse name).isSome := by
      rw [OrderedMap.isSome_get?_iff, OrderedMap.keys, List.map_reverse, List.mem_reverse]
      exact hname
    obtain ⟨mutator, hmutator⟩ := Option.isSome_iff_exists.mp hsome
    refine ⟨run, run', mutator, List.mem_reverse.mp (OrderedMap.mem_of_get? hmutator), ?_, ?_⟩
    · rw [hmutator]
      rfl
    · rw [hmutator]
      rfl

end Compile

/-! ## 3. Two compilers over the same markup -/

namespace Compiler

variable (compiler : Compiler M) (other : Compiler N)

/-- The options record that leads the fragments of children leads the children. -/
theorem leading?_of_yields {compiler : Compiler M} {children : List (Child M)} {fragments : List Fragment}
    (builtIn : Child.AllBuiltIn children) (yields : List.Forall₂ compiler.Yields children fragments) :
    SplitChildren.leading? fragments = children.head?.bind Child.options? := by
  cases yields with
  | nil => rfl
  | @cons child fragment _ _ hfirst _ =>
      show fragment.options? = child.options?
      cases child with
      | fragment found =>
          cases (hfirst : found = fragment)
          rfl
      | element element =>
          obtain ⟨tag, attributes, children⟩ := element
          obtain ⟨⟨⟨builtin, rfl⟩, -⟩, -⟩ := builtIn
          obtain ⟨fragments, -, hcompile⟩ := result_evaluate_eq_ok_iff.mp hfirst
          exact options?_of_compile hcompile

/-- Compilers with the same settings compile an element alike, whatever they make of machines. -/
theorem compileBeside_eq (settings : compiler.settings = other.settings) :
    CompileBeside compiler other Eq Eq Eq := by
  intro builtin attributes _ fragments _ rfl hfragments
  rw [List.forall₂_eq_eq_eq] at hfragments
  subst hfragments
  refine Compilation.cumulative_eq.bind (.refl _) fun _ _ _ _ _ => ?_
  cases builtin with
  | machine =>
      have hmachine := Compile.machine_repatched compiler.run other.run compiler.patcher
        other.patcher compiler.settings.duplicates attributes fragments
      simp only [compileBuiltin, ← settings]
      exact Compilation.cumulative_eq.bind ⟨hmachine.result, hmachine.log⟩
        fun _ _ _ _ _ => Compilation.cumulative_eq.pure (.machine _ _)
  | state =>
      simp only [compileBuiltin, ← settings]
      refine Compilation.cumulative_eq.bind (.refl _) fun node _ _ _ hnode => ?_
      exact Compilation.cumulative_eq.pure (.fragment (hnode ▸ rfl))
  | invoke =>
      simp only [compileBuiltin]
      refine Compilation.cumulative_eq.bind (.refl _) fun block _ _ _ hblock => ?_
      exact Compilation.cumulative_eq.pure (.fragment (hblock ▸ rfl))
  | transition | onDone | onError => exact Compilation.cumulative_eq.pure (.fragment rfl)

/-- So they build from the same markup, but for what they make of the machine and for the actions
that stand behind mutations. -/
theorem build_sameMarkup (settings : compiler.settings = other.settings) {root : Element M}
    {root' : Element N} (builtIn : root.BuiltIn) (same : root.SameMarkup root') :
    Parallel Eq (Constructed compiler other
        (Blueprint.Rederived root.leadingOptions.mutations compiler.patcher other.patcher))
      (compiler.build root) (other.build root') := by
  refine (compileBeside_eq compiler other settings).build Compilation.cumulative_eq same ?_
  rintro attributes _ children children' fragments _ rfl rfl rfl hyields - hfragments
  rw [List.forall₂_eq_eq_eq] at hfragments
  subst hfragments
  have hleading := leading?_of_yields builtIn.2 hyields
  show Blueprint.Rederived (((children.head?.bind Child.options?).getD {}).mutations) _ _ _ _
  rw [← hleading]
  exact Compile.machineOf_rederived compiler.run other.run compiler.patcher other.patcher attributes
    fragments

end Compiler

/-! ## 4. The boundary -/

/-- The compiler whose machines are blueprints, with the same patcher and the same settings. -/
def Compiler.forBlueprints (compiler : Compiler M) : Compiler Blueprint :=
  { construct := Blueprint.mk
    patcher := compiler.patcher
    settings := compiler.settings
    run := compiler.run }

/-- The compiler with another patcher. -/
def Compiler.withPatcher (compiler : Compiler M) (patcher : Patcher) : Compiler M :=
  { compiler with patcher }

/-- **Constructor and patcher stand at the boundary.** Over markup with built-in tags, and with
fragments of any kind that are compiled already, a compiler fails with the very error that the
compiler for blueprints gives over the same markup, or makes its machine of the blueprint's
configuration and implementations, where actions are derived again in each run; and both say the
same. With another patcher, also in another run, it ends alike and says the same, and makes its
machine of the same configuration and of implementations with the same names in the same order. Of
these only the ones under the names of mutations differ: each is derived for the same mutator, and
hands its patch to one patcher or to the other. -/
theorem build_keeps_boundary (compiler : Compiler M) {root : Element M} (builtIn : root.BuiltIn)
    (run : Nat) :
    (∃ twin : Element Blueprint, root.SameMarkup twin) ∧
      (∀ twin : Element Blueprint, root.SameMarkup twin →
        Alike (fun machine built => ∃ options,
            machine = compiler.construct built.config options ∧ options.Again built.options)
          (compiler.build root) ((compiler.forBlueprints.inRun run).build twin)) ∧
      ∀ patcher : Patcher,
        Alike (fun machine machine' => ∃ left right : Blueprint,
            left.Rederived root.leadingOptions.mutations compiler.patcher patcher right ∧
              machine = compiler.construct left.config left.options ∧
              machine' = compiler.construct right.config right.options)
          (compiler.build root) (((compiler.withPatcher patcher).inRun run).build root) := by
  refine ⟨exists_sameMarkup Blueprint root builtIn, fun twin same => ?_, fun patcher => ?_⟩
  · have h := compiler.build_sameMarkup (compiler.forBlueprints.inRun run) rfl builtIn same
    refine Alike.imp ?_ ⟨h.result, h.log⟩
    rintro machine _ ⟨left, built, hrederived, rfl, rfl⟩
    -- one patcher serves both, so what is derived is derived again
    exact ⟨left.options, congrArg (compiler.construct · left.options) hrederived.config,
      hrederived.options.repatched.again⟩
  · have h := compiler.build_sameMarkup ((compiler.withPatcher patcher).inRun run) rfl builtIn
      (sameMarkup_refl root builtIn)
    exact ⟨h.result, h.log⟩

/-- A machine whose options record has a plain action, a mutation in its place and another one. -/
def countingMarkup {M : Type} : Element M :=
  ((Element.machine "counter" "idle").options (OptionsRecord.ofSteps
      [.bind .action "tick" (.given 1 fun _ => .null), .bind .guard "ready" (.given 2 fun _ => .null),
        .bind .mutation "tick" (.given 3 fun _ => .obj []),
        .bind .mutation "reset" (.given 4 fun _ => .obj [])])).child
    ((Element.state "idle").child (Element.transition "GO" "idle"))

/-- A compiler whose machines are no more than the names of their actions. -/
def actionNames : Compiler (List String) :=
  { construct := fun _ options => options.actions.keys }

theorem build_keeps_boundary_countingMarkup :
    ∃ machine machine' built,
      (actionNames.build countingMarkup).result = .ok machine ∧
      ((actionNames.forBlueprints.inRun 1).build countingMarkup).result = .ok built ∧
      (((actionNames.withPatcher id).inRun 1).build countingMarkup).result = .ok machine' ∧
      (∃ options, machine = actionNames.construct built.config options ∧
        options.Again built.options) ∧
      ∃ left right : Blueprint,
        left.Rederived (countingMarkup (M := List String)).leadingOptions.mutations
            actionNames.patcher id right ∧
          machine = actionNames.construct left.config left.options ∧
          machine' = actionNames.construct right.config right.options := by
  have hbuiltIn : (countingMarkup (M := List String)).BuiltIn :=
    ⟨⟨.machine, rfl⟩, ⟨⟨.state, rfl⟩, ⟨⟨.transition, rfl⟩, trivial⟩, trivial⟩, trivial⟩
  have hsame : (countingMarkup (M := List String)).SameMarkup (countingMarkup (M := Blueprint)) :=
    .node .machine rfl (.fragment rfl
      (.element (.node .state rfl (.element (.node .transition rfl .nil) .nil)) .nil))
  obtain ⟨-, hconstructor, hpatcher⟩ := build_keeps_boundary actionNames hbuiltIn 1
  exact ⟨_, _, _, rfl, rfl, rfl, (hconstructor countingMarkup hsame).result.related rfl rfl,
    (hpatcher id).result.related rfl rfl⟩

end Statechart
