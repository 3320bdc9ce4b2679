/-
`Proofs/Steps.lean` -- a machine element from the steps that build it, and the options record that
counts for it.

Every step adds at the back, but for one that puts an options record in front. So the records that
steps put in front come last first, and of all options records among the children only the one that
stands first counts: the record of the last such step or, where there is no such step, whatever the
first child comes to. A machine that is built is what it would be without the others, each of which
is reported once.
-/
import Statechart.Proofs.Omissions
import Statechart.Proofs.Success
import Statechart.Proofs.Tables

set_option autoImplicit false

namespace Statechart

/-! ## 1. What steps leave -/

namespace Element

variable {M : Type}

/-- The attributes that a step sets, in order. -/
def Step.settings : Step M → List (String × Json)
  | .attr key value => [(key, value)]
  | .attrs attributes => attributes
  | .child _ | .children _ | .fragment _ | .options _ => []

/-- The options record that a step puts in front of the children, if it does. -/
def Step.record? : Step M → Option OptionsRecord
  | .options record => some record
  | .attr _ _ | .attrs _ | .child _ | .children _ | .fragment _ => none

/-- The children that a step puts behind the others, in order. -/
def Step.appended : Step M → List (Child M)
  | .child element => [.element element]
  | .children elements => elements.map .element
  | .fragment found => [.fragment found]
  | .attr _ _ | .attrs _ | .options _ => []

/-- The options record as a child. -/
def optionsChild (record : OptionsRecord) : Child M := .fragment (.options record)

theorem tag_apply (element : Element M) (step : Step M) : (element.apply step).tag = element.tag := by
  cases step <;> rfl

/-- A step writes what it sets to the attributes. -/
theorem attributes_apply (element : Element M) (step : Step M) :
    (element.apply step).attributes = element.attributes.extend step.settings := by
  cases step <;> rfl

/-- A step puts children on both sides of those that are there. -/
theorem children_apply (element : Element M) (step : Step M) :
    (element.apply step).children
      = step.record?.toList.map optionsChild ++ element.children ++ step.appended := by
  cases step with
  | attr | attrs | options => exact (List.append_nil _).symm
  | child | children | fragment => rfl

theorem tag_foldl_apply (element : Element M) (steps : List (Step M)) :
    (steps.foldl apply element).tag = element.tag := by
  induction steps generalizing element with
  | nil => rfl
  | cons step rest ih => rw [List.foldl_cons, ih, tag_apply]

/-- A run of steps writes all that it sets to the attributes. -/
theorem attributes_foldl_apply (element : Element M) (steps : List (Step M)) :
    (steps.foldl apply element).attributes
      = element.attributes.extend (steps.flatMap Step.settings) := by
  induction steps generalizing element with
  | nil => rfl
  | cons step rest ih =>
      rw [List.foldl_cons, ih, attributes_apply, List.flatMap_cons, OrderedMap.extend_append]

/-- A run of steps puts its records in front, the last one first, and all else behind. -/
theorem children_foldl_apply (element : Element M) (steps : List (Step M)) :
    (steps.foldl apply element).children
      = (steps.filterMap Step.record?).reverse.map optionsChild ++ element.children
        ++ steps.flatMap Step.appended := by
  induction steps generalizing element with
  | nil => exact (List.append_nil _).symm
  | cons step rest ih =>
      have hrecords : (step :: rest).filterMap Step.record?
          = step.record?.toList ++ rest.filterMap Step.record? := by
        simp only [List.filterMap_eq_flatMap_toList, List.flatMap_cons]
      have hreverse : step.record?.toList.reverse = step.record?.toList := by
        cases step.record? <;> rfl
      rw [List.foldl_cons, ih, children_apply, hrecords, List.reverse_append, hreverse,
        List.map_append, List.flatMap_cons]
      simp only [List.append_assoc]

/-- The machine element that steps leave. -/
def machineOfSteps (steps : List (Step M)) : Element M := steps.foldl apply (ofTag (.builtin .machine))

/-- A machine with its id and its initial state is two steps ahead. -/
theorem foldl_apply_machine (id initial : String) (steps : List (Step M)) :
    steps.foldl apply (machine id initial)
      = machineOfSteps (.attr "id" (.str id) :: .attr "initial" (.str initial) :: steps) := rfl

/-- An element has what steps put into it. Each attribute comes once, where it is first set, with
the value to which it is last set. The records that steps put in front come last first, and all
other children follow in their order. -/
structure BuiltBy (steps : List (Step M)) (element : Element M) : Prop where
  tag : element.tag = .builtin .machine
  keys : element.attributes.keys = ((steps.flatMap Step.settings).map Prod.fst).eraseDups
  get? : ∀ key value, element.attributes.get? key = some value ↔
    ∃ before after, steps.flatMap Step.settings = before ++ (key, value) :: after ∧
      key ∉ after.map Prod.fst
  children : element.children
    = (steps.filterMap Step.record?).reverse.map optionsChild ++ steps.flatMap Step.appended

theorem builtBy_machineOfSteps (steps : List (Step M)) : BuiltBy steps (machineOfSteps steps) := by
  have hattributes : (machineOfSteps steps).attributes
      = OrderedMap.ofBindings (steps.flatMap Step.settings) := attributes_foldl_apply _ steps
  refine ⟨tag_foldl_apply _ steps, ?_, fun key value => ?_, ?_⟩
  · rw [hattributes, OrderedMap.keys_ofBindings]
    rfl
  · rw [hattributes]
    exact OrderedMap.get?_ofBindings_eq_some_iff
  · rw [machineOfSteps, children_foldl_apply, ofTag, Element.children, List.append_nil]

/-- The options record that counts for a machine whose children come to the fragments: that of the
last step that puts one in front, and else the first fragment if it is one. -/
def countingRecord? (steps : List (Step M)) (fragments : List Fragment) : Option OptionsRecord :=
  (steps.filterMap Step.record?).getLast?.or (fragments.head?.bind Fragment.options?)

/-- The record that counts is the one that leads. -/
theorem leading?_eq_countingRecord? {compiler : Compiler M} {steps : List (Step M)}
    {fragments : List Fragment}
    (yields : List.Forall₂ compiler.Yields (machineOfSteps steps).children fragments) :
    SplitChildren.leading? fragments = countingRecord? steps fragments := by
  rw [(builtBy_machineOfSteps steps).children] at yields
  rw [countingRecord?]
  cases hlast : (steps.filterMap Step.record?).getLast? with
  | none => rfl
  | some record =>
      obtain ⟨earlier, hrecords⟩ := List.getLast?_eq_some_iff.mp hlast
      rw [hrecords, List.reverse_append] at yields
      -- the last record is the first child, and a fragment yields itself
      obtain ⟨first, rest, hfirst, -, rfl⟩ := List.forall₂_cons_left_iff.mp yields
      cases (hfirst : Fragment.options record = first)
      rfl

end Element

/-! ## 2. The record that leads and the others -/

namespace SplitChildren

/-- The children with no options record but the given one, which leads them. -/
def withOnly (record? : Option OptionsRecord) (children : List Fragment) : List Fragment :=
  record?.toList.map .options ++ withoutOptions children

/-- Of the options records one leads and the others are misplaced. -/
theorem filterMap_options? (children : List Fragment) :
    children.filterMap Fragment.options? = (leading? children).toList ++ misplaced children := by
  cases children with
  | nil => rfl
  | cons first rest =>
      rw [List.filterMap_eq_flatMap_toList, List.flatMap_cons, ← List.filterMap_eq_flatMap_toList]
      rfl

theorem options?_of_mem_withoutOptions {child : Fragment} {children : List Fragment}
    (h : child ∈ withoutOptions children) : child.options? = none :=
  Option.isNone_iff_eq_none.mp (List.mem_filter.mp h).2

/-- Behind an options record, or none, no other one leads where none is left. -/
theorem leading?_withOnly (record? : Option OptionsRecord) (children : List Fragment) :
    leading? (withOnly record? children) = record? := by
  cases record? with
  | some record => rfl
  | none =>
      show (withoutOptions children).head?.bind Fragment.options? = none
      refine Option.bind_eq_none_iff.mpr fun first hfirst => ?_
      exact options?_of_mem_withoutOptions (List.mem_of_head? hfirst)

theorem withoutOptions_withOnly (record? : Option OptionsRecord) (children : List Fragment) :
    withoutOptions (withOnly record? children) = withoutOptions children := by
  have hrest : withoutOptions (withoutOptions children) = withoutOptions children :=
    List.filter_eq_self.mpr fun child hchild => (List.mem_filter.mp hchild).2
  cases record? with
  | none => exact hrest
  | some record => exact hrest

theorem misplaced_withOnly (record? : Option OptionsRecord) (children : List Fragment) :
    misplaced (withOnly record? children) = [] := by
  have hrest : ∀ child ∈ withoutOptions children, child.options? = none :=
    fun _ => options?_of_mem_withoutOptions
  refine List.filterMap_eq_nil_iff.mpr fun child hchild => ?_
  cases record? with
  | some record => exact hrest child hchild
  | none => exact hrest child (List.mem_of_mem_tail hchild)

/-- Splitting children with only one options record takes that record and reports nothing. -/
theorem splitOptions_withOnly (record? : Option OptionsRecord) (children : List Fragment) :
    splitOptions (withOnly record? children)
      = { value := { options := record?, rest := withoutOptions children } } := by
  rw [splitOptions, leading?_withOnly, withoutOptions_withOnly, misplaced_withOnly]
  rfl

end SplitChildren

namespace Compile

/-- A machine compiles as if the options records that do not lead were not there, once each of them
is reported. -/
theorem machine_eq_withOnly (run : Nat) (patcher : Patcher) (policy : Policy)
    (attributes : Attributes) (children : List Fragment) :
    machine run patcher policy attributes children
      = ExceptT.lift (Logged.notices
          ((SplitChildren.misplaced children).map fun _ => .optionsIgnored)) >>= fun _ =>
        machine run patcher policy attributes
          (SplitChildren.withOnly (SplitChildren.leading? children) children) := by
  rw [machine, machine, SplitChildren.splitOptions_withOnly]
  rfl

end Compile

/-! ## 3. The machine that is built -/

namespace Compiler

variable {M : Type} {compiler : Compiler M}

/-- A machine that is built with one options record, or none, out of those that its children come
to, while the others are ignored. -/
structure BuildsWith (compiler : Compiler M) (root : Element M) (fragments : List Fragment)
    (used? : Option OptionsRecord) (ignored : List OptionsRecord) (machine : M) : Prop where
  records : fragments.filterMap Fragment.options? = used?.toList ++ ignored
  /-- The configuration and the implementations come from the record that is used and from what is
  no options record. -/
  eq_construct :
    let options := used?.getD {}
    let derived := deriveActions compiler.run compiler.patcher options.mutations
    machine = compiler.construct
      (Compile.assembleConfig root.attributes options
        (Siblings.mergeStates (SplitChildren.withoutOptions fragments)).value)
      (Compile.assembleOptions options (options.actions.extend derived.value))
  /-- The same comes out where the others are not there. -/
  result_withOnly :
    (compiler.compileBuiltin root.attributes (SplitChildren.withOnly used? fragments)
      .machine).result = .ok (.machine machine)
  /-- Each of the others is reported once, behind what the children report. -/
  log_eq : (compiler.build root).log
    = (compiler.evaluateChildren "machine" root.children).log
      ++ .compiling "machine" fragments.length :: ignored.map (fun _ => .optionsIgnored)
      ++ (compiler.compileBuiltin root.attributes (SplitChildren.withOnly used? fragments)
          .machine).log
  /-- No other report of this kind is made. -/
  omits : (compiler.compileBuiltin root.attributes (SplitChildren.withOnly used? fragments)
    .machine).Omits (· == .optionsIgnored)

/-- What a machine element comes to, it comes to without the options records that do not lead. -/
theorem compileBuiltin_machine_eq (attributes : Attributes) (fragments : List Fragment) :
    compiler.compileBuiltin attributes fragments .machine
      = ExceptT.lift (Logged.notices
          ((SplitChildren.misplaced fragments).map fun _ => .optionsIgnored)) >>= fun _ =>
        compiler.compileBuiltin attributes
          (SplitChildren.withOnly (SplitChildren.leading? fragments) fragments) .machine := by
  rw [compileBuiltin, Compile.machine_eq_withOnly, bind_assoc]
  rfl

/-- With only one options record none is ignored. -/
theorem omits_compileBuiltin_withOnly (attributes : Attributes) (record? : Option OptionsRecord)
    (fragments : List Fragment) :
    (compiler.compileBuiltin attributes (SplitChildren.withOnly record? fragments)
      .machine).Omits (· == .optionsIgnored) := by
  have later : ∀ notice : Notice, notice.isPreliminary = false →
      (notice == .optionsIgnored) = false := by
    intro notice hnotice
    rw [beq_eq_false_iff_ne]
    rintro rfl
    cases hnotice
  refine (Compile.omits_machine later ?_ _ _ _ _).bind fun _ => Compilation.omits_pure _
  rw [SplitChildren.splitOptions_withOnly]
  exact Compilation.omits_lift fun _ hnotice => absurd hnotice List.not_mem_nil

/-- A machine that is built reports what its children do, then that it is being compiled, and then
what compiling it does. -/
theorem log_build_of_yields {attributes : Attributes} {children : List (Child M)}
    {fragments : List Fragment} (yields : List.Forall₂ compiler.Yields children fragments)
    {machine : M}
    (h : (compiler.build (.node (.builtin .machine) attributes children)).result = .ok machine) :
    (compiler.build (.node (.builtin .machine) attributes children)).log
      = (compiler.evaluateChildren "machine" children).log
        ++ .compiling "machine" fragments.length
          :: (compiler.compileBuiltin attributes fragments .machine).log := by
  have hchildren : (compiler.evaluateChildren (Tag.builtin Builtin.machine : Tag M).name
      children).result = .ok fragments := result_evaluateChildren_eq_ok_iff.mpr yields
  have hcompile : (compiler.compile (.builtin .machine) attributes fragments).log
      = .compiling "machine" fragments.length
        :: (compiler.compileBuiltin attributes fragments .machine).log := by
    rw [compile, Compilation.log_bind_of_ok rfl]
    rfl
  -- the output of the root is a machine, and passing it on reports nothing
  rw [build, Compilation.log_bind_of_ok (result_build_eq_ok_iff.mp h), evaluate,
    Compilation.log_bind_of_ok hchildren, hcompile]
  exact List.append_nil _

/-- Whatever comes to a machine is built with the record that leads its children. -/
theorem buildsWith_of_build {root : Element M} (htag : root.tag = .builtin .machine) {machine : M}
    (h : (compiler.build root).result = .ok machine) :
    ∃ fragments, List.Forall₂ compiler.Yields root.children fragments ∧
      compiler.BuildsWith root fragments (SplitChildren.leading? fragments)
        (SplitChildren.misplaced fragments) machine := by
  obtain ⟨tag, attributes, children⟩ := root
  obtain rfl : tag = .builtin .machine := htag
  have hevaluate := result_build_eq_ok_iff.mp h
  obtain ⟨fragments, hyields, hcompile⟩ := result_evaluate_eq_ok_iff.mp hevaluate
  obtain ⟨-, hmachine⟩ := result_compile_machine_eq_ok_iff.mp hcompile
  have hbuiltin : (compiler.compileBuiltin attributes fragments .machine).result
      = .ok (.machine machine) := (result_compile ..).symm.trans hcompile
  refine ⟨fragments, hyields, SplitChildren.filterMap_options? fragments, ?_, ?_, ?_, ?_⟩
  · exact Output.machine.inj hmachine
  · rw [compileBuiltin_machine_eq, Compilation.result_lift_bind] at hbuiltin
    exact hbuiltin
  · rw [log_build_of_yields hyields h, compileBuiltin_machine_eq,
      Compilation.log_bind_of_ok (Compilation.result_lift _), Compilation.log_lift,
      List.append_assoc, List.cons_append]
    rfl
  · exact omits_compileBuiltin_withOnly attributes _ fragments

end Compiler

/-- **From steps to the options record that counts.** A machine element that is built by steps has
their attributes, each once in the order in which they are first set and with the value set last,
and their children, the options records that steps put in front last first and all others behind in
order. If it comes to a machine, then with the record of the last step that puts one in front, or
else with the one that its first child comes to, or else with the empty one. Any other options record
among its children makes no difference and is reported once. -/
theorem Element.machine_of_steps {M : Type} (compiler : Compiler M) (steps : List (Step M)) :
    BuiltBy steps (machineOfSteps steps) ∧
      ∀ machine, (compiler.build (machineOfSteps steps)).result = .ok machine →
        ∃ fragments ignored,
          List.Forall₂ compiler.Yields (machineOfSteps steps).children fragments ∧
            compiler.BuildsWith (machineOfSteps steps) fragments (countingRecord? steps fragments)
              ignored machine := by
  have builtBy := builtBy_machineOfSteps steps
  refine ⟨builtBy, fun machine built => ?_⟩
  obtain ⟨fragments, hyields, hbuilds⟩ := Compiler.buildsWith_of_build builtBy.tag built
  rw [leading?_eq_countingRecord? hyields] at hbuilds
  exact ⟨fragments, SplitChildren.misplaced fragments, hyields, hbuilds⟩

/-- Options records that compete for the first place: one from a component, one among the children,
and two that steps put in front. -/
def competingSteps : List (Element.Step Blueprint) :=
  [.attr "id" (.str "m"),
    .child (Element.ofTag (.custom fun _ => pure (.fragment (.options { context := some .null })))),
    .options { context := some (.str "first") },
    .attrs [("initial", .str "a"), ("id", .str "n")],
    .fragment (.options { config := [("delimiter", .str "/")] }),
    .options { context := some (.str "last") },
    .child (Element.state "a")]

theorem machine_of_steps_competingSteps :
    ∃ machine fragments ignored,
      (Compiler.blueprint.build (Element.machineOfSteps competingSteps)).result = .ok machine ∧
      Compiler.blueprint.BuildsWith (Element.machineOfSteps competingSteps) fragments
        (some { context := some (.str "last") }) ignored machine ∧
      ignored.length = 3 ∧ machine.config.id = some (.str "n") ∧
      machine.config.context = .str "last" ∧ machine.config.extra = [] := by
  obtain ⟨-, hmachine⟩ := Element.machine_of_steps Compiler.blueprint competingSteps
  obtain ⟨fragments, ignored, hyields, hbuilds⟩ := hmachine _ rfl
  have hchildren : (Compiler.blueprint.evaluateChildren "machine"
      (Element.machineOfSteps competingSteps).children).result = .ok fragments :=
    Compiler.result_evaluateChildren_eq_ok_iff.mpr hyields
  obtain rfl := Except.ok.inj hchildren
  have hlength : 4 = 1 + ignored.length :=
    (congrArg List.length hbuilds.records).trans List.length_append
  refine ⟨_, _, ignored, rfl, hbuilds, ?_, ?_, ?_, ?_⟩
  · omega
  · rw [hbuilds.eq_construct]
    rfl
  · rw [hbuilds.eq_construct]
    rfl
  · rw [hbuilds.eq_construct]
    rfl

end Statechart
