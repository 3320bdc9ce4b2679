/-
`Proofs/Routing.lean` -- which of its children an element looks at.

A state folds the children that take a route, and it looks along each route on its own. A machine
looks at its states, and at an options record only in front; an invoked service looks at its records;
any other element looks at no child. Whatever else stands among the children, and wherever it stands
between them, changes no result. What a state reports does not change either, but for the number of
children in the first notice.
-/
import Statechart.Proofs.Folds
import Statechart.Proofs.Renewal
import Statechart.Proofs.Success

set_option autoImplicit false

namespace Statechart

namespace Siblings

/-! ## 1. The same fragments along every route -/

/-- Along every route stand the same fragments in the same order. A fragment without a route may
stand anywhere in either list, and how fragments of different routes are mixed is left open. -/
def SameRoutes (left right : List Fragment) : Prop :=
  ∀ route, alongRoute route left = alongRoute route right

/-- The children that take a route. -/
def routed (children : List Fragment) : List Fragment :=
  children.filter fun child => child.route?.isSome

/-- The children without the invoke blocks behind the first. -/
def withoutLaterInvokes : List Fragment → List Fragment
  | [] => []
  | .invoke block :: rest => .invoke block :: rest.filter fun child => child.invoke?.isNone
  | child :: rest => child :: withoutLaterInvokes rest

theorem sameRoutes_routed (children : List Fragment) : SameRoutes children (routed children) := by
  intro route
  rw [alongRoute, alongRoute, routed, List.filter_filter]
  refine List.filter_congr fun child _ => ?_
  cases child.route? with
  | none => rfl
  | some found => exact (Bool.and_true _).symm

/-! ## 2. Views of the children of one route -/

section Views

variable {α : Type} {view : Fragment → Option α}

/-- Where a fragment is seen only on its route, the view of a list is that of the route. -/
theorem filterMap_alongRoute {route : Route}
    (h : ∀ child, child.route? ≠ some route → view child = none) (children : List Fragment) :
    (alongRoute route children).filterMap view = children.filterMap view := by
  rw [alongRoute, List.filterMap_filter]
  refine List.filterMap_congr fun child _ => ?_
  by_cases hroute : child.route? = some route
  · rw [if_pos (by simpa using hroute)]
  · rw [if_neg (by simpa using hroute), h child hroute]

/-- What is seen of no invoke block is seen as well where the later ones are gone. -/
theorem filterMap_withoutLaterInvokes (h : ∀ block, view (.invoke block) = none)
    (children : List Fragment) :
    (withoutLaterInvokes children).filterMap view = children.filterMap view := by
  induction children with
  | nil => rfl
  | cons child rest ih =>
      cases child with
      | invoke block =>
          rw [withoutLaterInvokes, List.filterMap_cons_none (h block),
            List.filterMap_cons_none (h block), List.filterMap_filter]
          refine List.filterMap_congr fun later _ => ?_
          cases later with
          | invoke block => exact (h block).symm
          | state | transition | record | options => rfl
      | state | transition | record | options =>
          rw [withoutLaterInvokes, List.filterMap_cons, List.filterMap_cons, ih]
          exact nofun

end Views

theorem states_alongRoute (children : List Fragment) :
    states (alongRoute .state children) = states children := by
  refine filterMap_alongRoute (fun child h => ?_) children
  cases child with
  | state => exact absurd rfl h
  | transition | invoke | record | options => rfl

theorem transitions_alongRoute (children : List Fragment) :
    transitions (alongRoute .transition children) = transitions children := by
  refine filterMap_alongRoute (fun child h => ?_) children
  cases child with
  | transition => exact absurd rfl h
  | state | invoke | record | options => rfl

theorem invokes_alongRoute (children : List Fragment) :
    invokes (alongRoute .invoke children) = invokes children := by
  refine filterMap_alongRoute (fun child h => ?_) children
  cases child with
  | invoke => exact absurd rfl h
  | state | transition | record | options => rfl

section SameRoutes

variable {left right : List Fragment} (h : SameRoutes left right)
include h

theorem SameRoutes.states_eq : states left = states right := by
  rw [← states_alongRoute left, h .state, states_alongRoute]

theorem SameRoutes.transitions_eq : transitions left = transitions right := by
  rw [← transitions_alongRoute left, h .transition, transitions_alongRoute]

theorem SameRoutes.invokes_eq : invokes left = invokes right := by
  rw [← invokes_alongRoute left, h .invoke, invokes_alongRoute]

end SameRoutes

theorem firstInvoke?_withoutLaterInvokes (children : List Fragment) :
    firstInvoke? (withoutLaterInvokes children) = firstInvoke? children := by
  rw [firstInvoke?, firstInvoke?]
  induction children with
  | nil => rfl
  | cons child rest ih =>
      cases child with
      | invoke block => rfl
      | state | transition | record | options =>
          rw [withoutLaterInvokes]
          · exact ih
          · exact nofun

theorem states_withoutLaterInvokes (children : List Fragment) :
    states (withoutLaterInvokes children) = states children :=
  filterMap_withoutLaterInvokes (fun _ => rfl) children

theorem transitions_withoutLaterInvokes (children : List Fragment) :
    transitions (withoutLaterInvokes children) = transitions children :=
  filterMap_withoutLaterInvokes (fun _ => rfl) children

/-- Children that are no records have no part in the fold of records. -/
theorem records_filter (children : List Fragment) :
    records (children.filter fun child => child.record?.isSome) = records children := by
  rw [records, records, List.filterMap_filter]
  refine List.filterMap_congr fun child _ => ?_
  cases child with
  | state | transition | invoke | record | options => rfl

end Siblings

/-! ## 3. States -/

namespace Compile

open Siblings (SameRoutes withoutLaterInvokes)

/-- A state looks at the fragments along each route and at nothing else. -/
theorem state_of_sameRoutes {children others : List Fragment} (h : SameRoutes children others)
    (policy : Policy) (attributes : Attributes) :
    state policy attributes children = state policy attributes others := by
  have hviolations : Siblings.violations Siblings.stateChecks children
      = Siblings.violations Siblings.stateChecks others := by
    simp only [Siblings.violations, Siblings.stateChecks, Siblings.uniqueStateIds,
      Siblings.uniqueEvents, Siblings.singleInvoke, Siblings.stateIds, Siblings.events,
      List.flatMap_cons, h.states_eq, h.transitions_eq, h.invokes_eq, List.flatMap_nil]
  unfold state
  rw [Siblings.enforce_congr hviolations, Siblings.mergeTransitions, Siblings.mergeStates,
    Siblings.firstInvoke?, h.transitions_eq, h.states_eq, h.invokes_eq]
  rfl

/-- Where a policy lets invoke blocks behind the first pass, they change nothing in the state. -/
theorem result_state_withoutLaterInvokes {policy : Policy} (pass : policy ≠ .reject)
    (attributes : Attributes) (children : List Fragment) :
    (state policy attributes children).result
      = (state policy attributes (withoutLaterInvokes children)).result := by
  have hpass : ∀ siblings, (state policy attributes siblings).result
      = .ok (stateOf attributes siblings) := fun siblings =>
    result_state_eq_ok_iff.mpr ⟨fun reject => absurd reject pass, rfl⟩
  rw [hpass, hpass, stateOf, stateOf, Siblings.firstInvoke?_withoutLaterInvokes,
    Siblings.mergeTransitions, Siblings.mergeTransitions, Siblings.mergeStates,
    Siblings.mergeStates, Siblings.transitions_withoutLaterInvokes,
    Siblings.states_withoutLaterInvokes]

/-! ## 4. Machines -/

/-- What a machine looks at among its children: the options record that leads them, if one does, and
the states. -/
def machineChildren (children : List Fragment) : List Fragment :=
  ((SplitChildren.leading? children).map Fragment.options).toList ++ alongRoute .state children

theorem states_machineChildren (children : List Fragment) :
    Siblings.states (machineChildren children) = Siblings.states children := by
  rw [machineChildren, Siblings.states, List.filterMap_append]
  have hrecord : ∀ record? : Option OptionsRecord,
      (record?.map Fragment.options).toList.filterMap Fragment.state? = [] := by
    intro record?
    cases record? with
    | none => rfl
    | some record => rfl
  rw [hrecord, List.nil_append]
  exact Siblings.states_alongRoute children

theorem leading?_machineChildren (children : List Fragment) :
    SplitChildren.leading? (machineChildren children) = SplitChildren.leading? children := by
  rw [machineChildren]
  cases SplitChildren.leading? children with
  | some record => rfl
  | none =>
      -- what then comes first is a state, and no options record
      show (alongRoute .state children).head?.bind Fragment.options? = none
      rw [Option.bind_eq_none_iff]
      intro child hchild
      have hstate := (List.mem_filter.mp (List.mem_of_mem_head? hchild)).2
      cases child with
      | options => cases hstate
      | state | transition | invoke | record => rfl

/-- A machine is made of the states among its children and of the options record in front. -/
theorem result_machine_machineChildren (run : Nat) (patcher : Patcher) (policy : Policy)
    (attributes : Attributes) (children : List Fragment) :
    (machine run patcher policy attributes children).result
      = (machine run patcher policy attributes (machineChildren children)).result := by
  have hstates : Siblings.states (SplitChildren.withoutOptions children)
      = Siblings.states (SplitChildren.withoutOptions (machineChildren children)) := by
    rw [Siblings.states_withoutOptions, Siblings.states_withoutOptions, states_machineChildren]
  rw [result_machine, result_machine,
    Siblings.enforce_congr (Siblings.violations_machineChecks_congr hstates), machineOf, machineOf,
    leading?_machineChildren, Siblings.mergeStates_congr hstates]

end Compile

/-! ## 5. Every element with a built-in tag -/

open Siblings (SameRoutes routed withoutLaterInvokes)

open Compilation (EndAlike)

variable {M : Type}

/-- **Routing.** What an element with a built-in tag compiles to depends only on the children that it
looks at, and on their order within a kind.

A state comes to the same, or fails with the same violations, and says the same behind its first
notice, over all children that have the same fragments along every route; records and options
records take none. If the policy lets violations pass, invoke blocks behind the first may go as
well. A machine comes to what the options record in front and its states come to, also in another
run, an invoked service to what its records come to, and the rest to one and the same over any
children. -/
theorem compile_looks_along_routes (compiler : Compiler M) (attributes : Attributes)
    (children : List Fragment) :
    (∀ others, SameRoutes children others →
        (compiler.compile (.builtin .state) attributes children).result
            = (compiler.compile (.builtin .state) attributes others).result ∧
          ∃ said, (compiler.compile (.builtin .state) attributes children).log
              = .compiling "state" children.length :: said ∧
            (compiler.compile (.builtin .state) attributes others).log
              = .compiling "state" others.length :: said) ∧
      SameRoutes children (routed children) ∧
      (compiler.settings.duplicates ≠ .reject →
        (compiler.compile (.builtin .state) attributes children).result
          = (compiler.compile (.builtin .state) attributes
              (withoutLaterInvokes children)).result) ∧
      (compiler.compile (.builtin .machine) attributes children).result
        = (compiler.compile (.builtin .machine) attributes
            (Compile.machineChildren children)).result ∧
      (∀ run, EndAlike (OutputAgain compiler.construct)
        (compiler.compile (.builtin .machine) attributes children).result
        ((compiler.inRun run).compile (.builtin .machine) attributes
          (Compile.machineChildren children)).result) ∧
      (compiler.compile (.builtin .invoke) attributes children).result
        = (compiler.compile (.builtin .invoke) attributes
            (children.filter fun child => child.record?.isSome)).result ∧
      ∀ builtin ∈ [Builtin.transition, .onDone, .onError], ∀ others,
        (compiler.compile (.builtin builtin) attributes children).result
          = (compiler.compile (.builtin builtin) attributes others).result := by
  have hmachine : (compiler.compile (.builtin .machine) attributes children).result
      = (compiler.compile (.builtin .machine) attributes
          (Compile.machineChildren children)).result := by
    rw [Compiler.result_compile, Compiler.result_compile]
    simp only [Compiler.compileBuiltin]
    rw [Compilation.result_bind, Compilation.result_bind, Compile.result_machine_machineChildren]
  refine ⟨fun others h => ?_, Siblings.sameRoutes_routed children, fun pass => ?_, hmachine,
    fun run => ?_, ?_, fun builtin hbuiltin others => ?_⟩
  · have hstate := Compile.state_of_sameRoutes h compiler.settings.duplicates attributes
    refine ⟨?_, (compiler.compileBuiltin attributes children .state).log, rfl, ?_⟩
    · rw [Compiler.result_compile, Compiler.result_compile]
      simp only [Compiler.compileBuiltin]
      rw [hstate]
    · rw [Compiler.compileBuiltin, hstate]
      rfl
  · rw [Compiler.result_compile, Compiler.result_compile]
    simp only [Compiler.compileBuiltin]
    rw [Compilation.result_bind, Compilation.result_bind,
      Compile.result_state_withoutLaterInvokes pass]
  · rw [hmachine]
    exact (compiler.compile_again run _ attributes _).result
  · rw [Compiler.result_compile, Compiler.result_compile]
    show Except.ok (Output.fragment (.invoke (attributes.extend (Siblings.mergeRecords _).value)))
      = .ok (.fragment (.invoke (attributes.extend (Siblings.mergeRecords _).value)))
    rw [Siblings.mergeRecords, Siblings.mergeRecords, Siblings.records_filter]
  · rw [Compiler.result_compile, Compiler.result_compile]
    simp only [List.mem_cons, List.not_mem_nil, or_false] at hbuiltin
    rcases hbuiltin with rfl | rfl | rfl
    · rfl
    · rfl
    · rfl

/-- Children of all five kinds, mixed, with two invoke blocks and two options records. -/
def mixedChildren : List Fragment :=
  [.options {}, .invoke [("src", .str "load")], .state { id := some "busy" },
    .record [("onDone", .obj [])], .transition (some "GO") { target := some (.str "busy") },
    .state { id := some "busy" }, .invoke [("src", .str "save")], .options {}]

/-- The same children kind by kind, but for the records and the options records. -/
def sortedChildren : List Fragment :=
  [.transition (some "GO") { target := some (.str "busy") }, .state { id := some "busy" },
    .state { id := some "busy" }, .invoke [("src", .str "load")], .invoke [("src", .str "save")]]

theorem compile_mixedChildren :
    (∃ said,
        (Compiler.blueprint.compile (.builtin .state) [] mixedChildren).log
            = .compiling "state" 8 :: said ∧
          (Compiler.blueprint.compile (.builtin .state) [] sortedChildren).log
            = .compiling "state" 5 :: said) ∧
      (Compiler.blueprint.compile (.builtin .state) [] mixedChildren).result
        = (Compiler.blueprint.compile (.builtin .state) [] sortedChildren).result ∧
      (Compiler.blueprint.compile (.builtin .state) [] mixedChildren).result
        = (Compiler.blueprint.compile (.builtin .state) []
            (withoutLaterInvokes mixedChildren)).result ∧
      (Compiler.blueprint.compile (.builtin .machine) [] mixedChildren).result
        = (Compiler.blueprint.compile (.builtin .machine) []
            [.options {}, .state { id := some "busy" }, .state { id := some "busy" }]).result := by
  have hroutes : SameRoutes mixedChildren sortedChildren := by
    intro route
    cases route with
    | state | transition | childConfig | invoke => rfl
  obtain ⟨hstate, -, hinvokes, hmachine, -⟩ :=
    compile_looks_along_routes Compiler.blueprint [] mixedChildren
  obtain ⟨hresult, said, hmixed, hsorted⟩ := hstate sortedChildren hroutes
  refine ⟨⟨said, hmixed, hsorted⟩, hresult, hinvokes ?_, hmachine⟩
  intro h
  cases h

end Statechart
