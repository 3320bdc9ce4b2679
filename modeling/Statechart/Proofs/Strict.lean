/-
`Proofs/Strict.lean` -- a build that rejects ambiguities loses nothing and invents nothing.

Under the rejecting policy every level of a tree that builds has unique ids and unique events and at
most one invoke block. So no fold of the compiler drops or replaces anything: the states of the
machine are the state elements of the markup, under their paths and in their order, and each holds
the transitions and the invoke block of its element.
-/
import Statechart.Proofs.Positions

set_option autoImplicit false

namespace Statechart

variable {M : Type}

/-! ## 1. What a state holds of its element -/

namespace Element

/-- The table lists the state children by their ids, in their order; without any there is none. -/
def ListsStates (element : Element M) (table : Option StateTable) : Prop :=
  (table = none ↔ element.childrenOf .state = []) ∧
    (table.getD []).keys.map some = (element.childrenOf .state).map (key? "id")

/-- The table has one entry for each transition child, in their order: under its event, its target
and its other attributes. Without any there is none. -/
def ListsTransitions (element : Element M) (table : Option TransitionTable) : Prop :=
  (table = none ↔ element.childrenOf .transition = []) ∧
    List.Forall₂ (fun transition entry => transition.key? "event" = some entry.1 ∧
        entry.2.target = transition.attributes.get? "target" ∧
        entry.2.attributes = transition.attributes.without ["event", "target"])
      (element.childrenOf .transition) (table.getD [])

/-- The block is that of the only invoke child; without one there is none. -/
def HoldsInvoke (element : Element M) (block : Option Attributes) : Prop :=
  (element.childrenOf .invoke = [] ∧ block = none) ∨
    ∃ invoke, element.childrenOf .invoke = [invoke] ∧ block = some invoke.invokeBlock

end Element

namespace Compiler

variable {compiler : Compiler M} {children : List (Child M)} {fragments : List Fragment}

/-- Where ids are unique, the table that the children fold to lists the state children. -/
theorem listsStates {tag : Tag M} {attributes : Attributes} (plain : Child.AllPlain children)
    (yields : List.Forall₂ compiler.Yields children fragments)
    (unique : Siblings.UniqueKeys (Siblings.stateIds fragments)) :
    (Element.node tag attributes children).ListsStates (Siblings.mergeStates fragments).value := by
  have hids := stateIds_eq plain yields
  have hkeys : ((Siblings.states fragments).map fun node => (node.id, node)).map Prod.fst
      = Siblings.stateIds fragments := by
    rw [List.map_map]
    rfl
  have hentries := (hkeys ▸ unique).forall₂_keyed
  have hvalue := (hkeys ▸ unique).value_mergeKeyed .stateSkipped .stateReplaced
  rw [Element.ListsStates, Siblings.mergeStates, hvalue, Siblings.nonempty?_eq_none_iff,
    Siblings.getD_nonempty?]
  constructor
  · -- the table has as many entries as there are state children
    rw [← List.length_eq_zero_iff, ← hentries.length_eq, List.length_map,
      ← (forall₂_states plain yields).length_eq, List.length_eq_zero_iff]
    rfl
  · show _ = (children.filterMap (Child.as? .state)).map (Element.key? "id")
    rw [← hids, ← hkeys]
    have hfst := hentries.imp fun (entry : Option String × StateNode) (kept : String × StateNode)
      (h : entry = (some kept.1, kept.2)) => congrArg Prod.fst h
    rw [← List.forall₂_map_right_iff, ← List.forall₂_map_left_iff (f := Prod.fst),
      List.forall₂_eq_eq_eq] at hfst
    rw [OrderedMap.keys, List.map_map, hfst]
    rfl

/-- Where events are unique, the table that the children fold to lists the transition children. -/
theorem listsTransitions {tag : Tag M} {attributes : Attributes} (plain : Child.AllPlain children)
    (yields : List.Forall₂ compiler.Yields children fragments)
    (unique : Siblings.UniqueKeys (Siblings.events fragments)) :
    (Element.node tag attributes children).ListsTransitions
      (Siblings.mergeTransitions fragments).value := by
  have hentries := unique.forall₂_keyed
  have hvalue := unique.value_mergeKeyed .transitionSkipped .transitionReplaced
  have htransitions := transitions_eq plain yields
  rw [htransitions] at hentries
  rw [Element.ListsTransitions, Siblings.mergeTransitions, hvalue, htransitions,
    Siblings.nonempty?_eq_none_iff, Siblings.getD_nonempty?]
  constructor
  · rw [← List.length_eq_zero_iff, ← hentries.length_eq, List.length_map, List.length_eq_zero_iff]
    rfl
  · refine (List.forall₂_map_left_iff.mp hentries).imp fun element kept h => ?_
    obtain ⟨hevent, hdeclared⟩ := Prod.mk.inj h
    exact ⟨hevent, congrArg Transition.target hdeclared.symm,
      congrArg Transition.attributes hdeclared.symm⟩

/-- Where there is at most one invoke block, it is that of the only invoke child. -/
theorem holdsInvoke {tag : Tag M} {attributes : Attributes} (plain : Child.AllPlain children)
    (yields : List.Forall₂ compiler.Yields children fragments)
    (single : (Siblings.invokes fragments).length ≤ 1) :
    (Element.node tag attributes children).HoldsInvoke (Siblings.firstInvoke? fragments) := by
  have hinvokes := invokes_eq plain yields
  show (children.filterMap (Child.as? .invoke) = [] ∧ _) ∨
    ∃ invoke, children.filterMap (Child.as? .invoke) = [invoke] ∧ _
  rw [hinvokes, List.length_map] at single
  rw [Siblings.firstInvoke?, hinvokes]
  generalize children.filterMap (Child.as? .invoke) = elements at single ⊢
  match elements, single with
  | [], _ => exact .inl ⟨rfl, rfl⟩
  | [invoke], _ => exact .inr ⟨invoke, rfl, rfl⟩

/-! ## 2. Every level of a tree that builds -/

/-- Every state element at a position evaluates to a state. -/
theorem exists_yieldsState {position : List Nat} (hne : position ≠ []) :
    ∀ {tag : Tag M} {attributes : Attributes} {children : List (Child M)}
      {fragments : List Fragment} {element : Element M}, Child.AllPlain children →
      List.Forall₂ compiler.Yields children fragments →
      (Element.node tag attributes children).descend? position = some element →
      element.Plain ∧ ∃ node, compiler.YieldsState element node := by
  induction position with
  | nil => exact absurd rfl hne
  | cons index rest ih =>
      intro tag attributes children fragments element plain yields helement
      rw [Element.descend?] at helement
      obtain ⟨state, hstate, hrest⟩ := Option.bind_eq_some_iff.mp helement
      obtain ⟨hindex, hget⟩ := List.getElem?_eq_some_iff.mp hstate
      have hstate : (children.filterMap (Child.as? .state)).get ⟨index, hindex⟩ = state := hget
      have hstates := forall₂_states plain yields
      obtain ⟨node, hstatePlain, hnode⟩ : ∃ node, state.Plain ∧ compiler.YieldsState state node :=
        ⟨_, hstate ▸ hstates.get hindex (hstates.length_eq ▸ hindex)⟩
      cases rest with
      | nil =>
          cases hrest
          exact ⟨hstatePlain, node, hnode⟩
      | cons next rest =>
          obtain ⟨attributes, children, fragments, rfl, hplain, hyields, -, -⟩ :=
            hnode.inv hstatePlain
          exact ih (List.cons_ne_nil next rest) hplain hyields hrest

/-- Rejecting, a state holds all that its element declares. -/
theorem YieldsState.holds (reject : compiler.settings.duplicates = .reject)
    {element : Element M} {node : StateNode} (h : compiler.YieldsState element node)
    (plain : element.Plain) :
    Siblings.UniqueKeys ((element.childrenOf .state).map (Element.key? "id")) ∧
      element.ListsStates node.states ∧ element.ListsTransitions node.on ∧
      element.HoldsInvoke node.invoke := by
  obtain ⟨attributes, children, fragments, rfl, hplain, hyields, hpass, rfl⟩ := h.inv plain
  obtain ⟨hids, hevents, hinvoke⟩ :=
    Siblings.violations_stateChecks_eq_nil_iff.mp (hpass reject)
  refine ⟨?_, listsStates hplain hyields hids, listsTransitions hplain hyields hevents,
    holdsInvoke hplain hyields hinvoke⟩
  show Siblings.UniqueKeys ((children.filterMap (Child.as? .state)).map (Element.key? "id"))
  rwa [← stateIds_eq hplain hyields]

/-- Rejecting, ids are unique from the top down in a tree that builds: at the top by the check of
the machine, and below by the check of each state. -/
theorem uniqueIds_of_build (reject : compiler.settings.duplicates = .reject) {root : Element M}
    (plain : root.Plain) {machine : M} (built : (compiler.build root).result = .ok machine) :
    root.UniqueIds := by
  obtain ⟨attributes, children, fragments, rfl, hplain, hyields, hpass, -⟩ :=
    inv_of_build plain built
  intro position element helement
  by_cases hne : position = []
  · subst hne
    cases helement
    have hids := Siblings.violations_machineChecks_eq_nil_iff.mp (hpass reject)
    rwa [stateIds_eq hplain hyields] at hids
  · obtain ⟨helementPlain, node, hnode⟩ := exists_yieldsState hne hplain hyields helement
    exact (hnode.holds reject helementPlain).1

/-- Rejecting, the machine lists the state children of the top. -/
theorem listsStates_of_build {compiler : Compiler Blueprint}
    (blueprint : compiler.construct = Blueprint.mk)
    (reject : compiler.settings.duplicates = .reject) {root : Element Blueprint}
    (plain : root.Plain) (keyed : ∃ state ∈ root.childrenOf .state, (state.key? "id").isSome)
    {machine : Blueprint} (built : (compiler.build root).result = .ok machine) :
    root.ListsStates machine.config.states := by
  obtain ⟨attributes, children, fragments, rfl, hplain, hyields, hpass, rfl⟩ :=
    inv_of_build plain built
  rw [blueprint]
  show Element.ListsStates _ (Compile.machineOf _ _ attributes fragments).config.states
  -- the machine takes the table of its children, since one of them has an id
  rw [states_machineOf hplain hyields keyed]
  exact listsStates hplain hyields
    (Siblings.violations_machineChecks_eq_nil_iff.mp (hpass reject))

end Compiler

/-! ## 3. The machine and its markup -/

/-- **A strict build is faithful.** When a machine with state children builds and ambiguities are
rejected, going to a state element by its position and looking a state up by its path of ids is one
and the same; every level lists its states in their order; and every state holds the transitions and
the invoke block of its element. -/
theorem strict_build_faithful (compiler : Compiler Blueprint)
    (blueprint : compiler.construct = Blueprint.mk)
    (reject : compiler.settings.duplicates = .reject) {root : Element Blueprint}
    (plain : root.Plain) (nonempty : root.childrenOf .state ≠ []) {machine : Blueprint}
    (built : (compiler.build root).result = .ok machine) :
    Set.BijOn root.idPath? root.statePositions
        (some '' {path | (machine.config.state? path).isSome}) ∧
      root.ListsStates machine.config.states ∧
      ∀ position ∈ root.statePositions, ∃ element path node,
        root.descend? position = some element ∧ root.idPath? position = some path ∧
          machine.config.state? path = some node ∧ element.ListsStates node.states ∧
          element.ListsTransitions node.on ∧ element.HoldsInvoke node.invoke := by
  have hunique := Compiler.uniqueIds_of_build reject plain built
  have hkeyed := hunique.exists_keyed nonempty
  refine ⟨?_, Compiler.listsStates_of_build blueprint reject plain hkeyed built, ?_⟩
  · have hpaths : {path | (machine.config.state? path).isSome}
        = {path | path ≠ [] ∧ (root.resolve? path).isSome} :=
      Set.ext (Compiler.isSome_state?_iff blueprint plain hkeyed built)
    rw [hpaths]
    exact hunique.bijOn_idPath?
  · rintro position ⟨hne, hsome⟩
    obtain ⟨element, helement⟩ := Option.isSome_iff_exists.mp hsome
    obtain ⟨path, hpath, hlength, hresolve⟩ := hunique.resolve?_idPath? helement
    have hpathNe : path ≠ [] := by
      intro hnil
      rw [hnil] at hlength
      exact hne (List.length_eq_zero_iff.mp hlength.symm)
    -- the path resolves to the element, so the machine holds there what the element yields
    have hrel := Compiler.rel_state? blueprint plain hkeyed built hpathNe
    rw [hresolve] at hrel
    obtain ⟨node, hnode, ⟨helementPlain, hyield⟩, -⟩ := exists_of_rel_some hrel
    exact ⟨element, path, node, helement, hpath, hnode, (hyield.holds reject helementPlain).2⟩

/-- Two states with all that a state may hold of its children. -/
def orderlyMarkup : Element Blueprint :=
  (Element.machine "m" "a").childElements
    [(Element.state "a").childElements
        [.transition "go" "b", (Element.invoke "load").child .onDone],
      (Element.state "b").child (.state "x")]

theorem faithful_orderlyMarkup :
    ∃ machine, (({ Compiler.blueprint with settings := { duplicates := .reject } } :
        Compiler Blueprint).build orderlyMarkup).result = .ok machine ∧
      (machine.config.state? ["b", "x"]).isSome ∧ orderlyMarkup.ListsStates machine.config.states ∧
      ∃ element path node, orderlyMarkup.descend? [0] = some element ∧
        orderlyMarkup.idPath? [0] = some path ∧ machine.config.state? path = some node ∧
        element.ListsStates node.states ∧ element.ListsTransitions node.on ∧
        element.HoldsInvoke node.invoke := by
  have hplain : orderlyMarkup.Plain := by simp [orderlyMarkup]
  obtain ⟨hpaths, hstates, hheld⟩ := strict_build_faithful
    { Compiler.blueprint with settings := { duplicates := .reject } } rfl rfl hplain
    (List.cons_ne_nil _ _) rfl
  refine ⟨_, rfl, ?_, hstates, hheld [0] ⟨List.cons_ne_nil _ _, rfl⟩⟩
  obtain ⟨path, hpath, hsame⟩ :=
    hpaths.mapsTo
      (show [1, 0] ∈ orderlyMarkup.statePositions from ⟨List.cons_ne_nil _ _, rfl⟩)
  cases hsame
  exact hpath

end Statechart
