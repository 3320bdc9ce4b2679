/-
`Proofs/Contributions.lean` -- what becomes of each child, where nothing is reported.

What an element folds it checks first, and a check reports what it finds. So where a run reports no
loss, every child that the element has a place for is in its place. The rest is not checked, and it
is not reported either: a state passes over records and options records, and a machine over
transitions, invoke blocks and records, as if they were not there.
-/
import Statechart.Proofs.Losses
import Statechart.Proofs.Routing
import Statechart.Proofs.Settled

set_option autoImplicit false

namespace Statechart

/-! ## 1. Runs that report no loss -/

/-- Whether a notice says of a child that it violates a check, or that it was skipped, replaced or
ignored. -/
def Notice.tellsOfLoss : Notice → Bool
  | .violation _ _ _ | .stateReplaced _ | .stateSkipped | .transitionReplaced _
  | .transitionSkipped | .childIgnored _ | .optionsIgnored => true
  | .compiling _ _ | .configIgnored _ _ | .attributeIgnored _ _ | .derivingAction _
  | .actionReplaced _ _ | .assembled _ _ _ => false

namespace Compilation

variable {α β : Type}

/-- A run that reports the loss of no child. -/
def TellsOfNoLoss (run : Compilation α) : Prop :=
  ∀ notice ∈ run.log, notice.tellsOfLoss = false

/-- What the first step reports the sequence reports. -/
theorem TellsOfNoLoss.first {first : Compilation α} {next : α → Compilation β}
    (h : (first >>= next).TellsOfNoLoss) : first.TellsOfNoLoss := by
  intro notice hnotice
  refine h notice ?_
  rw [log_bind]
  exact List.mem_append_left _ hnotice

/-- Behind a step that succeeds the sequence reports what the rest reports. -/
theorem TellsOfNoLoss.rest {first : Compilation α} {a : α} {next : α → Compilation β}
    (h : (first >>= next).TellsOfNoLoss) (hfirst : first.result = .ok a) :
    (next a).TellsOfNoLoss := by
  intro notice hnotice
  refine h notice ?_
  rw [log_bind_of_ok hfirst]
  exact List.mem_append_right _ hnotice

/-- A step that gives a notice of loss for each item reports no loss only where there is no item. -/
theorem TellsOfNoLoss.eq_nil {value : α} {make : β → Notice}
    (hmake : ∀ b, (make b).tellsOfLoss = true) {about : List β}
    (h : TellsOfNoLoss (ExceptT.lift { value, log := about.map make } : Compilation α)) :
    about = [] := by
  cases about with
  | nil => rfl
  | cons b rest =>
      have hfirst := h (make b) (by rw [log_lift]; exact List.mem_cons_self)
      rw [hmake b] at hfirst
      cases hfirst

end Compilation

open Compilation (TellsOfNoLoss)

namespace Siblings

/-- Under every policy, checks that pass without a report have found nothing. -/
theorem violations_eq_nil {checks : List Check} {policy : Policy} {node : String}
    {children : List Fragment} (passes : Passes checks policy children)
    (silent : (enforce checks policy node children).TellsOfNoLoss) :
    violations checks children = [] := by
  cases policy with
  | permissive => exact TellsOfNoLoss.eq_nil (fun _ => rfl) silent
  | warn => exact TellsOfNoLoss.eq_nil (fun _ => rfl) silent
  | reject => exact passes rfl

/-- A table that holds all entries holds each of them under its key. -/
theorem HoldsAll.get? {α : Type} {skipped : Notice} {replaced : String → Notice}
    {entries : List (Option String × α)}
    (h : HoldsAll entries (mergeKeyed skipped replaced entries).value)
    {entry : Option String × α} (hentry : entry ∈ entries) :
    ∃ key table, entry.1 = some key ∧
      (mergeKeyed skipped replaced entries).value = some table ∧
        OrderedMap.get? table key = some entry.2 := by
  cases hvalue : (mergeKeyed skipped replaced entries).value with
  | none =>
      rw [hvalue] at h
      exact absurd (h ▸ hentry) List.not_mem_nil
  | some table =>
      rw [hvalue, HoldsAll, Option.getD_some] at h
      obtain ⟨kept, hkept, rfl⟩ := List.mem_map.mp (h ▸ hentry)
      exact ⟨kept.1, table, rfl, rfl, (distinct_mergeKeyed hvalue).1.get?_of_mem hkept⟩

/-- Where no state is lost, each stands under its id. -/
theorem get?_of_holdsAll_states {children : List Fragment}
    (h : HoldsAll ((states children).map fun node => (node.id, node)) (mergeStates children).value)
    {node : StateNode} (hnode : .state node ∈ children) :
    ∃ id table, node.id = some id ∧ (mergeStates children).value = some table ∧
      OrderedMap.get? table id = some node := by
  have hentry : (node.id, node) ∈ (states children).map fun node => (node.id, node) :=
    List.mem_map_of_mem (List.mem_filterMap.mpr ⟨.state node, hnode, rfl⟩)
  exact h.get? hentry

end Siblings

/-! ## 2. States -/

/-- A child has its place in a state: a nested state under its id, a transition under its event, and
an invoke block as the one that is used. There is no place for anything else. -/
def StateNode.Uses (node : StateNode) : Fragment → Prop
  | .state nested => ∃ id table, nested.id = some id ∧ node.states = some table ∧
      OrderedMap.get? table id = some nested
  | .transition event declared => ∃ name table, event = some name ∧ node.on = some table ∧
      OrderedMap.get? table name = some declared
  | .invoke block => node.invoke = some block
  | .record _ => False
  | .options _ => False

namespace Compile

/-- Where no loss is reported, a state uses all children that take a route. -/
theorem uses_of_state {policy : Policy} {attributes : Attributes} {children : List Fragment}
    {node : StateNode} (compiled : (state policy attributes children).result = .ok node)
    (silent : (state policy attributes children).TellsOfNoLoss) :
    ∀ child ∈ children, child.route?.isSome → node.Uses child := by
  obtain ⟨passes, rfl⟩ := result_state_eq_ok_iff.mp compiled
  have hnothing := Siblings.violations_eq_nil passes silent.first
  have hkept : Siblings.LosesNothing children :=
    (Siblings.losesNothing_iff children).mp ((Siblings.forall_check_eq_nil_iff _ _).mpr hnothing)
  intro child hchild hroute
  cases child with
  | state nested => exact Siblings.get?_of_holdsAll_states hkept.states hchild
  | transition event declared =>
      have hentry : (event, declared) ∈ Siblings.transitions children :=
        List.mem_filterMap.mpr ⟨_, hchild, rfl⟩
      exact hkept.transitions.get? hentry
  | invoke block =>
      have hblock : block ∈ Siblings.invokes children := List.mem_filterMap.mpr ⟨_, hchild, rfl⟩
      rw [hkept.invokes] at hblock
      exact Option.mem_toList.mp hblock
  | record members => cases hroute
  | options record => cases hroute

/-- A state passes over a child that takes no route, and says nothing of it. -/
theorem state_without_routeless (policy : Policy) (attributes : Attributes)
    (before after : List Fragment) {child : Fragment} (h : child.route? = none) :
    state policy attributes (before ++ child :: after)
      = state policy attributes (before ++ after) := by
  refine state_of_sameRoutes (fun route => ?_) policy attributes
  have hother : alongRoute route (child :: after) = alongRoute route after := by
    refine List.filter_cons_of_neg ?_
    rw [h]
    exact Bool.false_ne_true
  rw [alongRoute, alongRoute, List.filter_append, List.filter_append]
  exact congrArg (alongRoute route before ++ ·) hother

end Compile

/-! ## 3. Machines -/

/-- A child has its place in a machine that is made of these children: a state under its id, and an
options record in front of all others and as the only one. There is no place for anything else. -/
def Blueprint.Uses (machine : Blueprint) (children : List Fragment) : Fragment → Prop
  | .state node => ∃ id table, node.id = some id ∧ machine.config.states = some table ∧
      OrderedMap.get? table id = some node
  | .options record => SplitChildren.leading? children = some record ∧
      SplitChildren.misplaced children = []
  | .transition _ _ => False
  | .invoke _ => False
  | .record _ => False

/-- What a machine has a place for. -/
def Fragment.servesMachine : Fragment → Bool
  | .state _ | .options _ => true
  | .transition _ _ | .invoke _ | .record _ => false

/-- An options record that is not misplaced leads. -/
theorem SplitChildren.leading?_of_mem {children : List Fragment} {record : OptionsRecord}
    (hmisplaced : misplaced children = []) (hmem : .options record ∈ children) :
    leading? children = some record := by
  cases children with
  | nil => exact absurd hmem List.not_mem_nil
  | cons first rest =>
      rcases List.mem_cons.mp hmem with rfl | hrest
      · rfl
      · have hfound : record ∈ misplaced (first :: rest) :=
          List.mem_filterMap.mpr ⟨.options record, hrest, rfl⟩
        rw [hmisplaced] at hfound
        exact absurd hfound List.not_mem_nil

/-- A child that is no options record changes neither which record leads nor which ones are
misplaced, unless it stands in front of one. -/
theorem SplitChildren.eq_without {before after : List Fragment}
    (hfront : before = [] → leading? after = none) {child : Fragment} (h : child.options? = none) :
    leading? (before ++ child :: after) = leading? (before ++ after) ∧
      misplaced (before ++ child :: after) = misplaced (before ++ after) := by
  cases before with
  | nil =>
      have hafter := hfront rfl
      refine ⟨h.trans hafter.symm, ?_⟩
      cases after with
      | nil => rfl
      | cons first rest => exact List.filterMap_cons_none hafter
  | cons first rest =>
      refine ⟨rfl, ?_⟩
      show (rest ++ child :: after).filterMap Fragment.options?
        = (rest ++ after).filterMap Fragment.options?
      rw [List.filterMap_append, List.filterMap_append, List.filterMap_cons_none h]

namespace Compile

/-- Where no loss is reported, a machine uses all states and options records among its children. -/
theorem uses_of_machine {run : Nat} {patcher : Patcher} {policy : Policy} {attributes : Attributes}
    {children : List Fragment} {built : Blueprint}
    (compiled : (machine run patcher policy attributes children).result = .ok built)
    (silent : (machine run patcher policy attributes children).TellsOfNoLoss) :
    ∀ child ∈ children, child.servesMachine = true → built.Uses children child := by
  obtain ⟨passes, rfl⟩ := result_machine_eq_ok_iff.mp compiled
  have hmisplaced : SplitChildren.misplaced children = [] :=
    TellsOfNoLoss.eq_nil (fun _ => rfl) silent.first
  -- behind the split comes the check
  have hnothing := Siblings.violations_eq_nil passes (silent.rest (Compilation.result_lift _)).first
  have hunique := Siblings.violations_machineChecks_eq_nil_iff.mp hnothing
  rw [← Siblings.map_fst_states] at hunique
  have hkept := (Siblings.holdsAll_mergeKeyed_iff .stateSkipped .stateReplaced _).mpr hunique
  intro child hchild hserves
  cases child with
  | state node =>
      obtain ⟨id, table, hid, hfold, hget⟩ := Siblings.get?_of_holdsAll_states hkept hchild
      refine ⟨id, table, hid, ?_, hget⟩
      rw [machineOf, Siblings.mergeStates_withoutOptions, hfold]
      rfl
  | options record =>
      exact ⟨SplitChildren.leading?_of_mem hmisplaced hchild, hmisplaced⟩
  | transition event declared => cases hserves
  | invoke block => cases hserves
  | record members => cases hserves

/-- A machine passes over a child that it has no place for, and says nothing of it. Only, such a
child in front keeps an options record behind it from leading. -/
theorem machine_without_unserving (run : Nat) (patcher : Patcher) (policy : Policy)
    (attributes : Attributes) {before after : List Fragment}
    (hfront : before = [] → SplitChildren.leading? after = none) {child : Fragment}
    (h : child.servesMachine = false) :
    machine run patcher policy attributes (before ++ child :: after)
      = machine run patcher policy attributes (before ++ after) := by
  have hstate : child.state? = none := by
    cases child with
    | state node => cases h
    | transition | invoke | record | options => rfl
  have hoptions : child.options? = none := by
    cases child with
    | options record => cases h
    | state | transition | invoke | record => rfl
  have hstates : Siblings.states (before ++ child :: after) = Siblings.states (before ++ after) := by
    rw [Siblings.states, Siblings.states, List.filterMap_append, List.filterMap_append,
      List.filterMap_cons_none hstate]
  obtain ⟨hleading, hmisplaced⟩ := SplitChildren.eq_without hfront hoptions
  refine Compilation.Alike.eq
    ((machine_beside (derives_refl run patcher) policy attributes hstates ?_ ?_).imp ?_)
  · exact congrArg (List.map fun _ => Notice.optionsIgnored) hmisplaced
  · rw [hleading]
    exact .refl _
  · rintro ⟨config, options⟩ ⟨config', options'⟩ ⟨hconfig, hbeside⟩
    exact congrArg₂ Blueprint.mk hconfig hbeside.eq

end Compile

/-! ## 4. Children without a report -/

/-- **Children without a report.** Where a state or a machine compiles and no loss is reported, under
whatever policy, every child that it has a place for is in its place. A child that it has no place
for is passed over without a word: it changes neither the result nor the log, wherever it stands,
unless it stands in front of an options record that would otherwise lead. -/
theorem children_without_report (policy : Policy) (attributes : Attributes) :
    (∀ children node, (Compile.state policy attributes children).result = .ok node →
        (Compile.state policy attributes children).TellsOfNoLoss →
        ∀ child ∈ children, child.route?.isSome → node.Uses child) ∧
      (∀ before child after, child.route? = none →
        Compile.state policy attributes (before ++ child :: after)
          = Compile.state policy attributes (before ++ after)) ∧
      ∀ run patcher,
        (∀ children machine,
          (Compile.machine run patcher policy attributes children).result = .ok machine →
          (Compile.machine run patcher policy attributes children).TellsOfNoLoss →
          ∀ child ∈ children, child.servesMachine = true → machine.Uses children child) ∧
        ∀ before child after, (before = [] → SplitChildren.leading? after = none) →
          child.servesMachine = false →
          Compile.machine run patcher policy attributes (before ++ child :: after)
            = Compile.machine run patcher policy attributes (before ++ after) :=
  ⟨fun _ _ => Compile.uses_of_state,
    fun before _ after => Compile.state_without_routeless policy attributes before after,
    fun run patcher => ⟨fun _ _ => Compile.uses_of_machine,
      fun _ _ _ hfront => Compile.machine_without_unserving run patcher policy attributes hfront⟩⟩

/-- An options record with one guard. -/
def guardRecord : OptionsRecord := { guards := [("ready", .given 1 fun _ => .bool true)] }

/-- A transition, and behind it an options record. -/
def unheardChildren : List Fragment :=
  [.transition (some "GO") { target := some (.str "a") }, .options guardRecord]

/-- A state with these children reports no loss. -/
theorem silent_state_unheardChildren (policy : Policy) :
    (Compile.state policy [("id", .str "a")] unheardChildren).TellsOfNoLoss := by
  have hlog : (Compile.state policy [("id", .str "a")] unheardChildren).log = [] := by
    cases policy <;> rfl
  intro notice hnotice
  rw [hlog] at hnotice
  exact absurd hnotice List.not_mem_nil

/-- All that a machine with these children reports is that it is assembled. -/
theorem silent_machine_unheardChildren (policy : Policy) :
    (Compile.machine 0 Patcher.assign policy [("id", .str "m")]
      unheardChildren.reverse).TellsOfNoLoss := by
  have hlog : (Compile.machine 0 Patcher.assign policy [("id", .str "m")]
      unheardChildren.reverse).log = [.assembled "m" 0 0] := by
    cases policy <;> rfl
  intro notice hnotice
  rw [hlog] at hnotice
  rw [List.mem_singleton.mp hnotice]
  rfl

/-- Under no policy does a state report the options record, or a machine the transition. Neither has
a place for it. -/
theorem unheardChildren_unused :
    (∃ node, (∀ policy,
        (Compile.state policy [("id", .str "a")] unheardChildren).result = .ok node ∧
        (Compile.state policy [("id", .str "a")] unheardChildren).TellsOfNoLoss) ∧
      ¬∀ child ∈ unheardChildren, node.Uses child) ∧
    ∃ machine, (∀ policy,
        (Compile.machine 0 Patcher.assign policy [("id", .str "m")] unheardChildren.reverse).result
          = .ok machine ∧
        (Compile.machine 0 Patcher.assign policy [("id", .str "m")]
          unheardChildren.reverse).TellsOfNoLoss) ∧
      ¬∀ child ∈ unheardChildren.reverse, machine.Uses unheardChildren.reverse child := by
  refine ⟨⟨Compile.stateOf [("id", .str "a")] unheardChildren, fun policy => ⟨?_, ?_⟩, fun h => ?_⟩,
    Compile.machineOf 0 Patcher.assign [("id", .str "m")] unheardChildren.reverse,
    fun policy => ⟨?_, ?_⟩, fun h => ?_⟩
  · exact Compile.result_state_eq_ok_iff.mpr ⟨fun _ => rfl, rfl⟩
  · exact silent_state_unheardChildren policy
  · exact h (.options guardRecord) (List.mem_cons_of_mem _ List.mem_cons_self)
  · exact Compile.result_machine_eq_ok_iff.mpr ⟨fun _ => rfl, rfl⟩
  · exact silent_machine_unheardChildren policy
  · exact h (.transition (some "GO") { target := some (.str "a") })
      (List.mem_cons_of_mem _ List.mem_cons_self)

theorem children_without_report_unheardChildren :
    (Compile.stateOf [("id", .str "a")] unheardChildren).Uses
        (.transition (some "GO") { target := some (.str "a") }) ∧
      Compile.state .warn [("id", .str "a")] unheardChildren
        = Compile.state .warn [("id", .str "a")]
            [.transition (some "GO") { target := some (.str "a") }] ∧
      (Compile.machineOf 0 Patcher.assign [("id", .str "m")] unheardChildren.reverse).Uses
        unheardChildren.reverse (.options guardRecord) ∧
      Compile.machine 0 Patcher.assign .warn [("id", .str "m")] unheardChildren.reverse
        = Compile.machine 0 Patcher.assign .warn [("id", .str "m")] [.options guardRecord] := by
  refine ⟨?_, ?_, ?_, ?_⟩
  · exact (children_without_report .warn [("id", .str "a")]).1 unheardChildren _
      (Compile.result_state_eq_ok_iff.mpr ⟨fun _ => rfl, rfl⟩) (silent_state_unheardChildren .warn)
      (.transition (some "GO") { target := some (.str "a") }) List.mem_cons_self rfl
  · exact (children_without_report .warn [("id", .str "a")]).2.1
      [.transition (some "GO") { target := some (.str "a") }] (.options guardRecord) [] rfl
  · exact ((children_without_report .warn [("id", .str "m")]).2.2 0 Patcher.assign).1
      unheardChildren.reverse _ (Compile.result_machine_eq_ok_iff.mpr ⟨fun _ => rfl, rfl⟩)
      (silent_machine_unheardChildren .warn) (.options guardRecord) List.mem_cons_self rfl
  · exact ((children_without_report .warn [("id", .str "m")]).2.2 0 Patcher.assign).2
      [.options guardRecord] (.transition (some "GO") { target := some (.str "a") }) []
      (fun h => absurd h (List.cons_ne_nil _ _)) rfl

end Statechart
