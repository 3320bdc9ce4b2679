/-
`Proofs/Bindings.lean` -- from the steps that build an options record to the implementations of its
machine.

A record is built by steps that may come in any order and bind a name again and again. What counts
of them is, for each group, the order in which its names first come and the last implementation of
each name. A machine keeps the groups as they are, but for its actions: behind the names of plain
actions come those of mutators, and a name that has a mutator stands for the action derived for it.
What the implementations compute has no say in any of this.
-/
import Statechart.Proofs.Renewal
import Statechart.Proofs.Success

set_option autoImplicit false

namespace Statechart

/-! ## 1. What steps bind -/

namespace OptionsRecord

/-- The name and the implementation that a step binds in a group, if it binds anything there. -/
def Step.binding? (group : Group) : Step → Option (String × Implementation)
  | .bind own name implementation => if own = group then some (name, implementation) else none
  | .context _ | .config _ => none

/-- What steps bind in a group, step by step. -/
def bindings (group : Group) (steps : List Step) : List (String × Implementation) :=
  steps.filterMap (Step.binding? group)

/-- The names of a group, each once, in the order in which steps first use them. -/
def names (group : Group) (steps : List Step) : List String :=
  ((bindings group steps).map Prod.fst).eraseDups

/-- The implementation that the last step for a name of a group binds. -/
def lastBound? (group : Group) (name : String) (steps : List Step) : Option Implementation :=
  ((bindings group steps).reverse.find? fun binding => binding.1 == name).map Prod.snd

/-- A step writes what it binds in a group to the table of the group. -/
theorem table_apply (record : OptionsRecord) (step : Step) (group : Group) :
    (record.apply step).table group
      = (record.table group).extend (step.binding? group).toList := by
  cases step with
  | context value => cases group <;> rfl
  | config members => cases group <;> rfl
  | bind own name implementation => cases own <;> cases group <;> rfl

/-- A run of steps writes all that it binds in a group to the table of the group. -/
theorem table_foldl_apply (record : OptionsRecord) (steps : List Step) (group : Group) :
    (steps.foldl apply record).table group
      = (record.table group).extend (bindings group steps) := by
  induction steps generalizing record with
  | nil => rfl
  | cons step rest ih =>
      have hbindings : bindings group (step :: rest)
          = (step.binding? group).toList ++ bindings group rest := by
        rw [bindings, List.filterMap_cons]
        cases step.binding? group <;> rfl
      rw [List.foldl_cons, ih, table_apply, hbindings, OrderedMap.extend_append]

/-- The table of a group is the table of what is bound in the group. -/
theorem table_ofSteps (group : Group) (steps : List Step) :
    (ofSteps steps).table group = OrderedMap.ofBindings (bindings group steps) := by
  rw [ofSteps, table_foldl_apply]
  cases group <;> rfl

theorem distinct_table_ofSteps (group : Group) (steps : List Step) :
    OrderedMap.Distinct ((ofSteps steps).table group) := by
  rw [table_ofSteps]
  exact OrderedMap.distinct_ofBindings _

/-- A table registers the steps for a group: it lists their names in the order of first use, and
holds under each the implementation of the last step for it. -/
structure Registers (group : Group) (steps : List Step) (table : Implementations) : Prop where
  keys : table.keys = names group steps
  get? : ∀ name, table.get? name = lastBound? group name steps

theorem registers_ofSteps (group : Group) (steps : List Step) :
    Registers group steps ((ofSteps steps).table group) := by
  refine ⟨?_, fun name => ?_⟩
  · rw [table_ofSteps, OrderedMap.keys_ofBindings]
    rfl
  · rw [table_ofSteps, OrderedMap.get?_ofBindings, OrderedMap.get?_eq_find?]
    rfl

end OptionsRecord

/-! ## 2. What a machine makes of them -/

open OptionsRecord (names lastBound? Registers Step ofSteps registers_ofSteps)

/-- The implementations of a machine whose options record is built by steps. -/
structure MachineOptions.Offers (patcher : Patcher) (steps : List Step) (options : MachineOptions) :
    Prop where
  guards : Registers .guard steps options.guards
  activities : Registers .activity steps options.activities
  services : Registers .service steps options.services
  delays : Registers .delay steps options.delays
  /-- The names of plain actions come first, and those that only mutators have follow. -/
  actionNames : options.actions.keys
    = names .action steps
      ++ (names .mutation steps).filter fun name => !(names .action steps).contains name
  /-- The name of a mutator stands for an action that calls the last mutator of that name, and only
  this, and hands what it returns to the patcher. -/
  derived : ∀ name ∈ names .mutation steps, ∃ mutator action,
    lastBound? .mutation name steps = some mutator ∧ options.actions.get? name = some action ∧
      (∀ arguments, action.call arguments = patcher (mutator.call arguments)) ∧
        action.userCalls = mutator.userCalls
  /-- Any other name stands for the last plain action of that name. -/
  plain : ∀ name ∉ names .mutation steps,
    options.actions.get? name = lastBound? .action name steps

namespace Compile

/-- What steps bind a machine offers, with the actions that are derived for their mutators. -/
theorem offers_assembleOptions (run : Nat) (patcher : Patcher) (steps : List Step) :
    (assembleOptions (ofSteps steps) ((ofSteps steps).actions.extend
      (deriveActions run patcher (ofSteps steps).mutations).value)).Offers patcher steps := by
  have hactions : Registers .action steps (ofSteps steps).actions := registers_ofSteps _ _
  have hmutations : Registers .mutation steps (ofSteps steps).mutations := registers_ofSteps _ _
  have hdistinct : OrderedMap.Distinct (ofSteps steps).mutations :=
    OptionsRecord.distinct_table_ofSteps .mutation steps
  refine ⟨registers_ofSteps _ _, registers_ofSteps _ _, registers_ofSteps _ _,
    registers_ofSteps _ _, ?_, fun name hname => ?_, fun name hname => ?_⟩
  · have hkeys := keys_deriveActions run patcher (ofSteps steps).mutations
    have hderived : OrderedMap.Distinct
        (deriveActions run patcher (ofSteps steps).mutations).value := by
      rwa [OrderedMap.Distinct, hkeys]
    rw [assembleOptions, hderived.keys_extend, hkeys, hmutations.keys, hactions.keys]
  · rw [← hmutations.keys, ← OrderedMap.isSome_get?_iff] at hname
    obtain ⟨mutator, hmutator⟩ := Option.isSome_iff_exists.mp hname
    refine ⟨mutator, .derived run name mutator patcher, ?_, ?_, fun _ => rfl, rfl⟩
    · rw [← hmutations.get?, hmutator]
    · rw [assembleOptions, get?_extend_deriveActions run patcher _ hdistinct, hmutator]
      rfl
  · rw [← hmutations.keys, ← OrderedMap.get?_eq_none_iff] at hname
    rw [assembleOptions, get?_extend_deriveActions run patcher _ hdistinct, hname, ← hactions.get?]
    rfl

end Compile

/-! ## 3. Other functions under the same identities -/

/-- The same callable by its identity, whatever either computes. -/
def Implementation.Twin (a b : Implementation) : Prop := a.identity = b.identity

/-- The same step, but for what the implementation that it binds computes. -/
inductive OptionsRecord.Step.Twin : Step → Step → Prop
  | context (value : Json) : Twin (.context value) (.context value)
  | config (members : Attributes) : Twin (.config members) (.config members)
  | bind (group : Group) (name : String) {a b : Implementation} (twin : a.Twin b) :
      Twin (.bind group name a) (.bind group name b)

theorem derives_twin (run : Nat) (patcher patcher' : Patcher) :
    Derives Implementation.Twin Implementation.Twin run run patcher patcher' where
  plain := fun _ _ h => h
  derived := fun name _ _ h => congrArg (Identity.derived run name) h

namespace OptionsRecord

/-- Twin steps bind alike in each group. -/
theorem Step.Twin.binding? {step step' : Step} (h : step.Twin step') (group : Group) :
    OrderedMap.Alike Implementation.Twin (step.binding? group).toList
      (step'.binding? group).toList := by
  cases h with
  | context value => exact .nil
  | config members => exact .nil
  | bind own name htwin =>
      rw [Step.binding?, Step.binding?]
      split
      · exact .cons ⟨rfl, htwin⟩ .nil
      · exact .nil

/-- Twin steps keep records side by side. -/
theorem Beside.apply {record record' : OptionsRecord}
    (h : record.Beside Implementation.Twin record') {step step' : Step} (htwin : step.Twin step') :
    (record.apply step).Beside Implementation.Twin (record'.apply step') := by
  refine ⟨?_, ?_, fun group => ?_⟩
  · cases htwin with
    | context value => rfl
    | config members => exact h.context
    | bind own name htwin => cases own <;> exact h.context
  · cases htwin with
    | context value => exact h.config
    | config members => exact congrArg (OrderedMap.extend · members) h.config
    | bind own name htwin => cases own <;> exact h.config
  · rw [table_apply, table_apply]
    exact (h.table group).extend (htwin.binding? group)

/-- Twin steps build records side by side. -/
theorem beside_ofSteps {steps steps' : List Step} (h : List.Forall₂ Step.Twin steps steps') :
    (ofSteps steps).Beside Implementation.Twin (ofSteps steps') := by
  have hrun : ∀ record record' : OptionsRecord, record.Beside Implementation.Twin record' →
      (steps.foldl OptionsRecord.apply record).Beside Implementation.Twin
        (steps'.foldl OptionsRecord.apply record') := by
    induction h with
    | nil => exact fun _ _ h => h
    | cons hstep _ ih => exact fun _ _ h => ih _ _ (h.apply hstep)
  refine hrun {} {} ⟨rfl, rfl, fun group => ?_⟩
  cases group <;> exact .nil

end OptionsRecord

/-- **From steps to implementations.** A machine that compiles with an options record that is built
by steps offers what the steps bind. Compiling it calls nothing: with any other functions under the
same identities, and with any other patcher, it says the same, ends alike, and comes to the same
configuration and to the same implementations by their identities. -/
theorem machine_offers_bindings (run : Nat) (patcher : Patcher) (policy : Policy)
    (attributes : Attributes) (steps : List Step) (rest : List Fragment) :
    (∀ machine : Blueprint,
      (Compile.machine run patcher policy attributes (.options (ofSteps steps) :: rest)).result
        = .ok machine → machine.options.Offers patcher steps) ∧
      ∀ (patcher' : Patcher) (steps' : List Step), List.Forall₂ Step.Twin steps steps' →
        Compilation.Alike (fun left right : Blueprint =>
            left.config = right.config ∧
              left.options.Beside Implementation.Twin Implementation.Twin right.options)
          (Compile.machine run patcher policy attributes (.options (ofSteps steps) :: rest))
          (Compile.machine run patcher' policy attributes (.options (ofSteps steps') :: rest)) := by
  refine ⟨fun machine compiled => ?_, fun patcher' steps' htwin => ?_⟩
  · obtain ⟨-, rfl⟩ := Compile.result_machine_eq_ok_iff.mp compiled
    exact Compile.offers_assembleOptions run patcher steps
  · exact Compile.machine_beside (derives_twin run patcher patcher') policy attributes rfl rfl
      (OptionsRecord.beside_ofSteps htwin)

/-- Steps that bind names again, in two groups, and a plain action behind a mutator. -/
def tangledSteps : List Step :=
  [.bind .guard "ready" (.given 1 fun _ => .bool false),
    .bind .mutation "count" (.given 2 fun _ => .null),
    .context (.num (.int 0)),
    .bind .action "log" (.given 3 fun _ => .null),
    .bind .mutation "reset" (.given 4 fun _ => .num (.int 0)),
    .bind .guard "ready" (.given 5 fun _ => .bool true),
    .bind .mutation "count" (.given 6 fun arguments => .arr arguments),
    .bind .action "count" (.given 7 fun _ => .null)]

theorem machine_offers_bindings_tangledSteps :
    ∃ machine : Blueprint,
      (Compile.machine 0 Patcher.assign .reject [] [.options (ofSteps tangledSteps)]).result
        = .ok machine ∧
      OrderedMap.keys machine.options.guards = ["ready"] ∧
      (machine.options.guards.get? "ready").map Implementation.identity = some (.given 5) ∧
      OrderedMap.keys machine.options.actions = ["log", "count", "reset"] ∧
      ∃ action, machine.options.actions.get? "count" = some action ∧
        ∀ arguments, action.call arguments
          = .obj [("type", .str "assign"), ("patch", .arr arguments)] := by
  obtain ⟨hoffers, -⟩ := machine_offers_bindings 0 Patcher.assign .reject [] tangledSteps []
  have offers := hoffers _ rfl
  obtain ⟨mutator, action, hmutator, haction, hcall, -⟩ := offers.derived "count" (by decide)
  refine ⟨_, rfl, offers.guards.keys, ?_, offers.actionNames, action, haction, fun arguments => ?_⟩
  · rw [offers.guards.get?]
    rfl
  · cases hmutator
    exact hcall arguments

end Statechart
