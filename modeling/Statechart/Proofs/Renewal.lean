/-
`Proofs/Renewal.lean` -- compiling the same tree in another run.

The only thing that a compilation makes anew is the actions that it derives for mutators. Two runs
of one compiler over one tree therefore give the same notices and end alike, and what they come to
is the same up to which run those actions were derived in. Such a derived action does what the other
does.
-/
import Statechart.Proofs.Folds
import Statechart.Proofs.Success

set_option autoImplicit false

namespace Statechart

/-! ## 1. The same implementation, or derived again -/

/-- The same implementation, or the same derivation in another run. -/
inductive Implementation.Again : Implementation → Implementation → Prop
  | refl (implementation : Implementation) : Again implementation implementation
  | derived (run run' : Nat) (action : String) (mutator : Implementation) (patcher : Patcher) :
      Again (.derived run action mutator patcher) (.derived run' action mutator patcher)

/-- The same implementation, or one that is derived for the same mutator under the same name, but
hands its patch to another patcher. -/
inductive Implementation.Repatched (patcher patcher' : Patcher) :
    Implementation → Implementation → Prop
  | refl (implementation : Implementation) : Repatched patcher patcher' implementation implementation
  | derived (run run' : Nat) (action : String) (mutator : Implementation) :
      Repatched patcher patcher' (.derived run action mutator patcher)
        (.derived run' action mutator patcher')

/-- With one patcher that is the same derivation in another run. -/
theorem Implementation.Repatched.again {patcher : Patcher} {a b : Implementation}
    (h : a.Repatched patcher patcher b) : a.Again b := by
  cases h with
  | refl => exact .refl a
  | derived run run' action mutator => exact .derived run run' action mutator patcher

/-- What is derived again does the same. -/
theorem Implementation.Again.call_eq {a b : Implementation} (h : a.Again b)
    (arguments : List Json) : a.call arguments = b.call arguments := by
  cases h with
  | refl => rfl
  | derived => rfl

/-- The implementations of a machine, as another run of the same compiler gives them. -/
structure MachineOptions.Again (left right : MachineOptions) : Prop where
  actions : OrderedMap.Alike Implementation.Again left.actions right.actions
  guards : left.guards = right.guards
  activities : left.activities = right.activities
  delays : left.delays = right.delays
  services : left.services = right.services

/-- The implementations of a machine, as another run with another patcher gives them. -/
structure MachineOptions.Repatched (patcher patcher' : Patcher) (left right : MachineOptions) :
    Prop where
  actions : OrderedMap.Alike (Implementation.Repatched patcher patcher') left.actions right.actions
  guards : left.guards = right.guards
  activities : left.activities = right.activities
  delays : left.delays = right.delays
  services : left.services = right.services

theorem MachineOptions.Repatched.again {patcher : Patcher} {left right : MachineOptions}
    (h : left.Repatched patcher patcher right) : left.Again right :=
  ⟨h.actions.imp fun _ _ => Implementation.Repatched.again, h.guards, h.activities, h.delays,
    h.services⟩

/-- The machine as another run of the same compiler gives it. -/
structure Blueprint.Again (left right : Blueprint) : Prop where
  config : left.config = right.config
  options : left.options.Again right.options

/-- The machines that a constructor makes of one configuration and of implementations that are the
same or derived again; a machine that no constructor was asked for stays as it is. -/
inductive MachineAgain {M : Type} (construct : MachineConfig → MachineOptions → M) :
    M → M → Prop
  | refl (machine : M) : MachineAgain construct machine machine
  | constructed (config : MachineConfig) {left right : MachineOptions} (again : left.Again right) :
      MachineAgain construct (construct config left) (construct config right)

/-- The same fragment, or the machine as another run gives it. -/
inductive OutputAgain {M : Type} (construct : MachineConfig → MachineOptions → M) :
    Output M → Output M → Prop
  | fragment (fragment : Fragment) : OutputAgain construct (.fragment fragment) (.fragment fragment)
  | machine {left right : M} (again : MachineAgain construct left right) :
      OutputAgain construct (.machine left) (.machine right)

theorem OutputAgain.refl {M : Type} (construct : MachineConfig → MachineOptions → M)
    (output : Output M) : OutputAgain construct output output := by
  cases output with
  | fragment fragment => exact .fragment fragment
  | machine machine => exact .machine (.refl machine)

/-! ## 2. Related implementations -/

open Compilation (Alike)

/-- Two options records with the same context, the same raw members, and related implementations
under the same names. -/
structure OptionsRecord.Beside (rel : Implementation → Implementation → Prop)
    (left right : OptionsRecord) : Prop where
  context : left.context = right.context
  config : left.config = right.config
  table : ∀ group, OrderedMap.Alike rel (left.table group) (right.table group)

theorem OptionsRecord.Beside.refl (options : OptionsRecord) : options.Beside Eq options :=
  ⟨rfl, rfl, fun _ => .refl (fun _ => rfl) _⟩

/-- The implementations of two machines, with actions that are related in a way of their own. -/
structure MachineOptions.Beside (rel actionRel : Implementation → Implementation → Prop)
    (left right : MachineOptions) : Prop where
  actions : OrderedMap.Alike actionRel left.actions right.actions
  guards : OrderedMap.Alike rel left.guards right.guards
  activities : OrderedMap.Alike rel left.activities right.activities
  delays : OrderedMap.Alike rel left.delays right.delays
  services : OrderedMap.Alike rel left.services right.services

/-- Where only equal implementations are related, they are the same. -/
theorem MachineOptions.Beside.eq {left right : MachineOptions} (h : left.Beside Eq Eq right) :
    left = right := by
  obtain ⟨actions, guards, activities, delays, services⟩ := left
  obtain ⟨actions', guards', activities', delays', services'⟩ := right
  obtain ⟨hactions, hguards, hactivities, hdelays, hservices⟩ := h
  obtain rfl : actions = actions' := hactions.eq
  obtain rfl : guards = guards' := hguards.eq
  obtain rfl : activities = activities' := hactivities.eq
  obtain rfl : delays = delays' := hdelays.eq
  obtain rfl : services = services' := hservices.eq
  rfl

/-- Related implementations serve as related actions, and from related mutators related actions are
derived. -/
structure Derives (rel actionRel : Implementation → Implementation → Prop) (run run' : Nat)
    (patcher patcher' : Patcher) : Prop where
  plain : ∀ action action', rel action action' → actionRel action action'
  derived : ∀ name mutator mutator', rel mutator mutator' →
    actionRel (.derived run name mutator patcher) (.derived run' name mutator' patcher')

theorem derives_refl (run : Nat) (patcher : Patcher) : Derives Eq Eq run run patcher patcher where
  plain := fun _ _ h => h
  derived := fun name _ _ h => congrArg (Implementation.derived run name · patcher) h

theorem derives_repatched (run run' : Nat) (patcher patcher' : Patcher) :
    Derives Eq (Implementation.Repatched patcher patcher') run run' patcher patcher' where
  plain := fun action _ h => h ▸ .refl action
  derived := fun name mutator _ h => h ▸ .derived run run' name mutator

/-- A step that always succeeds, next to another that says the same. -/
theorem alike_lift {α β : Type} {rel : α → β → Prop} {step : Logged α} {step' : Logged β}
    (hvalue : rel step.value step'.value) (hlog : step.log = step'.log) :
    Alike rel (ExceptT.lift step) (ExceptT.lift step') :=
  ⟨.ok hvalue, by rw [Compilation.log_lift, Compilation.log_lift, hlog]⟩

/-- A derived action is found under the name of its mutator. -/
theorem get?_reverse_deriveActions (run : Nat) (patcher : Patcher) (mutations : Implementations)
    (name : String) :
    OrderedMap.get? (deriveActions run patcher mutations).value.reverse name
      = (OrderedMap.get? mutations.reverse name).map fun mutator =>
          .derived run name mutator patcher := by
  rw [deriveActions, ← List.map_reverse]
  exact OrderedMap.get?_map_by_key
    (fun name mutator => Implementation.derived run name mutator patcher) mutations.reverse name

/-- Actions are derived under the names of their mutators. -/
theorem keys_deriveActions (run : Nat) (patcher : Patcher) (mutations : Implementations) :
    (deriveActions run patcher mutations).value.keys = mutations.keys := by
  rw [deriveActions, OrderedMap.keys, List.map_map]
  rfl

/-- A name stands for the action derived for its mutator, and else for the plain action. -/
theorem get?_extend_deriveActions (run : Nat) (patcher : Patcher) (actions : Implementations)
    {mutations : Implementations} (h : mutations.Distinct) (name : String) :
    (actions.extend (deriveActions run patcher mutations).value).get? name
      = ((mutations.get? name).map fun mutator => .derived run name mutator patcher).or
          (actions.get? name) := by
  rw [OrderedMap.get?_extend, get?_reverse_deriveActions, h.get?_reverse]

section Beside

variable {rel actionRel : Implementation → Implementation → Prop} {run run' : Nat}
  {patcher patcher' : Patcher} (derives : Derives rel actionRel run run' patcher patcher')
include derives

/-- Deriving for related mutators. -/
theorem deriveActions_beside {mutations mutations' : Implementations}
    (h : OrderedMap.Alike rel mutations mutations') :
    OrderedMap.Alike actionRel (deriveActions run patcher mutations).value
      (deriveActions run' patcher' mutations').value := by
  rw [OrderedMap.Alike, deriveActions, deriveActions, List.forall₂_map_left_iff,
    List.forall₂_map_right_iff]
  refine List.Forall₂.imp (fun entry entry' hentry => ?_) h
  obtain ⟨name, mutator⟩ := entry
  obtain ⟨name', mutator'⟩ := entry'
  obtain ⟨rfl, hmutator⟩ : name = name' ∧ rel mutator mutator' := hentry
  exact ⟨rfl, derives.derived name mutator mutator' hmutator⟩

/-- The actions that related records come to. -/
theorem actions_beside {options options' : OptionsRecord} (h : options.Beside rel options') :
    OrderedMap.Alike actionRel
      (options.actions.extend (deriveActions run patcher options.mutations).value)
      (options'.actions.extend (deriveActions run' patcher' options'.mutations).value) := by
  have hplain := (h.table .action).imp derives.plain
  exact hplain.extend (deriveActions_beside derives (h.table .mutation))

namespace Compile

/-- Two machines of the same attributes and states, whose children are led by related options
records. -/
theorem machine_beside (policy : Policy) (attributes : Attributes)
    {children children' : List Fragment}
    (hstates : Siblings.states children = Siblings.states children')
    (hmisplaced : (splitOptions children).log = (splitOptions children').log)
    (hleading : ((SplitChildren.leading? children).getD {}).Beside rel
      ((SplitChildren.leading? children').getD {})) :
    Alike (fun left right : Blueprint =>
        left.config = right.config ∧ left.options.Beside rel actionRel right.options)
      (machine run patcher policy attributes children)
      (machine run' patcher' policy attributes children') := by
  have same : ∀ {α : Type} (step : Compilation α), Alike Eq step step := fun step =>
    Alike.refl (fun _ => rfl) step
  have hsplit : Alike (fun split split' : SplitChildren =>
      (split.options.getD {}).Beside rel (split'.options.getD {}) ∧
        Siblings.states split.rest = Siblings.states split'.rest)
      (ExceptT.lift (splitOptions children)) (ExceptT.lift (splitOptions children')) := by
    refine alike_lift ⟨hleading, ?_⟩ hmisplaced
    show Siblings.states (SplitChildren.withoutOptions children)
      = Siblings.states (SplitChildren.withoutOptions children')
    rw [Siblings.states_withoutOptions, Siblings.states_withoutOptions, hstates]
  refine hsplit.bind fun split split' ⟨hoptions, hothers⟩ => ?_
  obtain ⟨options?, rest⟩ := split
  obtain ⟨options?', rest'⟩ := split'
  have hviolations : Siblings.violations Siblings.machineChecks rest
      = Siblings.violations Siblings.machineChecks rest' :=
    Siblings.violations_machineChecks_congr hothers
  have hfold : Siblings.mergeStates rest = Siblings.mergeStates rest' :=
    Siblings.mergeStates_congr hothers
  dsimp only
  rw [Siblings.enforce_congr hviolations, hfold]
  refine (same _).bind fun _ _ _ => ?_
  refine (same _).bind fun _ _ _ => ?_
  refine (same _).bind fun folded _ hfolded => ?_
  subst hfolded
  refine (same _).bind fun _ _ _ => ?_
  -- up to here both runs took the same steps; from here on they differ in the implementations
  have hderived := deriveActions_beside derives (hoptions.table .mutation)
  refine (alike_lift hderived ?_).bind fun derived derived' hd => ?_
  · exact congrArg (List.map Notice.derivingAction) (hoptions.table .mutation).keys_eq
  have hplain := hoptions.table .action
  refine (alike_lift ((hplain.imp derives.plain).extend hd) ?_).bind fun actions actions' ha => ?_
  · have hcontains : ∀ name, OrderedMap.contains (options?.getD {}).actions name
        = OrderedMap.contains (options?'.getD {}).actions name := fun name =>
      isSome_eq_of_rel (hplain.get? name)
    show (derived.keys.filter _).map _ = (derived'.keys.filter _).map _
    rw [hd.keys_eq]
    exact congrArg _ (List.filter_congr fun name _ => hcontains name)
  · have hconfig : assembleConfig attributes (options?.getD {}) folded
        = assembleConfig attributes (options?'.getD {}) folded := by
      rw [assembleConfig, assembleConfig, rawMembers, rawMembers, hoptions.context, hoptions.config]
    rw [ha.length_eq, hconfig]
    refine (same _).bind fun _ _ _ => ?_
    exact ⟨.ok ⟨rfl, ⟨ha, hoptions.table .guard, hoptions.table .activity, hoptions.table .delay,
      hoptions.table .service⟩⟩, rfl⟩

end Compile

end Beside

/-! ## 3. Another run of the compiler -/

/-- The implementations of a machine in another run, with another patcher. -/
theorem assembleOptions_repatched (run run' : Nat) (patcher patcher' : Patcher)
    (options : OptionsRecord) :
    (Compile.assembleOptions options
        (options.actions.extend (deriveActions run patcher options.mutations).value)).Repatched
      patcher patcher' (Compile.assembleOptions options
        (options.actions.extend (deriveActions run' patcher' options.mutations).value)) :=
  ⟨actions_beside (derives_repatched run run' patcher patcher') (.refl options), rfl, rfl, rfl, rfl⟩

/-- Where only actions differ, and these in who derived them, implementations are repatched. -/
theorem MachineOptions.Beside.repatched {patcher patcher' : Patcher} {left right : MachineOptions}
    (h : left.Beside Eq (Implementation.Repatched patcher patcher') right) :
    left.Repatched patcher patcher' right :=
  ⟨h.actions, h.guards.eq, h.activities.eq, h.delays.eq, h.services.eq⟩

namespace Compile

/-- Assembling a machine in another run, with another patcher. -/
theorem machine_repatched (run run' : Nat) (patcher patcher' : Patcher) (policy : Policy)
    (attributes : Attributes) (children : List Fragment) :
    Alike (fun left right : Blueprint =>
        left.config = right.config ∧ left.options.Repatched patcher patcher' right.options)
      (machine run patcher policy attributes children)
      (machine run' patcher' policy attributes children) :=
  (machine_beside (derives_repatched run run' patcher patcher') policy attributes rfl rfl
    (.refl _)).imp fun _ _ h => ⟨h.1, h.2.repatched⟩

/-- Assembling a machine in another run. -/
theorem machine_again (run run' : Nat) (patcher : Patcher) (policy : Policy)
    (attributes : Attributes) (children : List Fragment) :
    Alike Blueprint.Again (machine run patcher policy attributes children)
      (machine run' patcher policy attributes children) :=
  (machine_repatched run run' patcher patcher policy attributes children).imp
    fun _ _ h => ⟨h.1, h.2.again⟩

end Compile

namespace Compiler

variable {M : Type}

/-- The compiler in another run. -/
def inRun (compiler : Compiler M) (run : Nat) : Compiler M := { compiler with run }

variable (compiler : Compiler M) (run : Nat)

theorem compileBuiltin_again (attributes : Attributes) (children : List Fragment)
    (builtin : Builtin) :
    Alike (OutputAgain compiler.construct) (compiler.compileBuiltin attributes children builtin)
      ((compiler.inRun run).compileBuiltin attributes children builtin) := by
  cases builtin with
  | machine =>
      refine Alike.bind (Compile.machine_again ..) fun left right h => ?_
      obtain ⟨config, options⟩ := left
      obtain ⟨config', options'⟩ := right
      obtain ⟨rfl, hoptions⟩ : config = config' ∧ options.Again options' := ⟨h.config, h.options⟩
      exact ⟨.ok (.machine (.constructed config hoptions)), rfl⟩
  -- only a machine derives anything
  | state | transition | invoke | onDone | onError => exact Alike.refl (.refl _) _

theorem compile_again (tag : Tag M) (attributes : Attributes) (children : List Fragment) :
    Alike (OutputAgain compiler.construct) (compiler.compile tag attributes children)
      ((compiler.inRun run).compile tag attributes children) := by
  refine Alike.bind (Alike.refl (fun _ => rfl) _) fun _ _ (_ : () = ()) => ?_
  cases tag with
  | builtin builtin => exact compiler.compileBuiltin_again run attributes children builtin
  | custom component => exact Alike.refl (.refl _) _

mutual
/-- Compiling a tree in another run. -/
theorem evaluate_again : (element : Element M) →
    Alike (OutputAgain compiler.construct) (compiler.evaluate element)
      ((compiler.inRun run).evaluate element)
  | .node tag attributes children =>
      Alike.bind (evaluateChildren_again tag.name children) fun fragments _ h => by
        subst h
        exact compiler.compile_again run tag attributes fragments
/-- Fragments do not tell one run from another. -/
theorem evaluateChildren_again (parent : String) : (children : List (Child M)) →
    Alike Eq (compiler.evaluateChildren parent children)
      ((compiler.inRun run).evaluateChildren parent children)
  | [] => Alike.refl (fun _ => rfl) _
  | .fragment fragment :: rest =>
      Alike.bind (evaluateChildren_again parent rest) fun fragments _ h => by
        subst h
        exact Alike.refl (fun _ => rfl) _
  | .element element :: rest =>
      Alike.bind (evaluate_again element) fun output output' h => by
        cases h with
        | fragment fragment =>
            refine Alike.bind (evaluateChildren_again parent rest) fun fragments _ h => ?_
            subst h
            exact Alike.refl (fun _ => rfl) _
        | machine again => exact ⟨.error _, rfl⟩
end

/-- Building a machine in another run. -/
theorem build_again (root : Element M) :
    Alike (MachineAgain compiler.construct) (compiler.build root)
      ((compiler.inRun run).build root) := by
  refine Alike.bind (compiler.evaluate_again run root) fun output output' h => ?_
  cases h with
  | fragment fragment => exact ⟨.error _, rfl⟩
  | machine again => exact ⟨.ok again, rfl⟩

end Compiler

end Statechart
