/-
`Proofs/MemberOrder.lean` -- trees that differ only in the order of members, compiled side by side.

In which order an element's attributes are written, and the members of the records in them, is
cosmetic: nothing is looked up by its position. Two trees that differ in nothing else fail with the
same error or come to machines that are equal up to the order of members. The order of the states
and of the transitions is no such order, since these are elements and not members; where they come
from elements, the machines have them in the same order.

The one place where an order could be seen is a key that is made of the text of a value, so no id
and no event may be an object or contain one.
-/
import Statechart.Proofs.Distinct
import Statechart.Proofs.Lookup
import Statechart.Proofs.Parallel
import Statechart.Proofs.RearrangedStates
import Statechart.Proofs.Renewal
import Statechart.Proofs.Settled

set_option autoImplicit false

namespace Statechart

open Compilation (EndAlike Parallel cumulative_true)
open OrderedMap (Alike Rearranged)

/-! ## 1. Trees that differ only in the order of members -/

/-- Attributes that repeat no member and differ only in the order of members, at any depth. What an
element may be keyed by, its id or its event, is no object and contains none. -/
structure Attributes.Shuffled (left right : Attributes) : Prop where
  distinct : (Json.obj left).Distinct
  members : Rearranged List.Perm Json.Reordered left right
  keys : ∀ name ∈ ["id", "event"], ∀ value, left.get? name = some value → value.ObjectFree

/-- Options records that repeat no member and differ only in the order of members, in the context
and in the raw members of the configuration. -/
structure OptionsRecord.Shuffled (left right : OptionsRecord) : Prop where
  distinct : left.Distinct
  context : Option.Rel Json.Reordered left.context right.context
  config : Rearranged List.Perm Json.Reordered left.config right.config
  table : ∀ group, left.table group = right.table group

/-- Fragments that differ only in the order of members. Tables of states and of transitions have
their keys in the same order, and so have records. -/
inductive Fragment.Shuffled : Fragment → Fragment → Prop
  | state {node node' : StateNode} (reordered : node.Reordered Eq node') :
      Shuffled (.state node) (.state node')
  | transition {event event' : Option String} {declared declared' : Transition}
      (same : event = event') (reordered : declared.Reordered declared') :
      Shuffled (.transition event declared) (.transition event' declared')
  | invoke {block block' : Attributes} (reordered : Rearranged List.Perm Json.Reordered block block') :
      Shuffled (.invoke block) (.invoke block')
  | record {members members' : Attributes} (alike : Alike Json.Reordered members members') :
      Shuffled (.record members) (.record members')
  | options {record record' : OptionsRecord} (shuffled : record.Shuffled record') :
      Shuffled (.options record) (.options record')

/-- Trees with the same built-in tags that differ only in the order of members, at any depth in
attributes and in the fragments that are compiled already. -/
def Element.Shuffled {M N : Type} (element : Element M) (element' : Element N) : Prop :=
  element.Beside Attributes.Shuffled Fragment.Shuffled element'

/-- What an element is keyed by has no order to differ in. -/
theorem Attributes.Shuffled.get?_eq {left right : Attributes} (h : left.Shuffled right)
    {name : String} (hname : name ∈ ["id", "event"]) : left.get? name = right.get? name := by
  have hrel := h.members.values name
  generalize hleft : left.get? name = a?, right.get? name = b? at hrel ⊢
  cases hrel with
  | none => rfl
  | some hvalue => rw [hvalue.eq_of_objectFree (h.keys name hname _ hleft)]

mutual
/-- The first of two such trees repeats no member. -/
theorem Element.Shuffled.distinct {M N : Type} : {element : Element M} → {element' : Element N} →
    element.Beside Attributes.Shuffled Fragment.Shuffled element' → element.Distinct
  | _, _, .node _ related beside => ⟨related.distinct, Child.allDistinct_of_shuffled beside⟩
/-- Child by child. -/
theorem Child.allDistinct_of_shuffled {M N : Type} : {children : List (Child M)} →
    {children' : List (Child N)} →
      Child.AllBeside Attributes.Shuffled Fragment.Shuffled children children' →
        Child.AllDistinct children
  | _, _, .nil => trivial
  | _, _, .element beside others =>
      ⟨Element.Shuffled.distinct beside, Child.allDistinct_of_shuffled others⟩
  | _, _, .fragment related others => by
      refine ⟨fun record hrecord => ?_, Child.allDistinct_of_shuffled others⟩
      subst hrecord
      cases related with
      | options shuffled => exact shuffled.distinct
end

/-! ## 2. Siblings -/

namespace Siblings

section Views

variable {children children' : List Fragment}
  (h : List.Forall₂ Fragment.Shuffled children children')
include h

theorem states_shuffled :
    List.Forall₂ (StateNode.Reordered Eq) (states children) (states children') := by
  refine List.rel_filterMap (fun _ _ hchild => ?_) h
  cases hchild with
  | state reordered => exact .some reordered
  | transition | invoke | record | options => exact .none

theorem transitions_shuffled :
    List.Forall₂ (fun entry entry' => entry.1 = entry'.1 ∧ entry.2.Reordered entry'.2)
      (transitions children) (transitions children') := by
  refine List.rel_filterMap (fun _ _ hchild => ?_) h
  cases hchild with
  | transition same reordered => exact .some ⟨same, reordered⟩
  | state | invoke | record | options => exact .none

theorem invokes_shuffled :
    List.Forall₂ (Rearranged List.Perm Json.Reordered) (invokes children) (invokes children') := by
  refine List.rel_filterMap (fun _ _ hchild => ?_) h
  cases hchild with
  | invoke reordered => exact .some reordered
  | state | transition | record | options => exact .none

theorem records_shuffled :
    List.Forall₂ (Alike Json.Reordered) (records children) (records children') := by
  refine List.rel_filterMap (fun _ _ hchild => ?_) h
  cases hchild with
  | record alike => exact .some alike
  | state | transition | invoke | options => exact .none

theorem stateIds_shuffled : stateIds children = stateIds children' := by
  have hids := (states_shuffled h).imp fun _ _ hnode => hnode.id_eq
  rwa [← List.forall₂_map_right_iff, ← List.forall₂_map_left_iff, List.forall₂_eq_eq_eq] at hids

theorem events_shuffled : events children = events children' := by
  have hevents := (transitions_shuffled h).imp fun _ _ hentry => hentry.1
  rwa [← List.forall₂_map_right_iff, ← List.forall₂_map_left_iff, List.forall₂_eq_eq_eq] at hevents

/-- The checks of a state find the same. -/
theorem violations_stateChecks_shuffled :
    violations stateChecks children = violations stateChecks children' := by
  simp only [violations, stateChecks, uniqueStateIds, uniqueEvents, singleInvoke,
    List.flatMap_cons, List.flatMap_nil, stateIds_shuffled h, events_shuffled h,
    (invokes_shuffled h).length_eq]

/-- The check of a machine finds the same. -/
theorem violations_machineChecks_shuffled :
    violations machineChecks (SplitChildren.withoutOptions children)
      = violations machineChecks (SplitChildren.withoutOptions children') := by
  have hids := stateIds_shuffled h
  rw [stateIds, stateIds] at hids
  simp only [violations, machineChecks, uniqueStateIds, stateIds, states_withoutOptions,
    List.flatMap_cons, List.flatMap_nil, hids]

end Views

/-- Keyed folds of entries with the same keys and related values have the same keys in the same
order. -/
theorem rel_mergeKeyed {α β : Type} {rel : α → β → Prop} {entries : List (Option String × α)}
    {entries' : List (Option String × β)}
    (h : List.Forall₂ (fun entry entry' => entry.1 = entry'.1 ∧ rel entry.2 entry'.2)
      entries entries') (skipped : Notice) (replaced : String → Notice) :
    Option.Rel (Alike rel) (mergeKeyed skipped replaced entries).value
      (mergeKeyed skipped replaced entries').value := by
  have hkeyed : Alike rel (keyed entries) (keyed entries') := by
    refine List.rel_filterMap ?_ h
    rintro ⟨key, a⟩ ⟨_, b⟩ ⟨rfl, hab⟩
    cases key with
    | none => exact .none
    | some key => exact .some ⟨rfl, hab⟩
  have htable : Alike rel (OrderedMap.ofBindings (keyed entries))
      (OrderedMap.ofBindings (keyed entries')) :=
    Alike.extend .nil hkeyed
  rw [value_mergeKeyed, value_mergeKeyed]
  generalize OrderedMap.ofBindings (keyed entries) = table at htable ⊢
  generalize OrderedMap.ofBindings (keyed entries') = table' at htable ⊢
  cases htable with
  | nil => exact .none
  | cons hentry hrest => exact .some (.cons hentry hrest)

section Folds

variable {children children' : List Fragment}
  (h : List.Forall₂ Fragment.Shuffled children children')
include h

theorem mergeStates_shuffled :
    Option.Rel (Alike (StateNode.Reordered Eq)) (mergeStates children).value
      (mergeStates children').value := by
  refine rel_mergeKeyed ?_ _ _
  rw [List.forall₂_map_left_iff, List.forall₂_map_right_iff]
  exact (states_shuffled h).imp fun _ _ hnode => ⟨hnode.id_eq, hnode⟩

theorem mergeTransitions_shuffled :
    Option.Rel (Alike Transition.Reordered) (mergeTransitions children).value
      (mergeTransitions children').value :=
  rel_mergeKeyed (transitions_shuffled h) _ _

theorem firstInvoke?_shuffled :
    Option.Rel (Rearranged List.Perm Json.Reordered) (firstInvoke? children)
      (firstInvoke? children') := by
  have hinvokes := invokes_shuffled h
  rw [firstInvoke?, firstInvoke?]
  generalize invokes children = blocks at hinvokes ⊢
  generalize invokes children' = blocks' at hinvokes ⊢
  cases hinvokes with
  | nil => exact .none
  | cons hfirst _ => exact .some hfirst

theorem mergeRecords_shuffled :
    Alike Json.Reordered (mergeRecords children).value (mergeRecords children').value :=
  List.rel_foldl (fun _ _ hunited _ _ hrecord => hunited.extend hrecord) .nil (records_shuffled h)

/-- The options record that leads the children. -/
theorem leading?_shuffled :
    Option.Rel OptionsRecord.Shuffled (SplitChildren.leading? children)
      (SplitChildren.leading? children') := by
  cases h with
  | nil => exact .none
  | cons hchild _ =>
      cases hchild with
      | options shuffled => exact .some shuffled
      | state | transition | invoke | record => exact .none

end Folds

end Siblings

/-! ## 3. Elements below the machine -/

namespace Compile

variable {attributes attributes' : Attributes} (hattributes : attributes.Shuffled attributes')
  {children children' : List Fragment} (h : List.Forall₂ Fragment.Shuffled children children')

section Attributes

include hattributes

theorem stateId?_shuffled : stateId? attributes = stateId? attributes' := by
  rw [stateId?, stateId?, hattributes.get?_eq (by simp)]

theorem machineName_shuffled : machineName attributes = machineName attributes' := by
  rw [machineName, machineName, hattributes.get?_eq (by simp)]

/-- Members that are left behind are rearranged as they were. -/
theorem without_shuffled (dropped : List String) :
    Rearranged List.Perm Json.Reordered (attributes.without dropped)
      (attributes'.without dropped) :=
  hattributes.members.without (Json.distinct_obj_iff.mp hattributes.distinct).1 dropped

theorem transition_shuffled :
    (transition attributes).1 = (transition attributes').1 ∧
      (transition attributes).2.Reordered (transition attributes').2 := by
  refine ⟨?_, hattributes.members.values "target", without_shuffled hattributes _⟩
  show (attributes.get? "event").map Json.key = (attributes'.get? "event").map Json.key
  rw [hattributes.get?_eq (by simp)]

theorem outcome_shuffled (name : String) :
    Alike Json.Reordered (outcome name attributes) (outcome name attributes') :=
  .cons ⟨rfl, Json.reordered_obj_iff.mpr hattributes.members⟩ .nil

include h

theorem invoke_shuffled :
    Rearranged List.Perm Json.Reordered (invoke attributes children).value
      (invoke attributes' children').value := by
  have hdistinct : OrderedMap.Distinct (Siblings.mergeRecords children).value := by
    show OrderedMap.Distinct ((Siblings.records children).foldl OrderedMap.extend [])
    rw [OrderedMap.foldl_extend]
    exact OrderedMap.distinct_ofBindings _
  exact hattributes.members.extend (Json.distinct_obj_iff.mp hattributes.distinct).1
    (Siblings.mergeRecords_shuffled h).rearranged.perm hdistinct

/-- States keep the order of their transitions and of the states in them. -/
theorem stateOf_shuffled :
    (stateOf attributes children).Reordered Eq (stateOf attributes' children') := by
  have hon := Siblings.mergeTransitions_shuffled h
  have hinvoke := Siblings.firstInvoke?_shuffled h
  have hstates := Siblings.mergeStates_shuffled h
  have hhook : ∀ name markupName, Option.Rel Json.Reordered (hook? attributes name markupName)
      (hook? attributes' name markupName) := fun name markupName =>
    rel_or (hattributes.members.values name) (hattributes.members.values markupName)
  refine .of_parts (fun _ _ => .of_eq) (stateId?_shuffled hattributes) (hhook "entry" "on-entry")
    (hhook "exit" "on-exit") (rel_imp (fun _ _ htable => htable.rearranged) hon) hinvoke
    (rel_imp (fun _ _ htable => htable.rearranged) hstates) ?_
  -- the same names are taken away, since the same tables are there
  show Rearranged _ _ (attributes.without (stateAttributes ++ folded "on" _ ++ folded "invoke" _
    ++ folded "states" _)) (attributes'.without _)
  rw [folded, folded, folded, isSome_eq_of_rel hon, isSome_eq_of_rel hinvoke,
    isSome_eq_of_rel hstates]
  exact without_shuffled hattributes _

end Attributes

include hattributes h

theorem state_shuffled (policy : Policy) :
    EndAlike (StateNode.Reordered Eq) (state policy attributes children).result
      (state policy attributes' children').result := by
  rw [result_state, result_state, stateId?_shuffled hattributes,
    Siblings.enforce_congr (Siblings.violations_stateChecks_shuffled h)]
  exact EndAlike.map (fun _ => stateOf_shuffled hattributes h) _

end Compile

/-! ## 4. Machines -/

/-- Machines as compiled that are equal up to the order of members. Where the states of the first
come from elements, both have their states and the transitions of each state in the same order. -/
structure Blueprint.Reordered (fromElements : Prop) (left right : Blueprint) : Prop where
  config : left.config.Reordered List.Perm right.config
  ordered : fromElements → left.config.Reordered Eq right.config
  options : left.options.Again right.options

namespace Compile

variable {attributes attributes' : Attributes} (hattributes : attributes.Shuffled attributes')

section Config

variable {options options' : OptionsRecord} (hoptions : options.Shuffled options')
include hattributes hoptions

theorem rawMembers_shuffled :
    Rearranged List.Perm Json.Reordered (rawMembers attributes options)
      (rawMembers attributes' options') := by
  have hconfig : Rearranged List.Perm Json.Reordered (configMembers attributes)
      (configMembers attributes') := by
    refine rel_getD (rel_bind (hattributes.members.values "config") fun _ _ _ hvalue => ?_)
      (OrderedMap.distinct_nil.rearranged OrderedMap.distinct_nil fun _ => .none)
    exact hvalue.rel_members?
  exact hconfig.extend (Json.distinct_obj_iff.mp (distinct_configMembers hattributes.distinct)).1
    hoptions.config (Json.distinct_obj_iff.mp hoptions.distinct.2).1

/-- A configuration keeps of the order of its states what its tables of states keep of it. -/
theorem assembleConfig_shuffled {order : List String → List String → Prop}
    {folded folded' : Option StateTable}
    (hstates : Option.Rel (Rearranged order (StateNode.Reordered order))
      (machineStates? folded (rawMembers attributes options))
      (machineStates? folded' (rawMembers attributes' options'))) :
    (assembleConfig attributes options folded).Reordered order
      (assembleConfig attributes' options' folded') := by
  have hraw := rawMembers_shuffled hattributes hoptions
  have hdistinct := distinct_rawMembers hattributes.distinct hoptions.distinct
  have hlayered : ∀ field, Option.Rel Json.Reordered
      (layered? attributes (rawMembers attributes options) field)
      (layered? attributes' (rawMembers attributes' options') field) := fun field =>
    rel_or (hattributes.members.values field) (hraw.values field)
  refine ⟨hlayered "id", ?_, hlayered "initial", hlayered "type", hstates, ?_⟩
  · exact rel_getD (rel_or hoptions.context (hraw.values "context")) (.refl _)
  · show Rearranged _ _ ((rawMembers attributes options).without _)
      ((rawMembers attributes' options').without _)
    rw [isSome_eq_of_rel hstates]
    exact hraw.without (Json.distinct_obj_iff.mp hdistinct).1 _

/-- The states of a machine, wherever they come from. -/
theorem machineStates?_shuffled {folded folded' : Option StateTable}
    (hfolded : Option.Rel (Alike (StateNode.Reordered Eq)) folded folded') :
    Option.Rel (Rearranged List.Perm (StateNode.Reordered List.Perm))
      (machineStates? folded (rawMembers attributes options))
      (machineStates? folded' (rawMembers attributes' options')) := by
  have hraw := rawMembers_shuffled hattributes hoptions
  have hdistinct := distinct_rawMembers hattributes.distinct hoptions.distinct
  refine rel_or (rel_imp (fun _ _ htable => ?_) hfolded)
    (rel_bind (hraw.values "states") fun value value' hfound hvalue => ?_)
  · exact (htable.imp fun _ _ hnode => hnode.perm).rearranged.perm
  · exact (StateNode.rel_ofJson?_and_tableOfJson? value (hdistinct.of_get? hfound) value' hvalue).2

end Config

/-- The states of a machine that come from its children. -/
theorem machineStates?_of_isSome {folded folded' : Option StateTable}
    (hfolded : Option.Rel (Alike (StateNode.Reordered Eq)) folded folded') (hsome : folded.isSome)
    (raw raw' : Attributes) :
    Option.Rel (Rearranged Eq (StateNode.Reordered Eq)) (machineStates? folded raw)
      (machineStates? folded' raw') := by
  cases hfolded with
  | none => cases hsome
  | some htable => exact .some htable.rearranged

/-- The implementations are the same, but for which run derived them. -/
theorem assembleOptions_shuffled {options options' : OptionsRecord}
    (h : options.Shuffled options') (run run' : Nat) (patcher : Patcher) :
    (assembleOptions options
        (options.actions.extend (deriveActions run patcher options.mutations).value)).Again
      (assembleOptions options'
        (options'.actions.extend (deriveActions run' patcher options'.mutations).value)) := by
  have hactions : options.actions = options'.actions := h.table .action
  have hmutations : options.mutations = options'.mutations := h.table .mutation
  rw [hactions, hmutations]
  exact ⟨(assembleOptions_repatched run run' patcher patcher options').again.actions,
    h.table .guard, h.table .activity, h.table .delay, h.table .service⟩

variable {children children' : List Fragment}
  (h : List.Forall₂ Fragment.Shuffled children children')
include hattributes h

/-- What the children make of a machine. -/
theorem machineOf_shuffled (run run' : Nat) (patcher : Patcher) :
    (machineOf run patcher attributes children).Reordered
      ((Siblings.mergeStates children).value.isSome)
      (machineOf run' patcher attributes' children') := by
  have hoptions : ((SplitChildren.leading? children).getD {}).Shuffled
      ((SplitChildren.leading? children').getD {}) :=
    rel_getD (Siblings.leading?_shuffled h)
      ⟨OptionsRecord.distinct_empty, .none,
        OrderedMap.distinct_nil.rearranged OrderedMap.distinct_nil fun _ => .none, fun _ => rfl⟩
  have hfolded := Siblings.mergeStates_shuffled h
  rw [← Siblings.mergeStates_withoutOptions, ← Siblings.mergeStates_withoutOptions children']
    at hfolded
  refine ⟨?_, fun hsome => ?_, assembleOptions_shuffled hoptions run run' patcher⟩
  · exact assembleConfig_shuffled hattributes hoptions
      (machineStates?_shuffled hattributes hoptions hfolded)
  · rw [← Siblings.mergeStates_withoutOptions] at hsome
    exact assembleConfig_shuffled hattributes hoptions
      (machineStates?_of_isSome hfolded hsome _ _)

end Compile

/-! ## 5. Whole trees -/

namespace Compiler

variable {M N : Type}

/-- Compilers with the same settings compile an element alike, in whatever order its members are. -/
theorem compileBeside_shuffled (compiler : Compiler M) (other : Compiler N)
    (settings : compiler.settings = other.settings) :
    CompileBeside compiler other (fun _ _ => True) Attributes.Shuffled Fragment.Shuffled := by
  intro builtin attributes attributes' fragments fragments' hattributes h
  refine cumulative_true.bind (⟨.ok rfl, trivial⟩ : Parallel _ Eq _ _) fun _ _ _ _ _ => ?_
  cases builtin with
  | machine =>
      simp only [compileBuiltin, ← settings]
      refine cumulative_true.bind (⟨?_, trivial⟩ : Parallel _ (fun _ _ => True) _ _)
        fun _ _ _ _ _ => cumulative_true.pure (.machine _ _)
      rw [Compile.result_machine, Compile.result_machine, Compile.machineName_shuffled hattributes,
        Siblings.enforce_congr (Siblings.violations_machineChecks_shuffled h)]
      exact EndAlike.map (fun _ => trivial) _
  | state =>
      simp only [compileBuiltin, ← settings]
      refine cumulative_true.bind ⟨Compile.state_shuffled hattributes h _, trivial⟩
        fun _ _ _ _ hnode => cumulative_true.pure (.fragment (.state hnode))
  | transition =>
      obtain ⟨hevent, hdeclared⟩ := Compile.transition_shuffled hattributes
      exact cumulative_true.pure (Output.Beside.fragment (.transition hevent hdeclared))
  | invoke =>
      refine cumulative_true.bind
        (⟨.ok (Compile.invoke_shuffled hattributes h), trivial⟩ : Parallel _ (Rearranged _ _) _ _)
        fun _ _ _ _ hblock => cumulative_true.pure (.fragment (.invoke hblock))
  | onDone | onError =>
      exact cumulative_true.pure (.fragment (.record (Compile.outcome_shuffled hattributes _)))

end Compiler

/-- **The order of members is cosmetic.** Take two plain trees that differ only in the order of
members at any depth, in the attributes of elements and in what options records bring to the
configuration, and in which no object is part of an id or an event. Under every policy both fail with
the same error, or both come to machines with the same implementations, derived again in each run,
and with configurations that are equal up to the order of members. Where a state child with an id
fills the table of states, these have the same order of states and of transitions. -/
theorem build_ignores_member_order (compiler : Compiler Blueprint)
    (blueprint : compiler.construct = Blueprint.mk) {root root' : Element Blueprint}
    (plain : root.Plain) (shuffled : root.Shuffled root') (run : Nat) :
    EndAlike (fun left right =>
        left.Reordered (∃ state ∈ root.childrenOf .state, (state.key? "id").isSome) right ∧
          left.config.same right.config = true)
      (compiler.build root).result ((compiler.inRun run).build root').result := by
  have hparallel : Parallel (fun _ _ => True) (Constructed compiler (compiler.inRun run)
      (Blueprint.Reordered (∃ state ∈ root.childrenOf .state, (state.key? "id").isSome)))
      (compiler.build root) ((compiler.inRun run).build root') := by
    refine (compiler.compileBeside_shuffled (compiler.inRun run) rfl).build cumulative_true
      shuffled ?_
    rintro attributes attributes' children children' fragments fragments' rfl rfl hattributes
      hyields - h
    have hmachine := Compile.machineOf_shuffled hattributes h compiler.run run compiler.patcher
    refine ⟨hmachine.config, fun keyed => hmachine.ordered ?_, hmachine.options⟩
    exact Compiler.isSome_mergeStates plain.2 hyields keyed
  have hinRun : (compiler.inRun run).construct = Blueprint.mk := blueprint
  refine hparallel.result.imp ?_
  rintro _ _ built - ⟨left, right, hrel, rfl, rfl⟩
  obtain ⟨-, htidy⟩ := Compiler.settled_of_build blueprint plain (Element.Shuffled.distinct shuffled)
    built
  rw [blueprint] at htidy ⊢
  rw [hinRun]
  exact ⟨hrel, hrel.config.same htidy⟩

/-- A machine with two states, in which each record has its members as they are arranged. -/
def arrangedMarkup (arrange : Attributes → Attributes) : Element Blueprint :=
  .node (.builtin .machine) (arrange [("id", .str "m"), ("initial", .str "a")])
    [.fragment (.options
        { context := some (.obj (arrange [("count", .num (.int 0)), ("name", .null)]))
          mutations := [("bump", .given 0 fun _ => .obj [])]
          config := arrange [("version", .num (.int 1)), ("strict", .bool true)] }),
      .element (.node (.builtin .state)
        (arrange [("id", .str "a"),
          ("meta", .obj (arrange [("x", .num (.int 1)), ("y", .num (.int 2))]))])
        [.element (.node (.builtin .transition)
          (arrange [("event", .str "GO"), ("target", .str "b")]) [])]),
      .element (.node (.builtin .state) (arrange [("id", .str "b"), ("type", .str "final")]) [])]

/-- Records that are turned around, at every depth if the values are, are shuffled. -/
theorem Attributes.shuffled_reverse {members members' : Attributes}
    (distinct : (Json.obj members).Distinct) (alike : Alike Json.Reordered members members')
    (free : ∀ entry ∈ members, entry.1 ∈ ["id", "event"] → entry.2.ObjectFree) :
    members.Shuffled members'.reverse :=
  ⟨distinct, alike.rearranged_reverse (Json.distinct_obj_iff.mp distinct).1,
    fun name hname value hvalue => free (name, value) (OrderedMap.mem_of_get? hvalue) hname⟩

theorem shuffled_arrangedMarkup : (arrangedMarkup id).Shuffled (arrangedMarkup List.reverse) := by
  have hrefl : ∀ members : Attributes, Alike Json.Reordered members members := Alike.refl .refl
  have hreverse : ∀ {members : Attributes}, (Json.obj members).Distinct →
      Rearranged List.Perm Json.Reordered members members.reverse := fun hdistinct =>
    (hrefl _).rearranged_reverse (Json.distinct_obj_iff.mp hdistinct).1
  have hcontext : (Json.obj [("count", .num (.int 0)), ("name", .null)]).Distinct := by
    simp
  have hconfig : (Json.obj [("version", .num (.int 1)), ("strict", .bool true)]).Distinct := by
    simp
  have hmeta : (Json.obj [("x", .num (.int 1)), ("y", .num (.int 2))]).Distinct := by
    simp
  refine .node .machine (Attributes.shuffled_reverse ?_ (hrefl _) ?_)
    (.fragment (.options ⟨⟨?_, hconfig⟩, .some (Json.reordered_obj_iff.mpr (hreverse hcontext)),
        hreverse hconfig, fun _ => rfl⟩)
      (.element (.node .state (Attributes.shuffled_reverse ?_
          (.cons ⟨rfl, .refl _⟩
            (.cons ⟨rfl, Json.reordered_obj_iff.mpr (hreverse hmeta)⟩ .nil)) ?_)
        (.element (.node .transition (Attributes.shuffled_reverse ?_ (hrefl _) ?_) .nil) .nil))
      (.element (.node .state (Attributes.shuffled_reverse ?_ (hrefl _) ?_) .nil) .nil)))
  -- what is left is that no record repeats a member, and that the ids and the event are strings
  all_goals
    simp [Json.ObjectFree]

theorem build_ignores_member_order_arrangedMarkup :
    ∃ left right, (Compiler.blueprint.build (arrangedMarkup id)).result = .ok left ∧
      ((Compiler.blueprint.inRun 1).build (arrangedMarkup List.reverse)).result = .ok right ∧
      left.config.Reordered Eq right.config ∧ left.config.same right.config = true ∧
      left.options.Again right.options := by
  have hplain : (arrangedMarkup id).Plain := by
    simp [arrangedMarkup, Element.Plain, Child.AllPlain]
  have hkeyed : ∃ state ∈ (arrangedMarkup id).childrenOf .state, (state.key? "id").isSome :=
    ⟨_, .head _, rfl⟩
  obtain ⟨hrel, hsame⟩ := (build_ignores_member_order Compiler.blueprint rfl hplain
    shuffled_arrangedMarkup 1).related rfl rfl
  exact ⟨_, _, rfl, rfl, hrel.ordered hkeyed, hsame, hrel.options⟩

end Statechart
