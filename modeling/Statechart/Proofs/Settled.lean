/-
`Proofs/Settled.lean` -- what plain markup compiles to, as far as it is written and read.

The compiler takes out of the attributes of an element whatever it gives a field of its own: always
the id, the hooks, the event and the target, and the names of tables and blocks where there is one.
So nothing that is passed through is named like a field that is present, on any level. A machine
takes its states from its children or else from its raw members, and there it is reading that sees
to the same.
-/
import Statechart.Proofs.Distinct
import Statechart.Proofs.Lookup
import Statechart.Proofs.Rereading

set_option autoImplicit false

namespace Statechart

/-! ## 1. Settled fragments -/

/-- Nothing is left among the attributes of a transition that was taken from them. -/
structure Transition.Settled (transition : Transition) : Prop where
  tidy : transition.Tidy
  target : "target" ∉ transition.attributes.keys
  event : "event" ∉ transition.attributes.keys

namespace StateNode

/-- No attribute of the state is one that markup gives a state for its id or its hooks, and none of
its transitions has one for its event. -/
structure Stripped (node : StateNode) : Prop where
  id : "id" ∉ OrderedMap.keys node.attributes
  onEntry : "on-entry" ∉ OrderedMap.keys node.attributes
  onExit : "on-exit" ∉ OrderedMap.keys node.attributes
  events : ∀ table, node.on = some table → ∀ entry ∈ table, "event" ∉ entry.2.attributes.keys

/-- As states come from markup. -/
structure Settled (node : StateNode) : Prop where
  separate : node.Separate
  tidy : node.Tidy
  stripped : node.Stripped

end StateNode

/-- As fragments come from plain markup. -/
def Fragment.Settled : Fragment → Prop
  | .state node => node.Everywhere StateNode.Settled
  | .transition _ declared => declared.Settled
  | .invoke block => (Json.obj block).Distinct
  | .record members => (Json.obj members).Distinct
  | .options found => found.Distinct

/-! ## 2. Folds -/

namespace Siblings

/-- What a keyed fold holds it holds once under each key, and it was among the entries. -/
theorem distinct_mergeKeyed {α : Type} {skipped : Notice} {replaced : String → Notice}
    {entries : List (Option String × α)} {table : OrderedMap α}
    (h : (mergeKeyed skipped replaced entries).value = some table) :
    table.Distinct ∧ ∀ entry ∈ table, (some entry.1, entry.2) ∈ entries := by
  have htable : OrderedMap.ofBindings (keyed entries) = table := by
    rw [value_mergeKeyed] at h
    generalize OrderedMap.ofBindings (keyed entries) = found at h
    cases found with
    | nil => cases h
    | cons first rest => exact Option.some.inj h
  subst htable
  refine ⟨OrderedMap.distinct_ofBindings _, fun entry hentry => ?_⟩
  obtain ⟨⟨key?, value⟩, hmem, hkeyed⟩ :=
    List.mem_filterMap.mp (OrderedMap.mem_of_mem_ofBindings hentry)
  obtain ⟨key, hkey, rfl⟩ := Option.map_eq_some_iff.mp hkeyed
  cases hkey
  exact hmem

section Settled

variable {children : List Fragment} (h : ∀ child ∈ children, child.Settled)
include h

theorem settled_states : ∀ node ∈ states children, node.Everywhere StateNode.Settled := by
  intro node hnode
  obtain ⟨child, hchild, hstate⟩ := List.mem_filterMap.mp hnode
  have hsettled := h child hchild
  cases child with
  | state found =>
      cases hstate
      exact hsettled
  | transition | invoke | record | options => exact absurd hstate nofun

theorem settled_transitions : ∀ entry ∈ transitions children, entry.2.Settled := by
  intro entry hentry
  obtain ⟨child, hchild, htransition⟩ := List.mem_filterMap.mp hentry
  have hsettled := h child hchild
  cases child with
  | transition event declared =>
      cases htransition
      exact hsettled
  | state | invoke | record | options => exact absurd htransition nofun

theorem distinct_invokes : ∀ block ∈ invokes children, (Json.obj block).Distinct := by
  intro block hblock
  obtain ⟨child, hchild, hinvoke⟩ := List.mem_filterMap.mp hblock
  have hsettled := h child hchild
  cases child with
  | invoke found =>
      cases hinvoke
      exact hsettled
  | state | transition | record | options => exact absurd hinvoke nofun

theorem distinct_records : ∀ members ∈ records children, (Json.obj members).Distinct := by
  intro members hmembers
  obtain ⟨child, hchild, hrecord⟩ := List.mem_filterMap.mp hmembers
  have hsettled := h child hchild
  cases child with
  | record found =>
      cases hrecord
      exact hsettled
  | state | transition | invoke | options => exact absurd hrecord nofun

/-- The states that settled children fold to. -/
theorem settled_mergeStates : ∀ table, (mergeStates children).value = some table →
    table.Distinct ∧ ∀ entry ∈ table, entry.2.Everywhere StateNode.Settled := by
  intro table hfold
  obtain ⟨hdistinct, hmem⟩ := distinct_mergeKeyed hfold
  refine ⟨hdistinct, fun entry hentry => ?_⟩
  obtain ⟨node, hnode, heq⟩ := List.mem_map.mp (hmem entry hentry)
  rw [← (Prod.mk.inj heq).2]
  exact settled_states h node hnode

/-- The transitions that settled children fold to. -/
theorem settled_mergeTransitions : ∀ table, (mergeTransitions children).value = some table →
    table.Distinct ∧ ∀ entry ∈ table, entry.2.Settled := by
  intro table hfold
  obtain ⟨hdistinct, hmem⟩ := distinct_mergeKeyed hfold
  exact ⟨hdistinct, fun entry hentry => settled_transitions h _ (hmem entry hentry)⟩

end Settled

end Siblings

/-! ## 3. One element -/

namespace OrderedMap

/-- A dropped key is gone. -/
theorem not_mem_keys_without {α : Type} {table : OrderedMap α} {dropped : List String}
    {key : String} (h : key ∈ dropped) : key ∉ (table.without dropped).keys := by
  rw [← get?_eq_none_iff, get?_without, if_pos h]

end OrderedMap

namespace Compile

variable {attributes : Attributes} {children : List Fragment}

theorem settled_transition (hattributes : (Json.obj attributes).Distinct) :
    (transition attributes).2.Settled := by
  have htidy : (transition attributes).2.Tidy :=
    ⟨fun _ hvalue => hattributes.of_get? hvalue, hattributes.without _⟩
  exact ⟨htidy, OrderedMap.not_mem_keys_without (by simp),
    OrderedMap.not_mem_keys_without (by simp)⟩

/-- A name that stays among the attributes is that of no fold. -/
theorem eq_none_of_mem_keys {α : Type} {name : String} {value : Option α} {dropped : List String}
    (hdropped : folded name value ⊆ dropped)
    (h : name ∈ (attributes.without dropped).keys) : value = none := by
  cases value with
  | none => rfl
  | some a => exact absurd h (OrderedMap.not_mem_keys_without (hdropped List.mem_cons_self))

/-- A state of settled children is settled. -/
theorem settled_stateOf (hattributes : (Json.obj attributes).Distinct)
    (h : ∀ child ∈ children, child.Settled) :
    (stateOf attributes children).Everywhere StateNode.Settled := by
  have hon : ∀ table, (stateOf attributes children).on = some table →
      OrderedMap.Distinct table ∧ ∀ entry ∈ table, entry.2.Settled :=
    Siblings.settled_mergeTransitions h
  have hstates : ∀ table, (stateOf attributes children).states = some table →
      OrderedMap.Distinct table ∧ ∀ entry ∈ table, entry.2.Everywhere StateNode.Settled :=
    Siblings.settled_mergeStates h
  have hinvoke : ∀ block, (stateOf attributes children).invoke = some block →
      (Json.obj block).Distinct :=
    fun block hblock => Siblings.distinct_invokes h block (List.mem_of_mem_head? hblock)
  -- these names go whatever the children are; those of tables and blocks go with their folds
  have htaken : ∀ name ∈ stateAttributes,
      name ∉ OrderedMap.keys (stateOf attributes children).attributes := by
    intro name hname
    exact OrderedMap.not_mem_keys_without (by simp [hname])
  have hsettled : (stateOf attributes children).Settled := {
    separate := {
      entry := htaken "entry" (by simp [stateAttributes])
      exit := htaken "exit" (by simp [stateAttributes])
      on := eq_none_of_mem_keys (List.Subset.trans (List.subset_append_right _ _)
        (List.Subset.trans (List.subset_append_left _ _) (List.subset_append_left _ _)))
      invoke := eq_none_of_mem_keys
        (List.Subset.trans (List.subset_append_right _ _) (List.subset_append_left _ _))
      states := eq_none_of_mem_keys (List.subset_append_right _ _)
      targets := fun table htable entry hentry => ((hon table htable).2 entry hentry).target }
    tidy := {
      entry := distinct_hook? hattributes "entry" "on-entry"
      exit := distinct_hook? hattributes "exit" "on-exit"
      on := fun table htable => (hon table htable).1
      transitions := fun table htable entry hentry => ((hon table htable).2 entry hentry).tidy
      invoke := hinvoke
      states := fun table htable => (hstates table htable).1
      attributes := hattributes.without _ }
    stripped := {
      id := htaken "id" (by simp [stateAttributes])
      onEntry := htaken "on-entry" (by simp [stateAttributes])
      onExit := htaken "on-exit" (by simp [stateAttributes])
      events := fun table htable entry hentry => ((hon table htable).2 entry hentry).event } }
  refine StateNode.everywhere_iff.mpr ⟨hsettled, StateNode.everywhereIn_iff.mpr ?_⟩
  exact fun table htable => StateNode.everywhereAmong_iff.mpr (hstates table htable).2

/-- The options record that leads settled children repeats nothing. -/
theorem distinct_leading? (h : ∀ child ∈ children, child.Settled) :
    ((SplitChildren.leading? children).getD {}).Distinct := by
  cases hleading : SplitChildren.leading? children with
  | none => exact OptionsRecord.distinct_empty
  | some found =>
      obtain ⟨child, hchild, hoptions⟩ := Option.bind_eq_some_iff.mp hleading
      have hsettled := h child (List.mem_of_mem_head? hchild)
      cases child with
      | options record =>
          cases hoptions
          exact hsettled
      | state | transition | invoke | record => exact absurd hoptions nofun

section Machine

variable {folded : Option StateTable} (hfolded : ∀ table, folded = some table →
  table.Distinct ∧ ∀ entry ∈ table, entry.2.Everywhere StateNode.Settled)
include hfolded

/-- The table of a machine holds each id once, and every state in it is separate and tidy, whether
the table is folded from settled children or read. -/
theorem settled_machineStates? {raw : Attributes} {table : StateTable}
    (htable : machineStates? folded raw = some table) :
    table.Distinct ∧ StateNode.EverywhereAmong StateNode.Separate table ∧
      StateNode.EverywhereAmong StateNode.Tidy table := by
  rcases Option.or_eq_some_iff.mp htable with hchildren | ⟨-, hraw⟩
  -- states of children are settled by compiling, raw ones by reading
  · obtain ⟨hdistinct, hsettled⟩ := hfolded table hchildren
    have heverywhere := StateNode.everywhereAmong_iff.mpr hsettled
    exact ⟨hdistinct, heverywhere.imp fun _ hnode => hnode.separate,
      heverywhere.imp fun _ hnode => hnode.tidy⟩
  · obtain ⟨value, -, hread⟩ := Option.bind_eq_some_iff.mp hraw
    have heverywhere := StateNode.everywhereAmong_canonical_of_tableOfJson? hread
    exact ⟨StateNode.distinct_of_tableOfJson? hread, heverywhere.imp fun _ hnode => hnode.separate,
      heverywhere.imp fun _ hnode => hnode.tidy⟩

/-- The fields of the top level are taken out of the raw members. -/
theorem separate_assembleConfig (attributes : Attributes) (options : OptionsRecord) :
    (assembleConfig attributes options folded).Separate := by
  have htaken : ∀ name ∈ ["id", "context", "initial", "type"],
      name ∉ (assembleConfig attributes options folded).extra.keys :=
    fun name hname => OrderedMap.not_mem_keys_without (List.mem_append_left _ hname)
  have hnested : StateNode.EverywhereIn StateNode.Separate
      (assembleConfig attributes options folded).states :=
    StateNode.everywhereIn_iff.mpr fun _ htable => (settled_machineStates? hfolded htable).2.1
  exact {
    id := htaken "id" (by simp)
    context := htaken "context" (by simp)
    initial := htaken "initial" (by simp)
    type := htaken "type" (by simp)
    states := eq_none_of_mem_keys (List.subset_append_right _ _)
    nested := hnested }

/-- Where attributes and raw members repeat nothing, neither does the configuration. -/
theorem tidy_assembleConfig (hattributes : (Json.obj attributes).Distinct)
    {options : OptionsRecord} (hoptions : options.Distinct) :
    (assembleConfig attributes options folded).Tidy := by
  have hraw := distinct_rawMembers hattributes hoptions
  have hnested : StateNode.EverywhereIn StateNode.Tidy
      (assembleConfig attributes options folded).states :=
    StateNode.everywhereIn_iff.mpr fun _ htable => (settled_machineStates? hfolded htable).2.2
  exact {
    id := distinct_layered? hattributes hraw "id"
    context := distinct_context hattributes hoptions folded
    initial := distinct_layered? hattributes hraw "initial"
    type := distinct_layered? hattributes hraw "type"
    states := fun table htable => (settled_machineStates? hfolded htable).1
    nested := hnested
    extra := hraw.without _ }

end Machine

end Compile

/-! ## 4. Whole trees -/

namespace Compiler

variable {M : Type} {compiler : Compiler M}

/-- What an element with a built-in tag compiles to, if its children are settled. -/
theorem settled_of_compile {builtin : Builtin} {attributes : Attributes}
    (hattributes : (Json.obj attributes).Distinct) {children : List Fragment}
    (h : ∀ child ∈ children, child.Settled) {fragment : Fragment}
    (hcompile : (compiler.compile (.builtin builtin) attributes children).result
      = .ok (.fragment fragment)) : fragment.Settled := by
  cases builtin with
  | machine =>
      obtain ⟨-, houtput⟩ := result_compile_machine_eq_ok_iff.mp hcompile
      exact absurd houtput nofun
  | state =>
      obtain ⟨-, houtput⟩ := result_compile_state_eq_ok_iff.mp hcompile
      cases houtput
      exact Compile.settled_stateOf hattributes h
  | transition =>
      cases hcompile
      exact Compile.settled_transition hattributes
  | invoke =>
      cases hcompile
      exact Compile.distinct_invoke hattributes (Siblings.distinct_records h)
  | onDone =>
      cases hcompile
      exact Compile.distinct_outcome hattributes "onDone"
  | onError =>
      cases hcompile
      exact Compile.distinct_outcome hattributes "onError"

mutual
/-- In plain markup that repeats no member every element comes to a settled fragment. -/
theorem settled_of_evaluate : (element : Element M) → element.Plain → element.Distinct →
    {fragment : Fragment} → (compiler.evaluate element).result = .ok (.fragment fragment) →
      fragment.Settled
  | .node _ _ children, ⟨⟨builtin, hbuiltin⟩, hplain⟩, ⟨hattributes, hdistinct⟩, _, h => by
      subst hbuiltin
      obtain ⟨fragments, hyields, hcompile⟩ := result_evaluate_eq_ok_iff.mp h
      exact settled_of_compile hattributes (settled_of_yields children hplain hdistinct hyields)
        hcompile
/-- Child by child. -/
theorem settled_of_yields : (children : List (Child M)) → Child.AllPlain children →
    Child.AllDistinct children → {fragments : List Fragment} →
      List.Forall₂ compiler.Yields children fragments → ∀ child ∈ fragments, child.Settled
  | [], _, _, _, .nil => nofun
  | .element element :: rest, ⟨hplain, hrestPlain⟩, ⟨hdistinct, hrestDistinct⟩, _,
      .cons hfirst hrest => by
      intro child hchild
      rcases List.mem_cons.mp hchild with rfl | hmem
      · exact settled_of_evaluate element hplain hdistinct hfirst
      · exact settled_of_yields rest hrestPlain hrestDistinct hrest child hmem
  | .fragment found :: rest, ⟨hplain, hrestPlain⟩, ⟨hdistinct, hrestDistinct⟩, _,
      .cons hfirst hrest => by
      intro child hchild
      obtain ⟨record, rfl⟩ := hplain
      cases (hfirst : Fragment.options record = _)
      rcases List.mem_cons.mp hchild with rfl | hmem
      · exact hdistinct record rfl
      · exact settled_of_yields rest hrestPlain hrestDistinct hrest child hmem
end

end Compiler

section Machine

variable {compiler : Compiler Blueprint} {root : Element Blueprint} {machine : Blueprint}

/-- What plain markup builds is separate and tidy. -/
theorem Compiler.settled_of_build (blueprint : compiler.construct = Blueprint.mk)
    (plain : root.Plain) (distinct : root.Distinct)
    (built : (compiler.build root).result = .ok machine) :
    machine.config.Separate ∧ machine.config.Tidy := by
  obtain ⟨attributes, children, fragments, rfl, hplain, hyields, -, rfl⟩ := inv_of_build plain built
  obtain ⟨hattributes, hdistinct⟩ := distinct
  have hsettled := settled_of_yields children hplain hdistinct hyields
  rw [blueprint, Compile.machineOf, Siblings.mergeStates_withoutOptions]
  have hfolded := Siblings.settled_mergeStates hsettled
  exact ⟨Compile.separate_assembleConfig hfolded attributes _,
    Compile.tidy_assembleConfig hfolded hattributes (Compile.distinct_leading? hsettled)⟩

/-- Where states fill the machine's table, nothing that their markup is read for stays among their
attributes. -/
theorem Compiler.stripped_of_build (blueprint : compiler.construct = Blueprint.mk)
    (plain : root.Plain) (distinct : root.Distinct)
    (built : (compiler.build root).result = .ok machine)
    (keyed : ∃ state ∈ root.childrenOf .state, (state.key? "id").isSome) :
    StateNode.EverywhereIn StateNode.Stripped machine.config.states := by
  obtain ⟨attributes, children, fragments, rfl, hplain, hyields, -, rfl⟩ := inv_of_build plain built
  have hsettled := settled_of_yields children hplain distinct.2 hyields
  rw [blueprint, states_machineOf hplain hyields keyed]
  refine StateNode.everywhereIn_iff.mpr fun table htable => ?_
  have hentries := (Siblings.settled_mergeStates hsettled table htable).2
  exact (StateNode.everywhereAmong_iff.mpr hentries).imp fun _ hnode => hnode.stripped

end Machine

/-! ## 5. What a machine is written as -/

/-- **No key twice.** In the configuration that plain markup builds, whatever the policy, no member
that is passed through is named like a field that is written: not beside the fields of the top
level, and in no state or transition at any depth. So no member is repeated where the configuration
is written straight to text, and the text is that of its value. Where state children fill the table
of the machine, no state in it keeps the attributes that give an element its id and its hooks, and
no transition the one that gives it its event; where none of them has an id, the states, if there
are any, are raw ones and come from no element.

The tree itself is to repeat no member, as no tree does that is built step by step
(`Element.distinct_foldl_apply`). -/
theorem build_repeats_no_key (compiler : Compiler Blueprint)
    (blueprint : compiler.construct = Blueprint.mk) {root : Element Blueprint} (plain : root.Plain)
    (distinct : root.Distinct) {machine : Blueprint}
    (built : (compiler.build root).result = .ok machine) :
    machine.config.Separate ∧ machine.config.written.Distinct ∧
      machine.config.written.render = machine.config.toJson.render ∧
      (∀ depth, machine.config.written.indented depth = machine.config.toJson.indented depth) ∧
      ((∃ state ∈ root.childrenOf .state, (state.key? "id").isSome) →
        StateNode.EverywhereIn StateNode.Stripped machine.config.states) := by
  obtain ⟨hseparate, htidy⟩ := Compiler.settled_of_build blueprint plain distinct built
  have hvalue := htidy.toJson_eq_written hseparate
  refine ⟨hseparate, htidy.distinct_written hseparate, ?_, fun depth => ?_,
    Compiler.stripped_of_build blueprint plain distinct built⟩
  · rw [hvalue]
  · rw [hvalue]

/-- **Through JSON and back.** A configuration that plain markup builds is read back from its value
as it was, every table in its order, but for the ids of the states in it. It only has to be legible:
no field that is present may be `null`, which reads as absent, and nothing may be passed through
that would read as a table, a block or the states. -/
theorem build_survives_json (compiler : Compiler Blueprint)
    (blueprint : compiler.construct = Blueprint.mk) {root : Element Blueprint} (plain : root.Plain)
    (distinct : root.Distinct) {machine : Blueprint}
    (built : (compiler.build root).result = .ok machine) (legible : machine.config.Legible) :
    MachineConfig.ofJson? machine.config.toJson = some machine.config.unnamed := by
  obtain ⟨hseparate, htidy⟩ := Compiler.settled_of_build blueprint plain distinct built
  exact htidy.ofJson?_toJson hseparate legible

/-- A machine whose raw members name fields of the top level, a state with an attribute named like
the table that its transition makes, and below another state one with a hook and no more. -/
def layeredMarkup : Element Blueprint :=
  ((Element.machine "m" "idle").attr "config"
      (.obj [("id", .str "raw"), ("version", .num (.int 2)), ("states", .obj [])])).childElements
    [(((Element.state "idle").attr "on-entry" (.str "greet")).attr "on" (.obj [])).child
        ((Element.transition "GO" "busy").attr "cond" (.str "ready")),
      ((Element.state "busy").child
        ((Element.invoke "load").child (Element.onDone.attr "target" (.str "idle")))).child
        ((Element.state "late").attr "on-exit" (.str "leave"))]

theorem plain_layeredMarkup : layeredMarkup.Plain := by
  simp [layeredMarkup]

theorem distinct_layeredMarkup : layeredMarkup.Distinct := by
  simp [layeredMarkup]

theorem build_repeats_no_key_layeredMarkup :
    ∃ machine, (Compiler.blueprint.build layeredMarkup).result = .ok machine ∧
      machine.config.Separate ∧ machine.config.written.Distinct ∧
      StateNode.EverywhereIn StateNode.Stripped machine.config.states := by
  have hkeyed : ∃ state ∈ layeredMarkup.childrenOf .state, (state.key? "id").isSome :=
    ⟨_, .head _, rfl⟩
  obtain ⟨hseparate, hdistinct, -, -, hstripped⟩ := build_repeats_no_key Compiler.blueprint rfl
    plain_layeredMarkup distinct_layeredMarkup rfl
  exact ⟨_, rfl, hseparate, hdistinct, hstripped hkeyed⟩

theorem build_survives_json_layeredMarkup :
    ∃ machine, (Compiler.blueprint.build layeredMarkup).result = .ok machine ∧
      MachineConfig.ofJson? machine.config.toJson = some machine.config.unnamed := by
  refine ⟨_, rfl, build_survives_json Compiler.blueprint rfl plain_layeredMarkup
    distinct_layeredMarkup rfl ?_⟩
  exact {
    id := nofun
    initial := nofun
    type := nofun
    states := by decide
    -- the states one by one: `idle`, and then `busy` with `late` in it
    nested := ⟨
      ⟨⟨nofun, nofun, fun | _, rfl => by decide, by decide, by decide, by decide⟩, trivial⟩,
      ⟨⟨nofun, nofun, nofun, by decide, by decide, by decide⟩,
        ⟨⟨nofun, nofun, nofun, by decide, by decide, by decide⟩, trivial⟩, trivial⟩, trivial⟩ }

end Statechart
