/-
`Proofs/Written.lean` -- transitions, states and configurations that can be written and read back.

What is written repeats a member only where something passed through is named like a field that is
present, or where something repeats one inside. What is written is read back as it was, but for the
ids of states, unless a field is present as `null`, which reads as absent, or something passed
through is named like a field, as which it reads.
-/
import Statechart.Machine.Written
import Statechart.Proofs.Everywhere
import Statechart.Proofs.Flattened

set_option autoImplicit false

namespace Statechart

/-! ## 1. Transitions -/

namespace Transition

/-- Nothing in the transition repeats a member. -/
structure Tidy (transition : Transition) : Prop where
  target : ∀ value, transition.target = some value → value.Distinct
  attributes : (Json.obj transition.attributes).Distinct

/-- The fields of a transition with their values. -/
def fieldValues (transition : Transition) : OrderedMap (Option Json) :=
  [("target", transition.target)]

theorem keys_fieldValues (transition : Transition) : transition.fieldValues.keys = fields := rfl

theorem distinct_fieldValues (transition : Transition) : transition.fieldValues.Distinct :=
  List.nodup_singleton "target"

theorem written_eq (transition : Transition) :
    transition.written = .obj (flattened transition.fieldValues transition.attributes) := by
  rw [written, flattened, fieldValues, List.flatMap_cons, List.flatMap_nil, List.append_nil]

/-- A transition whose attributes do not name its target is written without repetition. -/
theorem Tidy.distinct_written {transition : Transition} (h : transition.Tidy)
    (apart : "target" ∉ transition.attributes.keys) : transition.written.Distinct := by
  have hfield : ∀ name value, (name, some value) ∈ transition.fieldValues →
      name = "target" ∧ transition.target = some value := by
    intro name value hmem
    obtain ⟨rfl, hvalue⟩ := Prod.mk.inj (List.mem_singleton.mp hmem)
    exact ⟨rfl, hvalue.symm⟩
  rw [written_eq]
  refine distinct_obj_flattened transition.distinct_fieldValues h.attributes ?_ ?_
  · intro name value hmem
    rw [(hfield name value hmem).1]
    exact apart
  · intro name value hmem
    exact h.target value (hfield name value hmem).2

/-- Such a transition is read back, if its target is not `null`. -/
theorem Tidy.ofJson?_written {transition : Transition} (h : transition.Tidy)
    (apart : "target" ∉ transition.attributes.keys) (target : transition.target ≠ some .null) :
    ofJson? transition.written = some transition := by
  have hdistinct := h.distinct_written apart
  rw [written_eq] at hdistinct ⊢
  have hall : ∀ name ∈ transition.fieldValues.keys, name ∉ transition.attributes.keys := by
    intro name hmem
    rw [List.mem_singleton.mp hmem]
    exact apart
  have htarget : presentField? (flattened transition.fieldValues transition.attributes) "target"
      = transition.target :=
    presentField?_flattened transition.distinct_fieldValues List.mem_cons_self apart target
  have hrest : passedThrough fields (flattened transition.fieldValues transition.attributes)
      = transition.attributes := passedThrough_flattened h.attributes hall
  rw [ofJson?, if_pos (fieldsOnce_of_distinct (Json.distinct_obj_iff.mp hdistinct).1 fields),
    htarget, hrest, map_collapse_eq h.target]

/-- A table of transitions as it is written. -/
def writtenTable (table : TransitionTable) : Json := .obj (OrderedMap.mapValues written table)

/-- A table with one entry for each event is written without repetition if each entry is. -/
theorem distinct_writtenTable {table : TransitionTable} (distinct : table.Distinct)
    (h : ∀ entry ∈ table, entry.2.written.Distinct) : (writtenTable table).Distinct := by
  have hkeys : OrderedMap.keys (OrderedMap.mapValues written table) = table.keys := by
    rw [OrderedMap.keys, OrderedMap.mapValues, List.map_map]
    rfl
  refine Json.distinct_obj_iff.mpr ⟨?_, fun member hmember => ?_⟩
  · rw [OrderedMap.Distinct, hkeys]
    exact distinct
  · obtain ⟨entry, hentry, rfl⟩ := List.mem_map.mp hmember
    exact h entry hentry

/-- It is read back if each entry is. -/
theorem tableOfJson?_writtenTable {table : TransitionTable} (distinct : table.Distinct)
    (h : ∀ entry ∈ table, ofJson? entry.2.written = some entry.2) :
    tableOfJson? (writtenTable table) = some table := by
  have hentries : (OrderedMap.mapValues written table).mapM
      (fun entry => (ofJson? entry.2).map fun read => (entry.1, read)) = some table := by
    rw [OrderedMap.mapValues, List.mapM_map]
    clear distinct
    induction table with
    | nil => rfl
    | cons entry rest ih =>
        rw [List.mapM_cons, Function.comp, h entry List.mem_cons_self,
          ih fun later hlater => h later (List.mem_cons_of_mem _ hlater)]
        rfl
  rw [writtenTable, tableOfJson?, hentries, Option.map_some, distinct.ofBindings_eq]

end Transition

/-! ## 2. States -/

namespace StateNode

/-- What the state passes through is named like no hook, and like no table or block that is there;
and no transition of it names a target beside its own. -/
structure Separate (node : StateNode) : Prop where
  entry : "entry" ∉ OrderedMap.keys node.attributes
  exit : "exit" ∉ OrderedMap.keys node.attributes
  on : "on" ∈ OrderedMap.keys node.attributes → node.on = none
  invoke : "invoke" ∈ OrderedMap.keys node.attributes → node.invoke = none
  states : "states" ∈ OrderedMap.keys node.attributes → node.states = none
  targets : ∀ table, node.on = some table → ∀ entry ∈ table, "target" ∉ entry.2.attributes.keys

/-- Nothing in the state repeats a member, and no table of it has two entries for a key. -/
structure Tidy (node : StateNode) : Prop where
  entry : ∀ value, node.entry = some value → value.Distinct
  exit : ∀ value, node.exit = some value → value.Distinct
  on : ∀ table, node.on = some table → OrderedMap.Distinct table
  transitions : ∀ table, node.on = some table → ∀ entry ∈ table, entry.2.Tidy
  invoke : ∀ block, node.invoke = some block → (Json.obj block).Distinct
  states : ∀ table, node.states = some table → OrderedMap.Distinct table
  attributes : (Json.obj node.attributes).Distinct

/-- Nothing that is present is `null`, which would read as absent, and nothing is passed through
that would read as a table or block. -/
structure Legible (node : StateNode) : Prop where
  entry : node.entry ≠ some .null
  exit : node.exit ≠ some .null
  targets : ∀ table, node.on = some table → ∀ entry ∈ table, entry.2.target ≠ some .null
  on : "on" ∉ OrderedMap.keys node.attributes
  invoke : "invoke" ∉ OrderedMap.keys node.attributes
  states : "states" ∉ OrderedMap.keys node.attributes

/-- The fields of a state with their values as they are written. -/
def fieldValues (node : StateNode) : OrderedMap (Option Json) :=
  [("entry", node.entry), ("exit", node.exit),
    ("on", node.on.map Transition.writtenTable), ("invoke", node.invoke.map .obj),
    ("states", node.states.map writtenTable)]

theorem keys_fieldValues (node : StateNode) : node.fieldValues.keys = fields := rfl

theorem distinct_fieldValues (node : StateNode) : node.fieldValues.Distinct := by
  have hfields : fields.Nodup := by decide
  exact hfields

theorem members_eq (node : StateNode) :
    node.members = flattened node.fieldValues node.attributes := by
  obtain ⟨id, entry, exit, on, invoke, states, attributes⟩ := node
  -- a member is written for the nested states exactly where there is a table of them
  cases on <;> cases states <;>
    simp [members, flattened, fieldValues, optionalMember, nestedMember, writtenTable,
      Transition.writtenTable]

/-- What holds of each field that is present holds of all that is written as a field. -/
theorem forall_fieldValues {node : StateNode} {p : String → Json → Prop}
    (entry : ∀ value, node.entry = some value → p "entry" value)
    (exit : ∀ value, node.exit = some value → p "exit" value)
    (on : ∀ table, node.on = some table → p "on" (Transition.writtenTable table))
    (invoke : ∀ block, node.invoke = some block → p "invoke" (.obj block))
    (states : ∀ table, node.states = some table → p "states" (writtenTable table)) :
    ∀ name value, (name, some value) ∈ node.fieldValues → p name value := by
  intro name value hmem
  simp only [fieldValues, List.mem_cons, List.not_mem_nil, or_false, Prod.mk.injEq] at hmem
  rcases hmem with ⟨rfl, h⟩ | ⟨rfl, h⟩ | ⟨rfl, h⟩ | ⟨rfl, h⟩ | ⟨rfl, h⟩
  · exact entry value h.symm
  · exact exit value h.symm
  · obtain ⟨table, htable, rfl⟩ := Option.map_eq_some_iff.mp h.symm
    exact on table htable
  · obtain ⟨block, hblock, rfl⟩ := Option.map_eq_some_iff.mp h.symm
    exact invoke block hblock
  · obtain ⟨table, htable, rfl⟩ := Option.map_eq_some_iff.mp h.symm
    exact states table htable

/-- No field that is present is named like something passed through. -/
theorem Separate.apart {node : StateNode} (h : node.Separate) :
    ∀ name value, (name, some value) ∈ node.fieldValues →
      name ∉ OrderedMap.keys node.attributes := by
  refine forall_fieldValues (fun _ _ => h.entry) (fun _ _ => h.exit) ?_ ?_ ?_
  · intro table htable hmem
    exact absurd ((h.on hmem).symm.trans htable) nofun
  · intro block hblock hmem
    exact absurd ((h.invoke hmem).symm.trans hblock) nofun
  · intro table htable hmem
    exact absurd ((h.states hmem).symm.trans htable) nofun

theorem keys_tableMembers (table : StateTable) :
    OrderedMap.keys (tableMembers table) = table.keys := by
  induction table with
  | nil => rfl
  | cons entry rest ih => exact congrArg (entry.1 :: ·) ih

/-- A state is written without repetition if its nested states are. -/
theorem Tidy.distinct_written {node : StateNode} (h : node.Tidy) (separate : node.Separate)
    (nested : ∀ table, node.states = some table → (writtenTable table).Distinct) :
    node.written.Distinct := by
  have hon : ∀ table, node.on = some table → (Transition.writtenTable table).Distinct := by
    intro table htable
    refine Transition.distinct_writtenTable (h.on table htable) fun entry hentry => ?_
    exact (h.transitions table htable entry hentry).distinct_written
      (separate.targets table htable entry hentry)
  rw [written, members_eq]
  exact distinct_obj_flattened node.distinct_fieldValues h.attributes separate.apart
    (forall_fieldValues h.entry h.exit hon h.invoke nested)

mutual
/-- A state is written without repetition if every state in it is separate and tidy. -/
theorem Everywhere.distinct_written : {node : StateNode} →
    (node.Everywhere fun node => node.Separate ∧ node.Tidy) → node.written.Distinct
  | ⟨_, _, _, _, _, _, _⟩, ⟨⟨hseparate, htidy⟩, hnested⟩ =>
      htidy.distinct_written hseparate (EverywhereIn.distinct_writtenTable hnested htidy.states)
/-- A table of such states, if there is one. -/
theorem EverywhereIn.distinct_writtenTable : {states : Option (List (String × StateNode))} →
    EverywhereIn (fun node => node.Separate ∧ node.Tidy) states →
      (∀ table, states = some table → OrderedMap.Distinct table) →
        ∀ table, states = some table → (writtenTable table).Distinct
  | some table, h, hkeys, _, rfl => by
      refine ⟨?_, EverywhereAmong.distinctMembers h⟩
      rw [OrderedMap.Distinct, keys_tableMembers]
      exact hkeys table rfl
/-- Entry by entry. -/
theorem EverywhereAmong.distinctMembers : {table : List (String × StateNode)} →
    EverywhereAmong (fun node => node.Separate ∧ node.Tidy) table →
      Json.DistinctMembers (tableMembers table)
  | [], _ => trivial
  | (_, _) :: _, ⟨hnode, hrest⟩ =>
      ⟨Everywhere.distinct_written hnode, EverywhereAmong.distinctMembers hrest⟩
end

/-- The nested states are read from the field of that name. -/
theorem nestedOfMembers?_eq (members : List (String × Json)) :
    nestedOfMembers? members = readField? tableOfJson? (presentField? members "states") := by
  induction members with
  | nil => rfl
  | cons member rest ih =>
      obtain ⟨key, value⟩ := member
      unfold nestedOfMembers?
      rw [presentField?, OrderedMap.get?_cons]
      by_cases hkey : key = "states"
      · rw [if_pos hkey, if_pos hkey]
        cases value with
        | obj entries =>
            rw [readField?, tableOfJson?, Option.map_map]
            rfl
        | null | bool _ | num _ | str _ | arr _ => rfl
      · rw [if_neg hkey, if_neg hkey, ih]
        rfl

/-- No field at all is named like something passed through. -/
theorem Legible.apart {node : StateNode} (h : node.Legible) (separate : node.Separate) :
    ∀ name ∈ fields, name ∉ OrderedMap.keys node.attributes := by
  intro name hname
  simp only [fields, List.mem_cons, List.not_mem_nil, or_false] at hname
  rcases hname with rfl | rfl | rfl | rfl | rfl
  · exact separate.entry
  · exact separate.exit
  · exact h.on
  · exact h.invoke
  · exact h.states

/-- Every field of such a state is read from its members. -/
theorem Legible.presentField?_members {node : StateNode} (h : node.Legible)
    (separate : node.Separate) {name : String} {value : Option Json}
    (hmem : (name, value) ∈ node.fieldValues) (hnull : value ≠ some .null) :
    presentField? node.members name = value := by
  rw [members_eq]
  have hname : name ∈ fields := List.mem_map_of_mem (f := Prod.fst) hmem
  exact presentField?_flattened node.distinct_fieldValues hmem (h.apart separate name hname) hnull

/-- The members of a state spell the state again, but for its id, with the nested states that are
given. -/
theorem Tidy.ofMembers?_members {node : StateNode} (h : node.Tidy) (separate : node.Separate)
    (legible : node.Legible) (states : Option StateTable) :
    ofMembers? node.members states = some { node with id := none, states } := by
  have honce : fieldsOnce fields node.members = true := by
    rw [members_eq]
    exact fieldsOnce_of_distinct (distinct_flattened node.distinct_fieldValues
      (Json.distinct_obj_iff.mp h.attributes).1 separate.apart) fields
  have hentry : presentField? node.members "entry" = node.entry :=
    legible.presentField?_members separate List.mem_cons_self legible.entry
  have hexit : presentField? node.members "exit" = node.exit :=
    legible.presentField?_members separate (by simp [fieldValues]) legible.exit
  have hon : presentField? node.members "on" = node.on.map Transition.writtenTable :=
    legible.presentField?_members separate (by simp [fieldValues]) (map_obj_ne_null _ _)
  have htransitions : readField? Transition.tableOfJson? (presentField? node.members "on")
      = some (node.on.map fun table => table) := by
    rw [hon]
    refine readField?_map fun table htable => ?_
    refine Transition.tableOfJson?_writtenTable (h.on table htable) fun entry hentry => ?_
    exact (h.transitions table htable entry hentry).ofJson?_written
      (separate.targets table htable entry hentry) (legible.targets table htable entry hentry)
  have hinvoke : presentField? node.members "invoke" = node.invoke.map .obj :=
    legible.presentField?_members separate (by simp [fieldValues]) (map_obj_ne_null _ _)
  have hblock : readField? recordOfJson? (presentField? node.members "invoke")
      = some (node.invoke.map fun block => block) := by
    rw [hinvoke]
    refine readField?_map fun block hblock => ?_
    exact congrArg Json.members? (h.invoke block hblock).collapse_eq
  have hrest : passedThrough fields node.members = node.attributes := by
    rw [members_eq]
    exact passedThrough_flattened h.attributes (legible.apart separate)
  rw [ofMembers?, honce, htransitions, hblock, hentry, hexit, hrest, map_collapse_eq h.entry,
    map_collapse_eq h.exit, Option.map_id', Option.map_id']
  rfl

mutual
/-- A state is read back without its ids if every state in it is separate, tidy and legible. -/
theorem Everywhere.ofJson?_written : {node : StateNode} →
    (node.Everywhere fun node => node.Separate ∧ node.Tidy ∧ node.Legible) →
      ofJson? node.written = some node.unnamed
  | ⟨id, entry, exit, on, invoke, states, attributes⟩, ⟨⟨separate, tidy, legible⟩, nested⟩ => by
      -- the nested states are written under one name, and that is the one they are read from
      have hnested : nestedOfMembers? (members ⟨id, entry, exit, on, invoke, states, attributes⟩)
          = some (unnamedIn states) := by
        have hstates : presentField? (members ⟨id, entry, exit, on, invoke, states, attributes⟩)
            "states" = states.map writtenTable :=
          legible.presentField?_members separate (by simp [fieldValues]) (map_obj_ne_null _ _)
        rw [nestedOfMembers?_eq, hstates, unnamedIn_eq_map]
        exact readField?_map (EverywhereIn.tableOfJson?_writtenTable nested tidy.states)
      rw [written, ofJson?, hnested]
      exact tidy.ofMembers?_members separate legible _
/-- A table of such states, if there is one. -/
theorem EverywhereIn.tableOfJson?_writtenTable : {states : Option (List (String × StateNode))} →
    EverywhereIn (fun node => node.Separate ∧ node.Tidy ∧ node.Legible) states →
      (∀ table, states = some table → OrderedMap.Distinct table) →
        ∀ table, states = some table →
          tableOfJson? (writtenTable table) = some (unnamedAmong table)
  | some table, h, hkeys, _, rfl => by
      have hdistinct : OrderedMap.Distinct (unnamedAmong table) := by
        rw [OrderedMap.Distinct, keys_unnamedAmong]
        exact hkeys table rfl
      rw [writtenTable, tableOfJson?, EverywhereAmong.tableOfMembers?_tableMembers h,
        Option.map_some, hdistinct.ofBindings_eq]
/-- Entry by entry. -/
theorem EverywhereAmong.tableOfMembers?_tableMembers :
    {table : List (String × StateNode)} →
      EverywhereAmong (fun node => node.Separate ∧ node.Tidy ∧ node.Legible) table →
        tableOfMembers? (tableMembers table) = some (unnamedAmong table)
  | [], _ => rfl
  | (_, node) :: rest, ⟨hnode, hrest⟩ => by
      rw [tableMembers, tableOfMembers?, ← written, Everywhere.ofJson?_written hnode,
        EverywhereAmong.tableOfMembers?_tableMembers hrest]
      rfl
end

end StateNode

/-! ## 3. Configurations -/

namespace MachineConfig

/-- No extra member is named like a field that is written, and the states are separate at every
depth. -/
structure Separate (config : MachineConfig) : Prop where
  id : "id" ∉ config.extra.keys
  context : "context" ∉ config.extra.keys
  initial : "initial" ∉ config.extra.keys
  type : "type" ∉ config.extra.keys
  states : "states" ∈ config.extra.keys → config.states = none
  nested : StateNode.EverywhereIn StateNode.Separate config.states

/-- Nothing in the configuration repeats a member, and no table in it has two entries for a key. -/
structure Tidy (config : MachineConfig) : Prop where
  id : ∀ value, config.id = some value → value.Distinct
  context : config.context.Distinct
  initial : ∀ value, config.initial = some value → value.Distinct
  type : ∀ value, config.type = some value → value.Distinct
  states : ∀ table, config.states = some table → table.Distinct
  nested : StateNode.EverywhereIn StateNode.Tidy config.states
  extra : (Json.obj config.extra).Distinct

/-- No field but the context is `null`, no extra member would read as the states, and the states are
legible at every depth. -/
structure Legible (config : MachineConfig) : Prop where
  id : config.id ≠ some .null
  initial : config.initial ≠ some .null
  type : config.type ≠ some .null
  states : "states" ∉ config.extra.keys
  nested : StateNode.EverywhereIn StateNode.Legible config.states

/-- The fields of a configuration with their values as they are written. -/
def fieldValues (config : MachineConfig) : OrderedMap (Option Json) :=
  [("id", config.id), ("context", some config.context), ("initial", config.initial),
    ("type", config.type), ("states", config.states.map StateNode.writtenTable)]

theorem distinct_fieldValues (config : MachineConfig) : config.fieldValues.Distinct := by
  have hfields : fields.Nodup := by decide
  exact hfields

theorem members_eq (config : MachineConfig) :
    config.members = flattened config.fieldValues config.extra := by
  obtain ⟨id, context, initial, type, states, extra⟩ := config
  cases states <;>
    simp [members, flattened, fieldValues, optionalMember, StateNode.nestedMember,
      StateNode.writtenTable]

variable {config : MachineConfig}

/-- What holds of each field that is present holds of all that is written as a field. -/
theorem forall_fieldValues {p : String → Json → Prop}
    (id : ∀ value, config.id = some value → p "id" value)
    (context : p "context" config.context)
    (initial : ∀ value, config.initial = some value → p "initial" value)
    (type : ∀ value, config.type = some value → p "type" value)
    (states : ∀ table, config.states = some table → p "states" (StateNode.writtenTable table)) :
    ∀ name value, (name, some value) ∈ config.fieldValues → p name value := by
  intro name value hmem
  simp only [fieldValues, List.mem_cons, List.not_mem_nil, or_false, Prod.mk.injEq] at hmem
  rcases hmem with ⟨rfl, h⟩ | ⟨rfl, h⟩ | ⟨rfl, h⟩ | ⟨rfl, h⟩ | ⟨rfl, h⟩
  · exact id value h.symm
  · cases h
    exact context
  · exact initial value h.symm
  · exact type value h.symm
  · obtain ⟨table, htable, rfl⟩ := Option.map_eq_some_iff.mp h.symm
    exact states table htable

/-- No field that is present is named like an extra member. -/
theorem Separate.apart (h : config.Separate) :
    ∀ name value, (name, some value) ∈ config.fieldValues → name ∉ config.extra.keys := by
  refine forall_fieldValues (fun _ _ => h.id) h.context (fun _ _ => h.initial)
    (fun _ _ => h.type) ?_
  intro table htable hmem
  exact absurd ((h.states hmem).symm.trans htable) nofun

/-- Such a configuration is written without repetition. -/
theorem Tidy.distinct_written (h : config.Tidy) (separate : config.Separate) :
    config.written.Distinct := by
  have hnested := StateNode.EverywhereIn.distinct_writtenTable (separate.nested.and h.nested)
    h.states
  rw [written, members_eq]
  exact distinct_obj_flattened config.distinct_fieldValues h.extra separate.apart
    (forall_fieldValues h.id h.context h.initial h.type hnested)

/-- So it is written as the value that it denotes. -/
theorem Tidy.toJson_eq_written (h : config.Tidy) (separate : config.Separate) :
    config.toJson = config.written :=
  (h.distinct_written separate).collapse_eq

/-- No field at all is named like an extra member. -/
theorem Legible.apart (h : config.Legible) (separate : config.Separate) :
    ∀ name ∈ fields, name ∉ config.extra.keys := by
  intro name hname
  simp only [fields, List.mem_cons, List.not_mem_nil, or_false] at hname
  rcases hname with rfl | rfl | rfl | rfl | rfl
  · exact separate.id
  · exact separate.context
  · exact separate.initial
  · exact separate.type
  · exact h.states

/-- Every field of such a configuration is read from its members. -/
theorem Legible.presentField?_members (h : config.Legible) (separate : config.Separate)
    {name : String} {value : Option Json} (hmem : (name, value) ∈ config.fieldValues)
    (hnull : value ≠ some .null) : presentField? config.members name = value := by
  rw [members_eq]
  have hname : name ∈ fields := List.mem_map_of_mem (f := Prod.fst) hmem
  exact presentField?_flattened config.distinct_fieldValues hmem (h.apart separate name hname) hnull

/-- A configuration that is separate, tidy and legible is read back as it was, but for the ids of
its states. -/
theorem Tidy.ofJson?_toJson (h : config.Tidy) (separate : config.Separate)
    (legible : config.Legible) : ofJson? config.toJson = some config.unnamed := by
  have honce : fieldsOnce fields config.members = true :=
    fieldsOnce_of_distinct (Json.distinct_obj_iff.mp (h.distinct_written separate)).1 fields
  have hid : presentField? config.members "id" = config.id :=
    legible.presentField?_members separate List.mem_cons_self legible.id
  have hcontext : OrderedMap.get? config.members "context" = some config.context := by
    rw [members_eq]
    exact get?_flattened config.distinct_fieldValues (by simp [fieldValues]) separate.context
  have hinitial : presentField? config.members "initial" = config.initial :=
    legible.presentField?_members separate (by simp [fieldValues]) legible.initial
  have htype : presentField? config.members "type" = config.type :=
    legible.presentField?_members separate (by simp [fieldValues]) legible.type
  have hstates : presentField? config.members "states"
      = config.states.map StateNode.writtenTable :=
    legible.presentField?_members separate (by simp [fieldValues]) (map_obj_ne_null _ _)
  have hnested : readField? StateNode.tableOfJson? (presentField? config.members "states")
      = some (StateNode.unnamedIn config.states) := by
    rw [hstates, StateNode.unnamedIn_eq_map]
    refine readField?_map (StateNode.EverywhereIn.tableOfJson?_writtenTable ?_ h.states)
    exact separate.nested.and (h.nested.and legible.nested)
  have hrest : passedThrough fields config.members = config.extra := by
    rw [members_eq]
    exact passedThrough_flattened h.extra (legible.apart separate)
  rw [h.toJson_eq_written separate, written, ofJson?, honce, hnested, hid, hcontext, hinitial,
    htype, hrest, map_collapse_eq h.id, map_collapse_eq h.initial, map_collapse_eq h.type,
    Option.getD_some, h.context.collapse_eq]
  rfl

end MachineConfig

end Statechart
