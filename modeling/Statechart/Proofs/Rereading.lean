/-
`Proofs/Rereading.lean` -- what is read is read again from what is written for it.

Reading drops nulls, collapses what is repeated and passes nothing through that is named like a
field. So whatever reading gives back is in the form in which writing and reading it change
nothing, and one reading is enough to bring a value into that form.
-/
import Statechart.Proofs.Written

set_option autoImplicit false

namespace Statechart

/-! ## 1. Fields -/

/-- Only `null` collapses to `null`. -/
theorem Json.collapse_ne_null {value : Json} (h : value ≠ .null) : value.collapse ≠ .null := by
  cases value with
  | null => exact absurd rfl h
  | bool _ | num _ | str _ | arr _ | obj _ => exact nofun

/-- A field that is read as it stands repeats nothing. -/
theorem distinct_of_map_collapse {value? : Option Json} :
    ∀ value, value?.map Json.collapse = some value → value.Distinct := by
  intro value h
  obtain ⟨source, -, rfl⟩ := Option.map_eq_some_iff.mp h
  exact Json.distinct_collapse source

/-- A field that is read as it stands is not `null`. -/
theorem map_collapse_presentField?_ne_null (members : List (String × Json)) (name : String) :
    (presentField? members name).map Json.collapse ≠ some .null := by
  intro h
  obtain ⟨source, hsource, hnull⟩ := Option.map_eq_some_iff.mp h
  have hne : source ≠ .null := by
    rintro rfl
    exact presentField?_ne_null members name hsource
  exact Json.collapse_ne_null hne hnull

/-- What a reader gives for an optional field it gives for some value. -/
theorem exists_of_readField? {α : Type} {read : Json → Option α} {value : Option Json} {a : α}
    (h : readField? read value = some (some a)) : ∃ found, read found = some a := by
  cases value with
  | none => exact absurd h nofun
  | some found =>
      obtain ⟨_, ha, heq⟩ := Option.map_eq_some_iff.mp h
      cases heq
      exact ⟨found, ha⟩

/-- A record that is read repeats nothing. -/
theorem distinct_of_recordOfJson? {value : Json} {record : Attributes}
    (h : recordOfJson? value = some record) : (Json.obj record).Distinct := by
  cases value with
  | obj members =>
      cases h
      exact Json.distinct_collapseRecord members
  | null | bool _ | num _ | str _ | arr _ => exact absurd h nofun

/-! ## 2. Transitions -/

namespace Transition

/-- As reading gives transitions: nothing is repeated, the target is not `null`, and no attribute
is named like it. -/
structure Canonical (transition : Transition) : Prop where
  tidy : transition.Tidy
  apart : "target" ∉ transition.attributes.keys
  target : transition.target ≠ some .null

theorem canonical_of_ofJson? {value : Json} {transition : Transition}
    (h : ofJson? value = some transition) : transition.Canonical := by
  cases value with
  | obj members =>
      rw [ofJson?] at h
      by_cases hfields : fieldsOnce fields members = true
      · rw [if_pos hfields] at h
        cases h
        exact {
          tidy := ⟨distinct_of_map_collapse, Json.distinct_collapseRecord _⟩
          apart := not_mem_keys_passedThrough (by simp [fields]) members
          target := map_collapse_presentField?_ne_null members "target" }
      · rw [if_neg hfields] at h
        cases h
  | null | bool _ | num _ | str _ | arr _ => cases h

/-- A table that is read has one entry for each key, and each entry is read. -/
theorem canonical_of_tableOfJson? {value : Json} {table : TransitionTable}
    (h : tableOfJson? value = some table) :
    table.Distinct ∧ ∀ entry ∈ table, entry.2.Canonical := by
  cases value with
  | obj members =>
      obtain ⟨entries, hentries, rfl⟩ := Option.map_eq_some_iff.mp h
      refine ⟨OrderedMap.distinct_ofBindings entries, fun entry hentry => ?_⟩
      obtain ⟨member, hmember⟩ :=
        exists_of_mapM hentries entry (OrderedMap.mem_of_mem_ofBindings hentry)
      obtain ⟨read, hread, rfl⟩ := Option.map_eq_some_iff.mp hmember
      exact canonical_of_ofJson? hread
  | null | bool _ | num _ | str _ | arr _ => exact absurd h nofun

/-- A transition in that form is read from its own value. -/
theorem Canonical.ofJson?_toJson {transition : Transition} (h : transition.Canonical) :
    ofJson? transition.toJson = some transition := by
  rw [toJson, (h.tidy.distinct_written h.apart).collapse_eq]
  exact h.tidy.ofJson?_written h.apart h.target

end Transition

/-! ## 3. States -/

namespace StateNode

/-- As reading gives states: separate, tidy and legible, and without an id. -/
structure Canonical (node : StateNode) : Prop where
  separate : node.Separate
  tidy : node.Tidy
  legible : node.Legible
  id : node.id = none

/-- The nested states are the ones that are given. -/
theorem states_of_ofMembers? {members : List (String × Json)} {states : Option StateTable}
    {node : StateNode} (h : ofMembers? members states = some node) : node.states = states := by
  rw [ofMembers?] at h
  obtain ⟨_, -, h⟩ := Option.bind_eq_some_iff.mp h
  obtain ⟨on, -, h⟩ := Option.bind_eq_some_iff.mp h
  obtain ⟨invoke, -, h⟩ := Option.bind_eq_some_iff.mp h
  cases h
  rfl

/-- The state that members spell is in that form, whatever its nested states. -/
theorem canonical_of_ofMembers? {members : List (String × Json)} {states : Option StateTable}
    (distinct : ∀ table, states = some table → OrderedMap.Distinct table) {node : StateNode}
    (h : ofMembers? members states = some node) : node.Canonical := by
  rw [ofMembers?] at h
  obtain ⟨_, -, h⟩ := Option.bind_eq_some_iff.mp h
  obtain ⟨on, hon, h⟩ := Option.bind_eq_some_iff.mp h
  obtain ⟨invoke, hinvoke, h⟩ := Option.bind_eq_some_iff.mp h
  cases h
  have htable : ∀ table, on = some table →
      OrderedMap.Distinct table ∧ ∀ entry ∈ table, entry.2.Canonical := by
    rintro table rfl
    obtain ⟨value, hvalue⟩ := exists_of_readField? hon
    exact Transition.canonical_of_tableOfJson? hvalue
  have hblock : ∀ block, invoke = some block → (Json.obj block).Distinct := by
    rintro block rfl
    obtain ⟨value, hvalue⟩ := exists_of_readField? hinvoke
    exact distinct_of_recordOfJson? hvalue
  have hfields : ∀ name ∈ fields, name ∉ (passedThrough fields members).keys :=
    fun name hname => not_mem_keys_passedThrough hname members
  exact {
    separate := {
      entry := hfields "entry" (by simp [fields])
      exit := hfields "exit" (by simp [fields])
      on := fun hmem => absurd hmem (hfields "on" (by simp [fields]))
      invoke := fun hmem => absurd hmem (hfields "invoke" (by simp [fields]))
      states := fun hmem => absurd hmem (hfields "states" (by simp [fields]))
      targets := fun table h entry hentry => ((htable table h).2 entry hentry).apart }
    tidy := {
      entry := distinct_of_map_collapse
      exit := distinct_of_map_collapse
      on := fun table h => (htable table h).1
      transitions := fun table h entry hentry => ((htable table h).2 entry hentry).tidy
      invoke := hblock
      states := distinct
      attributes := Json.distinct_collapseRecord _ }
    legible := {
      entry := map_collapse_presentField?_ne_null members "entry"
      exit := map_collapse_presentField?_ne_null members "exit"
      targets := fun table h entry hentry => ((htable table h).2 entry hentry).target
      on := hfields "on" (by simp [fields])
      invoke := hfields "invoke" (by simp [fields])
      states := hfields "states" (by simp [fields]) }
    id := rfl }

/-- A table of states that is read has one entry for each id. -/
theorem distinct_of_tableOfJson? {value : Json} {table : StateTable}
    (h : tableOfJson? value = some table) : table.Distinct := by
  cases value with
  | obj members =>
      obtain ⟨entries, -, rfl⟩ := Option.map_eq_some_iff.mp h
      exact OrderedMap.distinct_ofBindings entries
  | null | bool _ | num _ | str _ | arr _ => exact absurd h nofun

mutual
/-- A state that is read is in that form everywhere. -/
theorem everywhere_canonical_of_ofJson? : (value : Json) → {node : StateNode} →
    ofJson? value = some node → node.Everywhere Canonical
  | .obj members, node, h => by
      rw [ofJson?] at h
      generalize hnested : nestedOfMembers? members = nested at h
      cases nested with
      | none => exact absurd h nofun
      | some states =>
          -- that ids are distinct is seen at the whole field, and the rest state by state
          have hdistinct : ∀ table, states = some table → OrderedMap.Distinct table := by
            rintro table rfl
            rw [nestedOfMembers?_eq] at hnested
            obtain ⟨value, hvalue⟩ := exists_of_readField? hnested
            exact distinct_of_tableOfJson? hvalue
          have hstates := everywhereIn_canonical_of_nestedOfMembers? members hnested
          refine everywhere_iff.mpr ⟨canonical_of_ofMembers? hdistinct h, ?_⟩
          rw [states_of_ofMembers? h]
          exact hstates
/-- So are its nested states. -/
theorem everywhereIn_canonical_of_nestedOfMembers? : (members : List (String × Json)) →
    {states : Option StateTable} → nestedOfMembers? members = some states →
      EverywhereIn Canonical states
  | [], _, h => by
      cases h
      exact trivial
  | (key, value) :: rest, states, h => by
      by_cases hkey : key = "states"
      · subst hkey
        match value, h with
        | .null, h =>
            cases h
            exact trivial
        | .obj members, h =>
            obtain ⟨entries, hentries, rfl⟩ := Option.map_eq_some_iff.mp h
            refine everywhereAmong_iff.mpr fun entry hentry => ?_
            exact everywhere_canonical_of_tableOfMembers? members hentries entry
              (OrderedMap.mem_of_mem_ofBindings hentry)
      · unfold nestedOfMembers? at h
        rw [if_neg hkey] at h
        exact everywhereIn_canonical_of_nestedOfMembers? rest h
/-- Entry by entry. -/
theorem everywhere_canonical_of_tableOfMembers? : (members : List (String × Json)) →
    {entries : List (String × StateNode)} → tableOfMembers? members = some entries →
      ∀ entry ∈ entries, entry.2.Everywhere Canonical
  | [], _, h => by
      cases h
      exact nofun
  | (id, value) :: rest, entries, h => by
      rw [tableOfMembers?] at h
      generalize hnode : ofJson? value = node? at h
      generalize hnodes : tableOfMembers? rest = nodes? at h
      match node?, nodes? with
      | some node, some nodes =>
          cases h
          intro entry hentry
          rcases List.mem_cons.mp hentry with rfl | hmem
          · exact everywhere_canonical_of_ofJson? value hnode
          · exact everywhere_canonical_of_tableOfMembers? rest hnodes entry hmem
      | some _, none | none, _ => exact absurd h nofun
end

/-- The states of a table that is read are in that form everywhere. -/
theorem everywhereAmong_canonical_of_tableOfJson? {value : Json} {table : StateTable}
    (h : tableOfJson? value = some table) : EverywhereAmong Canonical table := by
  cases value with
  | obj members =>
      obtain ⟨entries, hentries, rfl⟩ := Option.map_eq_some_iff.mp h
      refine everywhereAmong_iff.mpr fun entry hentry => ?_
      exact everywhere_canonical_of_tableOfMembers? members hentries entry
        (OrderedMap.mem_of_mem_ofBindings hentry)
  | null | bool _ | num _ | str _ | arr _ => exact absurd h nofun

/-- A state that is in that form everywhere is read from its own value. -/
theorem Everywhere.ofJson?_toJson {node : StateNode} (h : node.Everywhere Canonical) :
    ofJson? node.toJson = some node := by
  have hdistinct : node.written.Distinct :=
    (h.imp fun _ hnode => ⟨hnode.separate, hnode.tidy⟩).distinct_written
  have hread : ofJson? node.written = some node.unnamed :=
    (h.imp fun _ hnode => ⟨hnode.separate, hnode.tidy, hnode.legible⟩).ofJson?_written
  rw [toJson, hdistinct.collapse_eq, hread, (h.imp fun _ hnode => hnode.id).unnamed_eq]

end StateNode

/-! ## 4. Configurations -/

namespace MachineConfig

/-- As reading gives configurations: separate, tidy and legible, and without ids of states. -/
structure Canonical (config : MachineConfig) : Prop where
  separate : config.Separate
  tidy : config.Tidy
  legible : config.Legible
  unnamed : config.unnamed = config

theorem canonical_of_ofJson? {value : Json} {config : MachineConfig}
    (h : ofJson? value = some config) : config.Canonical := by
  cases value with
  | obj members =>
      rw [ofJson?] at h
      obtain ⟨_, -, h⟩ := Option.bind_eq_some_iff.mp h
      obtain ⟨states, hstates, h⟩ := Option.bind_eq_some_iff.mp h
      cases h
      have htable : ∀ table, states = some table →
          table.Distinct ∧ StateNode.EverywhereAmong StateNode.Canonical table := by
        rintro table rfl
        obtain ⟨found, hfound⟩ := exists_of_readField? hstates
        exact ⟨StateNode.distinct_of_tableOfJson? hfound,
          StateNode.everywhereAmong_canonical_of_tableOfJson? hfound⟩
      have hnested : StateNode.EverywhereIn StateNode.Canonical states :=
        StateNode.everywhereIn_iff.mpr fun table h => (htable table h).2
      have hfields : ∀ name ∈ fields, name ∉ (passedThrough fields members).keys :=
        fun name hname => not_mem_keys_passedThrough hname members
      exact {
        separate := {
          id := hfields "id" (by simp [fields])
          context := hfields "context" (by simp [fields])
          initial := hfields "initial" (by simp [fields])
          type := hfields "type" (by simp [fields])
          states := fun hmem => absurd hmem (hfields "states" (by simp [fields]))
          nested := hnested.imp fun _ hnode => hnode.separate }
        tidy := {
          id := distinct_of_map_collapse
          context := Json.distinct_collapse _
          initial := distinct_of_map_collapse
          type := distinct_of_map_collapse
          states := fun table h => (htable table h).1
          nested := hnested.imp fun _ hnode => hnode.tidy
          extra := Json.distinct_collapseRecord _ }
        legible := {
          id := map_collapse_presentField?_ne_null members "id"
          initial := map_collapse_presentField?_ne_null members "initial"
          type := map_collapse_presentField?_ne_null members "type"
          states := hfields "states" (by simp [fields])
          nested := hnested.imp fun _ hnode => hnode.legible }
        unnamed := by
          rw [unnamed, (hnested.imp fun _ hnode => hnode.id).unnamedIn_eq] }
  | null | bool _ | num _ | str _ | arr _ => cases h

/-- A configuration in that form is read from its own value. -/
theorem Canonical.ofJson?_toJson {config : MachineConfig} (h : config.Canonical) :
    ofJson? config.toJson = some config := by
  rw [h.tidy.ofJson?_toJson h.separate h.legible, h.unnamed]

end MachineConfig

/-! ## 5. Reading twice -/

/-- Reading what is written for a result gives that result, and so it is written as before. -/
def Rereads {α : Type} (read : Json → Option α) (write : α → Json) (result : α) : Prop :=
  read (write result) = some result ∧ (read (write result)).map write = some (write result)

theorem rereads_of_eq {α : Type} {read : Json → Option α} {write : α → Json} {result : α}
    (h : read (write result) = some result) : Rereads read write result := by
  refine ⟨h, ?_⟩
  rw [h]
  rfl

/-- **Reading again.** Whatever is read from a value, as a transition, as a state or as a
configuration, is read again from the value that is written for it, with the same fields, the same
nested states and transitions, the same other members and every table in the same order. -/
theorem read_rereads (value : Json) :
    (∀ transition, Transition.ofJson? value = some transition →
        Rereads Transition.ofJson? Transition.toJson transition) ∧
      (∀ node, StateNode.ofJson? value = some node →
        Rereads StateNode.ofJson? StateNode.toJson node) ∧
      ∀ config, MachineConfig.ofJson? value = some config →
        Rereads MachineConfig.ofJson? MachineConfig.toJson config := by
  refine ⟨fun transition h => ?_, fun node h => ?_, fun config h => ?_⟩
  · exact rereads_of_eq (Transition.canonical_of_ofJson? h).ofJson?_toJson
  · exact rereads_of_eq (StateNode.everywhere_canonical_of_ofJson? value h).ofJson?_toJson
  · exact rereads_of_eq (MachineConfig.canonical_of_ofJson? h).ofJson?_toJson

/-- A value that reads as all three, with nulls for fields, an `id` in a nested state and no
context. -/
def sparseValue : Json :=
  .obj [("id", .str "m"), ("target", .null), ("entry", .null),
    ("on", .obj [("GO", .obj [("cond", .str "ready"), ("target", .null)])]),
    ("states", .obj [("idle", .obj [("id", .str "idle"), ("exit", .null), ("states", .null)])])]

theorem rereads_sparseValue :
    (∃ transition, Transition.ofJson? sparseValue = some transition ∧
        Rereads Transition.ofJson? Transition.toJson transition) ∧
      (∃ node, StateNode.ofJson? sparseValue = some node ∧
        Rereads StateNode.ofJson? StateNode.toJson node) ∧
      ∃ config, MachineConfig.ofJson? sparseValue = some config ∧
        Rereads MachineConfig.ofJson? MachineConfig.toJson config := by
  obtain ⟨htransition, hnode, hconfig⟩ := read_rereads sparseValue
  exact ⟨⟨_, rfl, htransition _ rfl⟩, ⟨_, rfl, hnode _ rfl⟩, ⟨_, rfl, hconfig _ rfl⟩⟩

end Statechart
