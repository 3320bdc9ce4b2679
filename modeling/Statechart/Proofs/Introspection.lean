/-
`Proofs/Introspection.lean` -- looking into a machine before and after it is written.

A configuration that is read from what was written for another has the states of the other under
the same paths, and they are of the same categories. There is one exception. An attribute of a state
that is named like its nested states is passed through as it stands, and where it is an object it
reads as nested states. So states come to light that were raw members before. Where neither a type
nor a marker says what category such a state is of, it was atomic for want of nested states and is
compound then; and only there does a category change.
-/
import Statechart.Proofs.RawStates
import Statechart.StateNode.Kind

set_option autoImplicit false

namespace Statechart

/-! ## 1. Walking along paths -/

namespace StateTable

/-- A path leads somewhere only in a table that holds something. -/
theorem exists_eq_cons_of_lookup? {table : Option StateTable} {path : List String}
    (h : (lookup? table path).isSome) : ∃ entry others, table = some (entry :: others) := by
  cases table with
  | none =>
      cases path with
      | nil => cases h
      | cons id rest => cases rest <;> cases h
  | some entries =>
      cases entries with
      | nil =>
          cases path with
          | nil => cases h
          | cons id rest => cases rest <;> cases h
      | cons entry others => exact ⟨entry, others, rfl⟩

/-- A path that leads on from a state leads on from there. -/
theorem lookup?_cons_of_some {table : Option StateTable} {id : String} {first node : StateNode}
    (hfirst : table.bind (OrderedMap.get? · id) = some first) {path : List String}
    (hnode : lookup? first.states path = some node) : lookup? table (id :: path) = some node := by
  have hpath : path ≠ [] := by
    rintro rfl
    cases hnode
  rw [lookup?_cons table id hpath, hfirst]
  exact hnode

/-- A path may be walked in two parts. -/
theorem lookup?_append (table : Option StateTable) {initial rest : List String}
    (hinitial : initial ≠ []) (hrest : rest ≠ []) :
    lookup? table (initial ++ rest)
      = (lookup? table initial).bind fun node => lookup? node.states rest := by
  induction initial generalizing table with
  | nil => exact absurd rfl hinitial
  | cons id path ih =>
      rw [List.cons_append, lookup?_cons table id (List.append_ne_nil_of_right_ne_nil path hrest)]
      cases path with
      | nil => rfl
      | cons next others =>
          have hpath : next :: others ≠ [] := List.cons_ne_nil next others
          rw [lookup?_cons table id hpath]
          cases table.bind (OrderedMap.get? · id) with
          | none => rfl
          | some node => exact ih node.states hpath

end StateTable

namespace StateNode

/-! ## 2. One state, read again -/

/-- The second state is what is read from what is written for the first. -/
def Reread (node node' : StateNode) : Prop := ofJson? node.written = some node'

/-- Among the attributes of the state stand raw states: under the name of the nested states an
object that is not empty. -/
def KeepsRawStates (node : StateNode) : Prop :=
  ∃ first rest, OrderedMap.get? node.attributes "states" = some (.obj (first :: rest))

/-- Neither a type nor a marker decides of what category the state is. -/
def Undecided (node : StateNode) : Prop :=
  OrderedMap.get? node.attributes "type" = none ∧
    ∀ kind ∈ StateKind.markers, OrderedMap.get? node.attributes kind.name ≠ some (.bool true)

/-- The two states are of the same category, and both have states of their own to speak of or
neither has. -/
def SameCategory (node node' : StateNode) : Prop :=
  node'.kind? = node.kind? ∧ node'.hasChildStates = node.hasChildStates

/-- How the second state looks beside the first. They are of the same category, unless raw states
stand among the attributes of the first and nothing but the structure decides: exactly then the
first is atomic and the second compound. -/
structure SeenAgain (node node' : StateNode) : Prop where
  same : ¬(node.KeepsRawStates ∧ node.Undecided) → node.SameCategory node'
  turns_iff : node.kind? = some .atomic ∧ node'.kind? = some .compound ↔
    node.KeepsRawStates ∧ node.Undecided

/-- No category is named like a field. -/
theorem name_not_mem_fields (kind : StateKind) : kind.name ∉ fields := by
  cases kind <;> decide

/-- An undecided state is of the category that its structure gives it. -/
theorem Undecided.kind?_eq {node : StateNode} (h : node.Undecided) :
    node.kind? = some node.structuralKind := by
  obtain ⟨htype, hmarkers⟩ := h
  have hunmarked : StateKind.markers.find? node.isMarked = none := by
    refine List.find?_eq_none.mpr fun kind hkind hmarked => ?_
    exact hmarkers kind hkind (beq_iff_eq.mp hmarked)
  rw [kind?, htype, hunmarked]
  rfl

/-- Where the attributes that decide are the same and do decide, the category is the same. -/
theorem kind?_eq_of_decided {node node' : StateNode} (hdecided : ¬node.Undecided)
    (htype : OrderedMap.get? node'.attributes "type" = OrderedMap.get? node.attributes "type")
    (hmarked : node'.isMarked = node.isMarked) : node'.kind? = node.kind? := by
  rw [kind?, kind?, htype, hmarked]
  cases hfound : OrderedMap.get? node.attributes "type" with
  | some explicit => rfl
  | none =>
      cases hmarkers : StateKind.markers.find? node.isMarked with
      | some marker => rfl
      | none =>
          refine absurd ⟨hfound, fun kind hkind hvalue => ?_⟩ hdecided
          exact List.find?_eq_none.mp hmarkers kind hkind (beq_iff_eq.mpr hvalue)

/-- What is written for a table is read entry by entry. -/
theorem alike_reread_of_tableOfJson? {table table' : StateTable} (distinct : table.Distinct)
    (h : tableOfJson? (writtenTable table) = some table') :
    OrderedMap.Alike Reread table table' := by
  have hkeys : OrderedMap.Distinct (tableMembers table) := by
    rw [OrderedMap.Distinct, keys_tableMembers]
    exact distinct
  rw [tableOfJson?_eq, writtenTable, readTable_obj_eq_some_iff hkeys, tableMembers_eq,
    OrderedMap.Alike, OrderedMap.mapValues, List.forall₂_map_left_iff] at h
  exact h

/-- A table of nested states may be written as a field among others, and members that are no fields
behind it. If it is there it is read again, and otherwise what is read is the other member of that
name, if there is one. -/
theorem states_of_readField? {fields : OrderedMap (Option Json)} {others : Attributes}
    (hfields : fields.Distinct) {states : Option StateTable}
    (hmem : ("states", states.map writtenTable) ∈ fields)
    (separate : "states" ∈ others.keys → states = none)
    (distinct : ∀ table, states = some table → table.Distinct) {states' : Option StateTable}
    (h : readField? tableOfJson? (presentField? (flattened fields others) "states")
      = some states') :
    (∀ table, states = some table →
        ∃ table', states' = some table' ∧ OrderedMap.Alike Reread table table') ∧
      (states = none → states' = (others.get? "states").bind tableOfJson?) := by
  constructor
  · rintro table rfl
    have hapart : "states" ∉ others.keys := by
      intro hkey
      cases separate hkey
    have hpresent : presentField? (flattened fields others) "states" = some (writtenTable table) :=
      presentField?_flattened hfields hmem hapart (by simp [writtenTable])
    rw [hpresent] at h
    obtain ⟨table', htable, rfl⟩ := Option.map_eq_some_iff.mp h
    exact ⟨table', rfl, alike_reread_of_tableOfJson? (distinct table rfl) htable⟩
  · rintro rfl
    rw [presentField?, get?_flattened_of_absent hfields hmem] at h
    generalize others.get? "states" = raw? at h ⊢
    -- a raw `null` reads as absent, and as no table
    split at h
    · cases h
      rfl
    · cases raw? with
      | none =>
          cases h
          rfl
      | some raw =>
          obtain ⟨table, htable, rfl⟩ := Option.map_eq_some_iff.mp h
          exact htable.symm

/-- Only an object that is not empty is read as a table that is not empty. -/
theorem keepsRawStates_of_read {node : StateNode} {entry : String × StateNode}
    {others : StateTable}
    (h : (OrderedMap.get? node.attributes "states").bind tableOfJson?
      = some (entry :: others)) : node.KeepsRawStates := by
  obtain ⟨raw, hraw, hread⟩ := Option.bind_eq_some_iff.mp h
  cases raw with
  | obj members =>
      cases members with
      | nil => cases hread
      | cons first rest => exact ⟨first, rest, hraw⟩
  | null | bool _ | num _ | str _ | arr _ => cases hread

/-- What is read from an object that is not empty is a table that is not empty. -/
theorem exists_eq_cons_of_tableOfJson? {first : String × Json} {rest : List (String × Json)}
    {table : StateTable} (h : tableOfJson? (.obj (first :: rest)) = some table) :
    ∃ entry others, table = entry :: others := by
  obtain ⟨id, value⟩ := first
  rw [tableOfJson?, tableOfMembers?] at h
  obtain ⟨entries, hentries, rfl⟩ := Option.map_eq_some_iff.mp h
  refine List.exists_cons_of_ne_nil fun hnil => ?_
  rw [Siblings.ofBindings_eq_nil_iff.mp hnil] at hentries
  split at hentries
  · cases hentries
  · cases hentries

/-- A state with an attribute that is named like its nested states has no table of these. -/
theorem Separate.states_eq_none {node : StateNode} (h : node.Separate) {raw : Json}
    (hraw : OrderedMap.get? node.attributes "states" = some raw) : node.states = none :=
  h.states (List.mem_map_of_mem (OrderedMap.mem_of_get? hraw))

section Reread

variable {node node' : StateNode} (h : node.Reread node')
  (proper : node.Everywhere fun node => node.Separate ∧ node.Tidy)
include h proper

/-- What the fields of a state are read from. -/
theorem Reread.inv : ∃ on invoke,
    readField? tableOfJson? (presentField? node.members "states") = some node'.states ∧
      node' =
        { entry := presentField? node.members "entry"
          exit := presentField? node.members "exit"
          on
          invoke
          states := node'.states
          attributes := OrderedMap.without node.members fields } := by
  have hdistinct : (Json.obj node.members).Distinct := proper.distinct_written
  rw [Reread, written, ofJson?_obj hdistinct] at h
  obtain ⟨states, hstates, h⟩ := Option.bind_eq_some_iff.mp h
  obtain ⟨on, -, h⟩ := Option.bind_eq_some_iff.mp h
  obtain ⟨invoke, -, rfl⟩ := Option.map_eq_some_iff.mp h
  exact ⟨on, invoke, hstates, rfl⟩

/-- Every attribute that is not named like a field is read again. -/
theorem Reread.get?_attributes {name : String} (hname : name ∉ fields) :
    OrderedMap.get? node'.attributes name = OrderedMap.get? node.attributes name := by
  obtain ⟨on, invoke, -, hnode'⟩ := h.inv proper
  rw [hnode']
  show (OrderedMap.without node.members fields).get? name = _
  rw [OrderedMap.get?_without, if_neg hname, members_eq]
  exact get?_flattened_of_not_mem hname

theorem Reread.states_of_some {table : StateTable} (htable : node.states = some table) :
    ∃ table', node'.states = some table' ∧ OrderedMap.Alike Reread table table' := by
  obtain ⟨hnode, -⟩ := everywhere_iff.mp proper
  obtain ⟨on, invoke, hstates, -⟩ := h.inv proper
  rw [members_eq] at hstates
  exact (states_of_readField? node.distinct_fieldValues (by simp [fieldValues]) hnode.1.states
    hnode.2.states hstates).1 table htable

theorem Reread.states_of_none (hnone : node.states = none) :
    node'.states = (OrderedMap.get? node.attributes "states").bind tableOfJson? := by
  obtain ⟨hnode, -⟩ := everywhere_iff.mp proper
  obtain ⟨on, invoke, hstates, -⟩ := h.inv proper
  rw [members_eq] at hstates
  exact (states_of_readField? node.distinct_fieldValues (by simp [fieldValues]) hnode.1.states
    hnode.2.states hstates).2 hnone

/-- A state that is read has no raw member under the name of its nested states but one that is read
as such. -/
theorem Reread.isSome_tableOfJson? (hnone : node.states = none) {raw : Json}
    (hraw : OrderedMap.get? node.attributes "states" = some raw) (hne : raw ≠ .null) :
    (tableOfJson? raw).isSome := by
  obtain ⟨on, invoke, hstates, -⟩ := h.inv proper
  have hmem : ("states", (none : Option Json)) ∈ node.fieldValues := by
    simp [fieldValues, hnone]
  refine isSome_readField?_iff.mp (Option.isSome_of_eq_some hstates) raw ?_
  rw [presentField?_eq_some_iff, members_eq,
    get?_flattened_of_absent node.distinct_fieldValues hmem]
  exact ⟨hraw, hne⟩

/-- Raw states that are kept are the nested states of the state that is read. -/
theorem Reread.structuralKind_of_keepsRawStates (hkeeps : node.KeepsRawStates) :
    node.structuralKind = .atomic ∧ node'.structuralKind = .compound := by
  obtain ⟨first, rest, hraw⟩ := hkeeps
  obtain ⟨hnode, -⟩ := everywhere_iff.mp proper
  have hnone := hnode.1.states_eq_none hraw
  have hne : Json.obj (first :: rest) ≠ .null := by
    intro heq
    cases heq
  obtain ⟨table, htable⟩ :=
    Option.isSome_iff_exists.mp (h.isSome_tableOfJson? proper hnone hraw hne)
  obtain ⟨entry, others, rfl⟩ := exists_eq_cons_of_tableOfJson? htable
  have hstates' : node'.states = some (entry :: others) := by
    rw [h.states_of_none proper hnone, hraw, Option.bind_some, htable]
  rw [structuralKind, structuralKind, hnone, hstates']
  exact ⟨rfl, rfl⟩

/-- Without raw states the structure is kept. -/
theorem Reread.structuralKind_eq (hkeeps : ¬node.KeepsRawStates) :
    node'.structuralKind = node.structuralKind := by
  cases hstates : node.states with
  | some table =>
      obtain ⟨table', hstates', halike⟩ := h.states_of_some proper hstates
      rw [structuralKind, structuralKind, hstates, hstates']
      cases halike <;> rfl
  | none =>
      have hstates' := h.states_of_none proper hstates
      rw [structuralKind, structuralKind, hstates, hstates']
      cases hread : (OrderedMap.get? node.attributes "states").bind tableOfJson? with
      | none => rfl
      | some table =>
          cases table with
          | nil => rfl
          | cons entry others => exact absurd (keepsRawStates_of_read hread) hkeeps

/-- Nothing that decides of what category a state is gets lost. -/
theorem Reread.isMarked_eq : node'.isMarked = node.isMarked := by
  funext kind
  rw [isMarked, isMarked, h.get?_attributes proper (name_not_mem_fields kind)]

theorem Reread.undecided (hundecided : node.Undecided) : node'.Undecided := by
  refine ⟨?_, fun kind hkind => ?_⟩
  · rw [h.get?_attributes proper (by decide)]
    exact hundecided.1
  · rw [h.get?_attributes proper (name_not_mem_fields kind)]
    exact hundecided.2 kind hkind

/-- A state that is read again is of the category that it was of, unless it is undecided and its
raw states have become nested ones. -/
theorem Reread.kind?_eq (hsame : ¬(node.KeepsRawStates ∧ node.Undecided)) :
    node'.kind? = node.kind? := by
  by_cases hundecided : node.Undecided
  · have hkeeps : ¬node.KeepsRawStates := fun hkeeps => hsame ⟨hkeeps, hundecided⟩
    rw [(h.undecided proper hundecided).kind?_eq, hundecided.kind?_eq,
      h.structuralKind_eq proper hkeeps]
  · exact kind?_eq_of_decided hundecided (h.get?_attributes proper (by decide))
      (h.isMarked_eq proper)

/-- A state that is read again is seen again. -/
theorem Reread.seenAgain : node.SeenAgain node' := by
  constructor
  · intro hsame
    have hkind := h.kind?_eq proper hsame
    refine ⟨hkind, ?_⟩
    rw [hasChildStates, hasChildStates, hkind]
  · constructor
    · rintro ⟨hatomic, hcompound⟩
      by_contra hsame
      rw [h.kind?_eq proper hsame, hatomic] at hcompound
      cases hcompound
    · rintro ⟨hkeeps, hundecided⟩
      obtain ⟨hatomic, hcompound⟩ := h.structuralKind_of_keepsRawStates proper hkeeps
      rw [hundecided.kind?_eq, (h.undecided proper hundecided).kind?_eq, hatomic, hcompound]
      exact ⟨rfl, rfl⟩

end Reread

/-! ## 3. The states under a path, read again -/

section Paths

variable {states states' : Option StateTable}
  (h : Option.Rel (OrderedMap.Alike Reread) states states')
  (proper : EverywhereIn (fun node => node.Separate ∧ node.Tidy) states)
include h proper

/-- Under each id there are a state and what is read again of it, or there is neither. -/
theorem rel_get?_of_alike (id : String) :
    Option.Rel (fun node node' => node.Reread node' ∧
        node.Everywhere fun node => node.Separate ∧ node.Tidy)
      (states.bind (OrderedMap.get? · id)) (states'.bind (OrderedMap.get? · id)) := by
  cases h with
  | none => exact .none
  | @some table table' halike =>
      have hproper := everywhereAmong_iff.mp proper
      have hboth : OrderedMap.Alike (fun node node' => node.Reread node' ∧
          node.Everywhere fun node => node.Separate ∧ node.Tidy) table table' :=
        halike.imp_of_mem fun entry hentry _ hread => ⟨hread, hproper entry hentry⟩
      exact hboth.get? id

/-- A path that leads to a state leads to what is read again of it. -/
theorem exists_lookup?_of_reread {path : List String} {node : StateNode}
    (hnode : StateTable.lookup? states path = some node) :
    ∃ node', StateTable.lookup? states' path = some node' ∧ node.Reread node' ∧
      node.Everywhere fun node => node.Separate ∧ node.Tidy := by
  induction path generalizing states states' with
  | nil => cases hnode
  | cons id path ih =>
      have hrel := rel_get?_of_alike h proper id
      cases path with
      | nil =>
          rw [StateTable.lookup?] at hnode ⊢
          rw [hnode] at hrel
          generalize states'.bind (OrderedMap.get? · id) = node'? at hrel ⊢
          cases hrel with
          | @some _ node' hread => exact ⟨node', rfl, hread⟩
      | cons next rest =>
          have hne := List.cons_ne_nil next rest
          rw [StateTable.lookup?_cons _ _ hne] at hnode ⊢
          obtain ⟨first, hfirst, hnode⟩ := Option.bind_eq_some_iff.mp hnode
          rw [hfirst] at hrel
          generalize states'.bind (OrderedMap.get? · id) = first'? at hrel ⊢
          cases hrel with
          | @some _ first' hread =>
              -- where a path goes on there are nested states, and they are read entry by entry
              obtain ⟨entry, others, hstates⟩ :=
                StateTable.exists_eq_cons_of_lookup? (Option.isSome_of_eq_some hnode)
              obtain ⟨table', hstates', halike⟩ := hread.1.states_of_some hread.2 hstates
              have hnested := (everywhere_iff.mp hread.2).2
              rw [hstates] at hnode hnested
              rw [Option.bind_some, hstates']
              exact ih (.some halike) hnested hnode

/-- Where a path leads to a state that is read, it led to a state before, or into the raw states
among the attributes of one. -/
theorem lookup?_or_raw_of_reread {path : List String}
    (hpath : (StateTable.lookup? states' path).isSome) :
    (StateTable.lookup? states path).isSome ∨
      ∃ initial rest node, path = initial ++ rest ∧ rest ≠ [] ∧
        StateTable.lookup? states initial = some node ∧ node.KeepsRawStates := by
  induction path generalizing states states' with
  | nil => cases hpath
  | cons id path ih =>
      have hrel := rel_get?_of_alike h proper id
      generalize hfirst : states.bind (OrderedMap.get? · id) = first?,
        hfirst' : states'.bind (OrderedMap.get? · id) = first'? at hrel
      cases path with
      | nil =>
          rw [StateTable.lookup?, hfirst'] at hpath
          rw [StateTable.lookup?, hfirst]
          cases hrel with
          | none => cases hpath
          | some hread => exact .inl rfl
      | cons next rest =>
          have hne := List.cons_ne_nil next rest
          rw [StateTable.lookup?_cons _ _ hne, hfirst'] at hpath
          cases hrel with
          | none => cases hpath
          | @some first first' hread =>
              rw [Option.bind_some] at hpath
              cases hstates : first.states with
              | none =>
                  obtain ⟨entry, others, htable⟩ := StateTable.exists_eq_cons_of_lookup? hpath
                  rw [hread.1.states_of_none hread.2 hstates] at htable
                  exact .inr ⟨[id], next :: rest, first, rfl, hne, hfirst,
                    keepsRawStates_of_read htable⟩
              | some table =>
                  obtain ⟨table', hstates', halike⟩ := hread.1.states_of_some hread.2 hstates
                  have hnested := (everywhere_iff.mp hread.2).2
                  rw [hstates] at hnested
                  rw [hstates'] at hpath
                  rcases ih (.some halike) hnested hpath with
                    hfound | ⟨initial, others, node, heq, hothers, hnode, hraw⟩
                  · left
                    rw [StateTable.lookup?_cons _ _ hne, hfirst, Option.bind_some, hstates]
                    exact hfound
                  · refine .inr ⟨id :: initial, others, node, ?_, hothers, ?_, hraw⟩
                    · rw [heq, List.cons_append]
                    · exact StateTable.lookup?_cons_of_some hfirst (hstates ▸ hnode)

end Paths

end StateNode

/-! ## 4. Configurations -/

/-- Where a machine has no states, no extra member could be read as such. -/
theorem Compile.bind_tableOfJson?_of_states_eq_none {attributes : Attributes}
    {options : OptionsRecord} {folded : Option StateTable}
    (h : (assembleConfig attributes options folded).states = none) :
    ((assembleConfig attributes options folded).extra.get? "states").bind StateNode.tableOfJson?
      = none := by
  have hstates : machineStates? folded (rawMembers attributes options) = none := h
  have hextra : (assembleConfig attributes options folded).extra
      = (rawMembers attributes options).without ["id", "context", "initial", "type"] := by
    simp only [assembleConfig, hstates]
    rfl
  rw [hextra, OrderedMap.get?_without, if_neg (by decide)]
  exact (Option.or_eq_none_iff.mp hstates).2

namespace MachineConfig

/-- What is read again of the states of a configuration. -/
theorem rel_states_of_ofJson? {config config' : MachineConfig} (separate : config.Separate)
    (tidy : config.Tidy)
    (unreadable : config.states = none →
      (config.extra.get? "states").bind StateNode.tableOfJson? = none)
    (h : ofJson? config.toJson = some config') :
    Option.Rel (OrderedMap.Alike StateNode.Reread) config.states config'.states := by
  rw [tidy.toJson_eq_written separate, written, ofJson?] at h
  obtain ⟨_, -, h⟩ := Option.bind_eq_some_iff.mp h
  obtain ⟨states, hstates, h⟩ := Option.bind_eq_some_iff.mp h
  cases h
  rw [members_eq] at hstates
  obtain ⟨hsome, hnone⟩ := StateNode.states_of_readField? config.distinct_fieldValues
    (by simp [fieldValues]) separate.states tidy.states hstates
  show Option.Rel _ config.states states
  cases hconfig : config.states with
  | none =>
      rw [hnone hconfig, unreadable hconfig]
      exact .none
  | some table =>
      obtain ⟨table', rfl, halike⟩ := hsome table hconfig
      exact .some halike

/-- What looking into a configuration shows, and what looking into the one that is read from what
is written for it. -/
structure SeenAgain (config config' : MachineConfig) : Prop where
  /-- Under the path of a state there is a state that looks as it did, but for raw states. -/
  kept : ∀ path node, config.state? path = some node →
    ∃ node', config'.state? path = some node' ∧ node.SeenAgain node'
  /-- Behind the path of a state with raw states among its attributes there are the states that are
  read from these. -/
  raw : ∀ initial node value, config.state? initial = some node →
    OrderedMap.get? node.attributes "states" = some value → ∀ rest, rest ≠ [] →
      config'.state? (initial ++ rest) = StateTable.lookup? (StateNode.tableOfJson? value) rest
  /-- No other path leads to a state. -/
  only : ∀ path, (config'.state? path).isSome → (config.state? path).isSome ∨
    ∃ initial rest node, path = initial ++ rest ∧ rest ≠ [] ∧
      config.state? initial = some node ∧ node.KeepsRawStates
  /-- So where no state has raw states among its attributes, looking shows the same. -/
  same : (∀ path node, config.state? path = some node → ¬node.KeepsRawStates) →
    ∀ path, Option.Rel StateNode.SameCategory (config.state? path) (config'.state? path)

/-- States that are read again are seen again. -/
theorem seenAgain_of_rel {config config' : MachineConfig}
    (h : Option.Rel (OrderedMap.Alike StateNode.Reread) config.states config'.states)
    (proper : StateNode.EverywhereIn (fun node => node.Separate ∧ node.Tidy) config.states) :
    config.SeenAgain config' := by
  have hkept : ∀ path node, config.state? path = some node →
      ∃ node', config'.state? path = some node' ∧ node.SeenAgain node' := by
    intro path node hnode
    obtain ⟨node', hnode', hread, heverywhere⟩ :=
      StateNode.exists_lookup?_of_reread h proper hnode
    exact ⟨node', hnode', hread.seenAgain heverywhere⟩
  have honly : ∀ path, (config'.state? path).isSome → (config.state? path).isSome ∨
      ∃ initial rest node, path = initial ++ rest ∧ rest ≠ [] ∧
        config.state? initial = some node ∧ node.KeepsRawStates :=
    fun path => StateNode.lookup?_or_raw_of_reread h proper
  refine ⟨hkept, ?raw, honly, ?same⟩
  case raw =>
    intro initial node value hnode hvalue rest hrest
    obtain ⟨node', hnode', hread, heverywhere⟩ :=
      StateNode.exists_lookup?_of_reread h proper hnode
    have hinitial : initial ≠ [] := by
      rintro rfl
      cases hnode
    have hnone := (StateNode.everywhere_iff.mp heverywhere).1.1.states_eq_none hvalue
    rw [state?, StateTable.lookup?_append _ hinitial hrest, hnode', Option.bind_some,
      hread.states_of_none heverywhere hnone, hvalue, Option.bind_some]
  case same =>
    intro hraw path
    cases hnode : config.state? path with
    | some node =>
        obtain ⟨node', hnode', hseen⟩ := hkept path node hnode
        rw [hnode']
        exact .some (hseen.same fun hkeeps => hraw path node hnode hkeeps.1)
    | none =>
        cases hnode' : config'.state? path with
        | none => exact .none
        | some node' =>
            rcases honly path (Option.isSome_of_eq_some hnode') with
              hfound | ⟨initial, rest, node, -, -, hinitial, hkeeps⟩
            · rw [hnode] at hfound
              cases hfound
            · exact absurd hkeeps (hraw initial node hinitial)

end MachineConfig

/-- What plain markup builds has no states only where none could be read. -/
theorem Compiler.unreadable_of_build {compiler : Compiler Blueprint}
    (blueprint : compiler.construct = Blueprint.mk) {root : Element Blueprint} (plain : root.Plain)
    {machine : Blueprint} (built : (compiler.build root).result = .ok machine)
    (none : machine.config.states = none) :
    (machine.config.extra.get? "states").bind StateNode.tableOfJson? = .none := by
  obtain ⟨attributes, children, fragments, rfl, -, -, -, rfl⟩ := inv_of_build plain built
  rw [blueprint] at none ⊢
  exact Compile.bind_tableOfJson?_of_states_eq_none none

/-- **Looking into a machine before and after it is written.** Where a configuration that plain
markup builds can be read from what is written for it, every path that led to a state leads to one
of the same category, and no other path leads to a state; but for the raw states that some state
keeps among its attributes: they are states only where they are read, and the state that keeps them
is compound there instead of atomic, unless an attribute of it decides. -/
theorem introspection_survives_json (compiler : Compiler Blueprint)
    (blueprint : compiler.construct = Blueprint.mk) {root : Element Blueprint} (plain : root.Plain)
    (distinct : root.Distinct) {machine : Blueprint}
    (built : (compiler.build root).result = .ok machine) {config' : MachineConfig}
    (read : MachineConfig.ofJson? machine.config.toJson = some config') :
    machine.config.SeenAgain config' := by
  obtain ⟨hseparate, htidy⟩ := Compiler.settled_of_build blueprint plain distinct built
  have hstates := MachineConfig.rel_states_of_ofJson? hseparate htidy
    (Compiler.unreadable_of_build blueprint plain built) read
  exact MachineConfig.seenAgain_of_rel hstates (hseparate.nested.and htidy.nested)

/-- A machine with two states that keep raw states among their attributes, of which the second has a
type as well, and with a third state that has a state of its own. -/
def rawNestedMarkup : Element Blueprint :=
  (Element.machine "m" "a").childElements
    [(Element.state "a").attr "states" (.obj [("b", .obj [])]),
      ((Element.state "c").attr "states" (.obj [("d", .obj [])])).attr "type" (.str "final"),
      (Element.state "e").child (.state "f")]

theorem plain_rawNestedMarkup : rawNestedMarkup.Plain := by
  simp [rawNestedMarkup]

theorem distinct_rawNestedMarkup : rawNestedMarkup.Distinct := by
  simp [rawNestedMarkup]

theorem introspection_survives_json_rawNestedMarkup :
    ∃ machine config', (Compiler.blueprint.build rawNestedMarkup).result = .ok machine ∧
      MachineConfig.ofJson? machine.config.toJson = some config' ∧
      machine.config.SeenAgain config' :=
  ⟨_, _, rfl, rfl, introspection_survives_json Compiler.blueprint rfl plain_rawNestedMarkup
    distinct_rawNestedMarkup rfl rfl⟩

/-- Below the first state there is another only where the configuration is read again, and there
the first state is compound and no longer atomic. -/
theorem raw_states_come_to_light :
    ∃ machine config', rawNestedMarkup.Plain ∧ rawNestedMarkup.Distinct ∧
      (Compiler.blueprint.build rawNestedMarkup).result = .ok machine ∧
      MachineConfig.ofJson? machine.config.toJson = some config' ∧
      machine.config.state? ["a", "b"] = none ∧ (config'.state? ["a", "b"]).isSome ∧
      (machine.config.state? ["a"]).map StateNode.kind? = some (some .atomic) ∧
      (config'.state? ["a"]).map StateNode.kind? = some (some .compound) ∧
      (machine.config.state? ["a"]).map StateNode.hasChildStates = some false ∧
      (config'.state? ["a"]).map StateNode.hasChildStates = some true :=
  ⟨_, _, plain_rawNestedMarkup, distinct_rawNestedMarkup, rfl, rfl, rfl, rfl, rfl, rfl, rfl, rfl⟩

end Statechart
