/-
`Proofs/Folds.lean` -- what the folds of siblings hold, and what the checks ask for.

A keyed fold holds under each key the last value that came with it. Where every value has a key and
no key comes twice, it holds the values themselves, in their order. The checks ask for just that,
and for at most one invoke block.
-/
import Mathlib.Data.List.Nodup
import Statechart.Options.Leading
import Statechart.Siblings.Check
import Statechart.Proofs.Counts
import Statechart.Proofs.Tables

set_option autoImplicit false

namespace Statechart.Siblings

variable {α : Type}

/-! ## 1. What a keyed fold holds -/

theorem nonempty?_eq_none_iff {table : OrderedMap α} : nonempty? table = none ↔ table = [] := by
  cases table with
  | nil => exact ⟨fun _ => rfl, fun _ => rfl⟩
  | cons entry rest => exact ⟨nofun, nofun⟩

theorem getD_nonempty? (table : OrderedMap α) : (nonempty? table).getD [] = table := by
  cases table with
  | nil => rfl
  | cons entry rest => rfl

/-- An empty table holds as little as none. -/
theorem bind_nonempty?_get? (table : OrderedMap α) (key : String) :
    (nonempty? table).bind (OrderedMap.get? · key) = table.get? key := by
  cases table with
  | nil => rfl
  | cons entry rest => rfl

theorem get?_keyed (entries : List (Option String × α)) (key : String) :
    OrderedMap.get? (keyed entries) key
      = (entries.find? fun entry => entry.1 == some key).map Prod.snd := by
  induction entries with
  | nil => rfl
  | cons entry rest ih =>
      obtain ⟨key?, value⟩ := entry
      cases key? with
      | none =>
          rw [List.find?_cons_of_neg (by simp)]
          exact ih
      | some k =>
          show OrderedMap.get? ((k, value) :: keyed rest) key = _
          rw [OrderedMap.get?_cons]
          by_cases h : k = key
          · rw [if_pos h, List.find?_cons_of_pos (by simp [h])]
            rfl
          · rw [if_neg h, List.find?_cons_of_neg (by simp [h]), ih]

/-- The table of the entries that have a key holds the last value of each key. -/
theorem get?_ofBindings_keyed (entries : List (Option String × α)) (key : String) :
    OrderedMap.get? (OrderedMap.ofBindings (keyed entries)) key
      = (entries.reverse.find? fun entry => entry.1 == some key).map Prod.snd := by
  have hreverse : (keyed entries).reverse = keyed entries.reverse := List.filterMap_reverse.symm
  rw [OrderedMap.get?_ofBindings, hreverse, get?_keyed]

/-- A keyed fold holds the last value of each key. -/
theorem get?_mergeKeyed (skipped : Notice) (replaced : String → Notice)
    (entries : List (Option String × α)) (key : String) :
    (mergeKeyed skipped replaced entries).value.bind (OrderedMap.get? · key)
      = (entries.reverse.find? fun entry => entry.1 == some key).map Prod.snd := by
  rw [value_mergeKeyed, bind_nonempty?_get?, get?_ofBindings_keyed]

/-- No entry is kept exactly where none has a key. -/
theorem keyed_eq_nil_iff {entries : List (Option String × α)} :
    keyed entries = [] ↔ ∀ entry ∈ entries, entry.1 = none := by
  rw [keyed, List.filterMap_eq_nil_iff]
  refine forall₂_congr fun entry _ => ?_
  rw [Option.map_eq_none_iff]

theorem ofBindings_eq_nil_iff {bindings : List (String × α)} :
    OrderedMap.ofBindings bindings = [] ↔ bindings = [] := by
  constructor
  · intro h
    cases bindings with
    | nil => rfl
    | cons entry rest =>
        -- the first key is a key of the table
        have hkeys := OrderedMap.keys_ofBindings (entry :: rest)
        rw [h, OrderedMap.keys, OrderedMap.keys, List.map_cons, List.eraseDups_cons] at hkeys
        exact absurd hkeys.symm (List.cons_ne_nil _ _)
  · rintro rfl
    rfl

/-- Where an entry has a key, a keyed fold comes to the table of the entries that have one. -/
theorem value_mergeKeyed_of_key {entries : List (Option String × α)}
    (h : ∃ entry ∈ entries, entry.1.isSome) (skipped : Notice) (replaced : String → Notice) :
    (mergeKeyed skipped replaced entries).value
      = some (OrderedMap.ofBindings (keyed entries)) := by
  obtain ⟨entry, hentry, hkey⟩ := h
  rw [value_mergeKeyed]
  cases htable : OrderedMap.ofBindings (keyed entries) with
  | nil =>
      have hnone := keyed_eq_nil_iff.mp (ofBindings_eq_nil_iff.mp htable) entry hentry
      exact absurd hkey (by rw [hnone, Option.isSome_none]; exact Bool.false_ne_true)
  | cons first rest => rfl

/-- Where no entry has a key, a keyed fold comes to nothing. -/
theorem value_mergeKeyed_of_no_key {entries : List (Option String × α)}
    (h : ¬∃ entry ∈ entries, entry.1.isSome) (skipped : Notice) (replaced : String → Notice) :
    (mergeKeyed skipped replaced entries).value = none := by
  have hkeyed : keyed entries = [] := by
    refine keyed_eq_nil_iff.mpr fun entry hentry => Option.not_isSome_iff_eq_none.mp fun hkey => ?_
    exact h ⟨entry, hentry, hkey⟩
  rw [value_mergeKeyed, hkeyed]
  rfl

/-- Under an id stands the last state with that id. -/
theorem get?_mergeStates (children : List Fragment) (id : String) :
    (mergeStates children).value.bind (OrderedMap.get? · id)
      = (states children).reverse.find? fun node => node.id == some id := by
  rw [mergeStates, get?_mergeKeyed, ← List.map_reverse, List.find?_map, Option.map_map]
  exact Option.map_id_apply

/-- Where a state has an id, the states come to a table. -/
theorem exists_mergeStates_of_id {children : List Fragment}
    (h : ∃ node ∈ states children, node.id.isSome) :
    ∃ table, (mergeStates children).value = some table := by
  obtain ⟨node, hnode, hid⟩ := h
  refine ⟨_, value_mergeKeyed_of_key ⟨(node.id, node), ?_, hid⟩ _ _⟩
  exact List.mem_map_of_mem hnode

/-- States without ids fill no table. -/
theorem mergeStates_eq_none {children : List Fragment}
    (h : ∀ node ∈ states children, node.id = none) : (mergeStates children).value = none := by
  refine value_mergeKeyed_of_no_key ?_ _ _
  rintro ⟨_, hentry, hkey⟩
  obtain ⟨node, hnode, rfl⟩ := List.mem_map.mp hentry
  rw [h node hnode] at hkey
  cases hkey

/-- No table of states is empty. -/
theorem mergeStates_ne_some_nil (children : List Fragment) :
    (mergeStates children).value ≠ some [] := by
  intro h
  rw [mergeStates, value_mergeKeyed] at h
  generalize OrderedMap.ofBindings _ = table at h
  cases table with
  | nil => cases h
  | cons entry rest => cases h

/-! ## 2. Unique keys -/

/-- Every key is there, and none of them comes twice. -/
def UniqueKeys (keys : List (Option String)) : Prop :=
  ∃ found : List String, keys = found.map some ∧ found.Nodup

theorem uniqueKeys_nil : UniqueKeys [] := ⟨[], rfl, List.nodup_nil⟩

/-- A new key in front keeps keys unique. -/
theorem UniqueKeys.cons {keys : List (Option String)} (h : UniqueKeys keys) {key : String}
    (hnew : some key ∉ keys) : UniqueKeys (some key :: keys) := by
  obtain ⟨found, rfl, hnodup⟩ := h
  refine ⟨key :: found, rfl, List.nodup_cons.mpr ⟨?_, hnodup⟩⟩
  intro hmem
  exact hnew (List.mem_map_of_mem hmem)

/-- Where every key is there, the keys that are there are all the keys. -/
theorem map_some_filterMap_id {keys : List (Option String)} (h : none ∉ keys) :
    (keys.filterMap id).map some = keys := by
  induction keys with
  | nil => rfl
  | cons key? rest ih =>
      rw [List.mem_cons, not_or] at h
      cases key? with
      | none => exact absurd rfl h.1
      | some key => exact congrArg (some key :: ·) (ih h.2)

/-- Unique keys are present and distinct. -/
theorem uniqueKeys_iff {keys : List (Option String)} :
    UniqueKeys keys ↔ none ∉ keys ∧ keys.Nodup := by
  constructor
  · rintro ⟨found, rfl, hnodup⟩
    exact ⟨by simp, (List.nodup_map_iff fun _ _ => Option.some.inj).mpr hnodup⟩
  · rintro ⟨hpresent, hnodup⟩
    have hall := map_some_filterMap_id hpresent
    refine ⟨keys.filterMap id, hall.symm, ?_⟩
    rw [← hall] at hnodup
    exact (List.nodup_map_iff fun _ _ => Option.some.inj).mp hnodup

/-- The keys that are there. -/
theorem keys_keyed (entries : List (Option String × α)) :
    OrderedMap.keys (keyed entries) = (entries.map Prod.fst).filterMap id := by
  induction entries with
  | nil => rfl
  | cons entry rest ih =>
      obtain ⟨key?, value⟩ := entry
      cases key? with
      | none => exact ih
      | some key => exact congrArg (key :: ·) ih

/-- Nothing is lost where keys are unique: the fold holds the values in their order. -/
theorem UniqueKeys.value_mergeKeyed {entries : List (Option String × α)}
    (h : UniqueKeys (entries.map Prod.fst)) (skipped : Notice) (replaced : String → Notice) :
    (mergeKeyed skipped replaced entries).value = nonempty? (keyed entries) := by
  obtain ⟨found, hfound, hnodup⟩ := h
  -- the keys that are there are all the keys, and a run with distinct keys is its own table
  have hdistinct : OrderedMap.Distinct (keyed entries) := by
    rw [OrderedMap.Distinct, keys_keyed, hfound, List.filterMap_map]
    rwa [show (id ∘ some : String → Option String) = some from rfl, List.filterMap_some]
  rw [Siblings.value_mergeKeyed, hdistinct.ofBindings_eq]

/-- Where keys are unique, each entry of the list stands in the table with its key. -/
theorem UniqueKeys.forall₂_keyed {entries : List (Option String × α)}
    (h : UniqueKeys (entries.map Prod.fst)) :
    List.Forall₂ (fun entry kept => entry = (some kept.1, kept.2)) entries (keyed entries) := by
  obtain ⟨found, hfound, -⟩ := h
  induction entries generalizing found with
  | nil => exact .nil
  | cons entry rest ih =>
      obtain ⟨key?, value⟩ := entry
      cases found with
      | nil => exact absurd hfound nofun
      | cons key others =>
          obtain ⟨rfl, hothers⟩ : key? = some key ∧ rest.map Prod.fst = others.map some :=
            List.cons.inj hfound
          exact .cons rfl (ih others hothers)

/-! ## 3. Checks that find nothing -/

theorem repeated_eq_nil_iff {keys : List String} : repeated keys = [] ↔ keys.Nodup := by
  -- a key is counted once for each time it comes, and only those that come are counted
  rw [repeated, counts_eq, List.filter_eq_nil_iff, List.nodup_iff_count_le_one]
  constructor
  · intro h key
    by_cases hmem : key ∈ keys
    · have := h (key, keys.count key)
        (List.mem_map_of_mem (List.mem_eraseDups.mpr hmem))
      simpa using this
    · rw [List.count_eq_zero_of_not_mem hmem]
      exact Nat.zero_le 1
  · intro h entry hentry
    obtain ⟨key, -, rfl⟩ := List.mem_map.mp hentry
    simpa using h key

theorem keyViolations_eq_nil_iff {missing : Violation} {duplicate : String → Nat → Violation}
    {keys : List (Option String)} :
    keyViolations missing duplicate keys = [] ↔ UniqueKeys keys := by
  rw [keyViolations, List.append_eq_nil_iff, List.map_eq_nil_iff, List.map_eq_nil_iff,
    repeated_eq_nil_iff, List.filter_eq_nil_iff]
  constructor
  · rintro ⟨hpresent, hnodup⟩
    have hnone : none ∉ keys := fun hmem => hpresent none hmem rfl
    exact ⟨keys.filterMap id, (map_some_filterMap_id hnone).symm, hnodup⟩
  · rintro ⟨found, rfl, hnodup⟩
    refine ⟨?_, ?_⟩
    · intro key? hmem
      obtain ⟨key, -, rfl⟩ := List.mem_map.mp hmem
      simp
    · rwa [List.filterMap_map, show (id ∘ some : String → Option String) = some from rfl,
        List.filterMap_some]

/-- The checks of a state find nothing exactly where ids and events are unique and there is at most
one invoke block. -/
theorem violations_stateChecks_eq_nil_iff {children : List Fragment} :
    violations stateChecks children = [] ↔
      UniqueKeys (stateIds children) ∧ UniqueKeys (events children) ∧
        (invokes children).length ≤ 1 := by
  have hinvoke : singleInvoke children = [] ↔ (invokes children).length ≤ 1 := by
    simp [singleInvoke]
  simp only [violations, stateChecks, List.flatMap_cons, List.flatMap_nil, List.append_nil,
    List.append_eq_nil_iff, uniqueStateIds, uniqueEvents, keyViolations_eq_nil_iff, hinvoke]

/-! ## 4. Children that are no options records -/

/-- Taking the options records away takes no state away. -/
theorem states_withoutOptions (children : List Fragment) :
    states (SplitChildren.withoutOptions children) = states children := by
  rw [states, SplitChildren.withoutOptions, List.filterMap_filter]
  refine List.filterMap_congr fun child _ => ?_
  cases child <;> rfl

/-- The check of a machine looks at states only. -/
theorem violations_machineChecks_congr {left right : List Fragment} (h : states left = states right) :
    violations machineChecks left = violations machineChecks right := by
  simp only [violations, machineChecks, uniqueStateIds, stateIds, List.flatMap_cons,
    List.flatMap_nil, h]

theorem mergeStates_congr {left right : List Fragment} (h : states left = states right) :
    mergeStates left = mergeStates right := by
  rw [mergeStates, mergeStates, h]

/-- A machine folds the states of all its children. -/
theorem mergeStates_withoutOptions (children : List Fragment) :
    mergeStates (SplitChildren.withoutOptions children) = mergeStates children :=
  mergeStates_congr (states_withoutOptions children)

/-- The check of a machine finds nothing exactly where ids are unique. -/
theorem violations_machineChecks_eq_nil_iff {children : List Fragment} :
    violations machineChecks (SplitChildren.withoutOptions children) = [] ↔
      UniqueKeys (stateIds children) := by
  simp only [violations, machineChecks, List.flatMap_cons, List.flatMap_nil, List.append_nil,
    uniqueStateIds, keyViolations_eq_nil_iff]
  rw [stateIds, states_withoutOptions, stateIds]

end Statechart.Siblings
