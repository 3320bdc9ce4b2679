/-
`Proofs/Equality.lean` -- equality up to the order of tables.

Two tables are equal when they hold equal values under the same keys, wherever their entries stand.
A value is equal to itself if nothing in it is repeated. Laying records over each other and taking
members away repeats nothing, and neither does anything that is read from JSON.
-/
import Statechart.Json.Lemmas
import Statechart.StateNode.Written
import Statechart.Proofs.Folds

set_option autoImplicit false

namespace Statechart

/-! ## 1. Tables -/

namespace OrderedMap

variable {α β : Type}

/-- Tables that hold values under the same keys have the same keys in some order. -/
theorem Distinct.keys_perm {rel : α → β → Prop} {left : OrderedMap α} {right : OrderedMap β}
    (hleft : left.Distinct) (hright : right.Distinct)
    (h : ∀ key, Option.Rel rel (left.get? key) (right.get? key)) : left.keys.Perm right.keys := by
  refine (List.perm_ext_iff_of_nodup hleft hright).mpr fun key => ?_
  rw [← isSome_get?_iff, ← isSome_get?_iff, isSome_eq_of_rel (h key)]

/-- So they have the same size. -/
theorem Distinct.length_eq {rel : α → β → Prop} {left : OrderedMap α} {right : OrderedMap β}
    (hleft : left.Distinct) (hright : right.Distinct)
    (h : ∀ key, Option.Rel rel (left.get? key) (right.get? key)) : left.length = right.length := by
  simpa [keys] using (hleft.keys_perm hright h).length_eq

/-- Tables are equal where they hold equal values under the same keys. -/
theorem Distinct.same_of_get? {eq : α → α → Bool} {left right : OrderedMap α}
    (hleft : left.Distinct) (hright : right.Distinct)
    (h : ∀ key, Option.Rel (fun a b => eq a b = true) (left.get? key) (right.get? key)) :
    same eq left right = true := by
  rw [same, Bool.and_eq_true, beq_iff_eq, List.all_eq_true]
  refine ⟨hleft.length_eq hright h, fun entry hentry => ?_⟩
  have hrel := h entry.1
  rw [hleft.get?_of_mem hentry] at hrel
  obtain ⟨value, hvalue, hsame⟩ := exists_of_rel_some hrel
  rw [hvalue]
  exact hsame

/-- A table whose values are equal to themselves is equal to itself. -/
theorem Distinct.same_self {eq : α → α → Bool} {table : OrderedMap α} (h : table.Distinct)
    (hvalues : ∀ entry ∈ table, eq entry.2 entry.2 = true) : same eq table table = true := by
  refine h.same_of_get? h fun key => ?_
  generalize hfound : table.get? key = found
  cases found with
  | none => exact .none
  | some value => exact .some (hvalues (key, value) (mem_of_get? hfound))

/-- What stands in a table after a run stood in it before or was written. -/
theorem Distinct.mem_extend {table extra : OrderedMap α} (h : table.Distinct)
    {entry : String × α} (hentry : entry ∈ table.extend extra) : entry ∈ table ∨ entry ∈ extra := by
  have hget := (h.extend extra).get?_of_mem hentry
  rw [get?_extend, Option.or_eq_some_iff] at hget
  rcases hget with hextra | ⟨-, htable⟩
  · exact .inr (List.mem_reverse.mp (mem_of_get? hextra))
  · exact .inl (mem_of_get? htable)

end OrderedMap

theorem sameOption_self {α : Type} {eq : α → α → Bool} {value : Option α}
    (h : ∀ a, value = some a → eq a a = true) : sameOption eq value value = true := by
  cases value with
  | none => rfl
  | some a => exact h a rfl

/-- Of two equal optional values both are present or none is. -/
theorem isSome_eq_of_sameOption {α : Type} {eq : α → α → Bool} {a b : Option α}
    (h : sameOption eq a b = true) : a.isSome = b.isSome := by
  cases a with
  | none =>
      cases b with
      | none => rfl
      | some _ => exact absurd h nofun
  | some _ =>
      cases b with
      | none => exact absurd h nofun
      | some _ => rfl

/-- Keyed folds are equal where they hold equal values under the same keys. -/
theorem Siblings.same_mergeKeyed {α : Type} {eq : α → α → Bool} (skipped : Notice)
    (replaced : String → Notice) {left right : List (Option String × α)}
    (h : ∀ key, Option.Rel (fun a b => eq a b = true)
      ((left.reverse.find? fun entry => entry.1 == some key).map Prod.snd)
      ((right.reverse.find? fun entry => entry.1 == some key).map Prod.snd)) :
    sameOption (OrderedMap.same eq) (mergeKeyed skipped replaced left).value
      (mergeKeyed skipped replaced right).value = true := by
  -- a keyed fold holds the last value of each key
  have hget : ∀ key, Option.Rel (fun a b => eq a b = true)
      (OrderedMap.get? (OrderedMap.ofBindings (keyed left)) key)
      (OrderedMap.get? (OrderedMap.ofBindings (keyed right)) key) := by
    intro key
    rw [get?_ofBindings_keyed, get?_ofBindings_keyed]
    exact h key
  have hsame := (OrderedMap.distinct_ofBindings (keyed left)).same_of_get?
    (OrderedMap.distinct_ofBindings (keyed right)) hget
  have hlength := (OrderedMap.distinct_ofBindings (keyed left)).length_eq
    (OrderedMap.distinct_ofBindings (keyed right)) hget
  rw [value_mergeKeyed, value_mergeKeyed]
  generalize OrderedMap.ofBindings (keyed left) = table at hsame hlength ⊢
  generalize OrderedMap.ofBindings (keyed right) = table' at hsame hlength ⊢
  -- one of them is empty only where the other is
  cases table with
  | nil =>
      cases table' with
      | nil => rfl
      | cons _ _ => cases hlength
  | cons _ _ =>
      cases table' with
      | nil => cases hlength
      | cons _ _ => exact hsame

/-! ## 2. Records -/

namespace Json

theorem Distinct.of_get? {members : Attributes} (h : (obj members).Distinct) {key : String}
    {value : Json} (found : members.get? key = some value) : value.Distinct :=
  (distinct_obj_iff.mp h).2 _ (OrderedMap.mem_of_get? found)

/-- Taking members away repeats nothing. -/
theorem Distinct.without {members : Attributes} (h : (obj members).Distinct)
    (dropped : List String) : (obj (members.without dropped)).Distinct := by
  obtain ⟨hkeys, hvalues⟩ := distinct_obj_iff.mp h
  exact distinct_obj_iff.mpr ⟨hkeys.without dropped,
    fun entry hentry => hvalues entry (List.mem_of_mem_filter hentry)⟩

/-- Laying members over a record repeats nothing. -/
theorem Distinct.extend {members extra : Attributes} (h : (obj members).Distinct)
    (hextra : ∀ entry ∈ extra, entry.2.Distinct) : (obj (members.extend extra)).Distinct := by
  obtain ⟨hkeys, hvalues⟩ := distinct_obj_iff.mp h
  refine distinct_obj_iff.mpr ⟨hkeys.extend extra, fun entry hentry => ?_⟩
  rcases hkeys.mem_extend hentry with hmembers | hmem
  · exact hvalues entry hmembers
  · exact hextra entry hmem

theorem distinct_collapseRecord (members : List (String × Json)) :
    (obj (collapseRecord members)).Distinct :=
  distinct_collapse (.obj members)

end Json

/-- A record that repeats nothing is equal to itself. -/
theorem Attributes.same_self {attributes : Attributes} (h : (Json.obj attributes).Distinct) :
    Attributes.same attributes attributes = true :=
  h.1.same_self fun entry hentry => ((Json.distinct_obj_iff.mp h).2 entry hentry).same_self

/-! ## 3. States -/

namespace StateNode

/-- The equality of tables of states is that of other tables. -/
theorem sameStates_eq (left right : Option StateTable) :
    sameStates left right = sameOption (OrderedMap.same same) left right := by
  cases left with
  | none => cases right <;> rfl
  | some entries =>
      cases right with
      | none => rfl
      | some table =>
          rw [sameStates, sameOption, OrderedMap.same]
          congr 1
          induction entries with
          | nil => rfl
          | cons entry rest ih =>
              obtain ⟨id, node⟩ := entry
              rw [List.all_cons, sameEntries, ih]
              cases OrderedMap.get? table id <;> rfl

/-- States are equal where their parts are. -/
theorem same_of_parts {a b : StateNode} (id : a.id = b.id)
    (entry : sameOption Json.same a.entry b.entry = true)
    (exit : sameOption Json.same a.exit b.exit = true)
    (on : sameOption (OrderedMap.same Transition.same) a.on b.on = true)
    (invoke : sameOption Attributes.same a.invoke b.invoke = true)
    (states : sameStates a.states b.states = true)
    (attributes : Attributes.same a.attributes b.attributes = true) : a.same b = true := by
  obtain ⟨⟩ := a
  simp only [same, Bool.and_eq_true, beq_iff_eq]
  exact ⟨⟨⟨⟨⟨⟨id, entry⟩, exit⟩, on⟩, invoke⟩, states⟩, attributes⟩

/-- Equal states have one id. -/
theorem id_eq_of_same {a b : StateNode} (h : a.same b = true) : a.id = b.id := by
  obtain ⟨⟩ := a
  simp only [same, Bool.and_eq_true, beq_iff_eq] at h
  exact h.1.1.1.1.1.1

end StateNode

/-! ## 4. What is read from JSON -/

/-- What is read from a list of values is read from one of them. -/
theorem exists_of_mapM {α β : Type} {read : α → Option β} {values : List α} {results : List β}
    (h : values.mapM read = some results) :
    ∀ result ∈ results, ∃ value, read value = some result := by
  intro result hresult
  obtain ⟨value, -, hvalue⟩ := exists_of_mem_right (mapM_eq_some_iff.mp h) hresult
  exact ⟨value, hvalue⟩

/-- A collapsed value that is there is equal to itself. -/
theorem sameOption_map_collapse (value : Option Json) :
    sameOption Json.same (value.map Json.collapse) (value.map Json.collapse) = true := by
  refine sameOption_self fun a ha => ?_
  obtain ⟨source, -, rfl⟩ := Option.map_eq_some_iff.mp ha
  exact (Json.distinct_collapse source).same_self

/-- A field that is read is equal to itself where all that its reader reads is. -/
theorem sameOption_readField? {α : Type} {eq : α → α → Bool} {read : Json → Option α}
    (h : ∀ value a, read value = some a → eq a a = true) {value : Option Json} {field : Option α}
    (hread : readField? read value = some field) : sameOption eq field field = true := by
  cases value with
  | none =>
      cases hread
      rfl
  | some value =>
      obtain ⟨a, ha, rfl⟩ := Option.map_eq_some_iff.mp hread
      exact h value a ha

/-- A table that is made of values equal to themselves is equal to itself. -/
theorem OrderedMap.same_ofBindings {α : Type} {eq : α → α → Bool} {bindings : List (String × α)}
    (h : ∀ entry ∈ bindings, eq entry.2 entry.2 = true) :
    same eq (ofBindings bindings) (ofBindings bindings) = true := by
  refine (distinct_ofBindings bindings).same_self fun entry hentry => ?_
  exact h entry (mem_of_mem_ofBindings hentry)

theorem Transition.same_self_of_ofJson? {value : Json} {transition : Transition}
    (h : ofJson? value = some transition) : transition.same transition = true := by
  cases value with
  | obj members =>
      rw [ofJson?] at h
      by_cases hfields : fieldsOnce fields members = true
      · rw [if_pos hfields] at h
        cases h
        rw [Transition.same, Bool.and_eq_true]
        exact ⟨sameOption_map_collapse _, Attributes.same_self (Json.distinct_collapseRecord _)⟩
      · rw [if_neg hfields] at h
        exact absurd h nofun
  | null | bool _ | num _ | str _ | arr _ => exact absurd h nofun

theorem Transition.same_self_of_tableOfJson? (value : Json) (table : TransitionTable)
    (h : tableOfJson? value = some table) :
    OrderedMap.same Transition.same table table = true := by
  cases value with
  | obj members =>
      obtain ⟨entries, hentries, rfl⟩ := Option.map_eq_some_iff.mp h
      refine OrderedMap.same_ofBindings fun entry hentry => ?_
      obtain ⟨member, hmember⟩ := exists_of_mapM hentries entry hentry
      obtain ⟨read, hread, rfl⟩ := Option.map_eq_some_iff.mp hmember
      exact same_self_of_ofJson? hread
  | null | bool _ | num _ | str _ | arr _ => exact absurd h nofun

theorem same_self_of_recordOfJson? (value : Json) (record : Attributes)
    (h : recordOfJson? value = some record) : Attributes.same record record = true := by
  cases value with
  | obj members =>
      cases h
      exact Attributes.same_self (Json.distinct_collapseRecord members)
  | null | bool _ | num _ | str _ | arr _ => exact absurd h nofun

namespace StateNode

/-- The state that members spell is equal to itself if its nested states are. -/
theorem same_self_of_ofMembers? {members : List (String × Json)} {states : Option StateTable}
    (hstates : sameStates states states = true) {node : StateNode}
    (h : ofMembers? members states = some node) : node.same node = true := by
  rw [ofMembers?] at h
  obtain ⟨_, -, h⟩ := Option.bind_eq_some_iff.mp h
  obtain ⟨on, hon, h⟩ := Option.bind_eq_some_iff.mp h
  obtain ⟨invoke, hinvoke, h⟩ := Option.bind_eq_some_iff.mp h
  cases h
  exact same_of_parts rfl (sameOption_map_collapse _) (sameOption_map_collapse _)
    (sameOption_readField? Transition.same_self_of_tableOfJson? hon)
    (sameOption_readField? same_self_of_recordOfJson? hinvoke) hstates
    (Attributes.same_self (Json.distinct_collapseRecord _))

mutual
/-- A state that is read is equal to itself. -/
theorem same_self_of_ofJson? : (value : Json) → {node : StateNode} → ofJson? value = some node →
    node.same node = true
  | .obj members, node, h => by
      rw [ofJson?] at h
      generalize hnested : nestedOfMembers? members = nested at h
      cases nested with
      | none => exact absurd h nofun
      | some states =>
          have hstates := same_self_of_nestedOfMembers? members hnested
          exact same_self_of_ofMembers? hstates h
/-- Its nested states. -/
theorem same_self_of_nestedOfMembers? : (members : List (String × Json)) →
    {states : Option StateTable} → nestedOfMembers? members = some states →
      sameStates states states = true
  | [], _, h => by
      cases h
      rfl
  | (key, value) :: rest, states, h => by
      by_cases hkey : key = "states"
      · subst hkey
        match value, h with
        | .null, h =>
            cases h
            rfl
        | .obj members, h =>
            obtain ⟨entries, hentries, rfl⟩ := Option.map_eq_some_iff.mp h
            rw [sameStates_eq]
            exact OrderedMap.same_ofBindings (same_self_of_tableOfMembers? members hentries)
      · unfold nestedOfMembers? at h
        rw [if_neg hkey] at h
        exact same_self_of_nestedOfMembers? rest h
/-- Entry by entry. -/
theorem same_self_of_tableOfMembers? : (members : List (String × Json)) →
    {entries : List (String × StateNode)} → tableOfMembers? members = some entries →
      ∀ entry ∈ entries, entry.2.same entry.2 = true
  | [], _, h => by
      cases h
      exact nofun
  | (id, value) :: rest, entries, h => by
      rw [tableOfMembers?] at h
      generalize hnode : ofJson? value = node? at h
      generalize hnodes : tableOfMembers? rest = nodes? at h
      match node?, nodes? with
      | some node, some nodes =>
          cases h
          intro entry hentry
          rcases List.mem_cons.mp hentry with rfl | hmem
          · exact same_self_of_ofJson? value hnode
          · exact same_self_of_tableOfMembers? rest hnodes entry hmem
      | some _, none | none, _ => exact absurd h nofun
end

/-- A table of states that is read is equal to itself. -/
theorem same_self_of_tableOfJson? {value : Json} {table : StateTable}
    (h : tableOfJson? value = some table) : OrderedMap.same same table table = true := by
  cases value with
  | obj members =>
      obtain ⟨entries, hentries, rfl⟩ := Option.map_eq_some_iff.mp h
      exact OrderedMap.same_ofBindings (same_self_of_tableOfMembers? members hentries)
  | null | bool _ | num _ | str _ | arr _ => exact absurd h nofun

end StateNode

end Statechart
