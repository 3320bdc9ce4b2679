/-
`OrderedMap/Lemmas.lean` -- what runs of writes leave behind.

A run of bindings written over a table leaves the table's keys where they were, appends the new keys
in order of first arrival, and gives every key its last value. A run with distinct keys is its own
table. These are the facts behind every fold of siblings and every layering of records.
-/
import Statechart.OrderedMap

set_option autoImplicit false

namespace Statechart.OrderedMap

variable {α : Type}

/-! ## 1. Reading -/

/-- A key is looked up in the first part, and then in the second. -/
theorem get?_append (first second : OrderedMap α) (key : String) :
    get? (first ++ second) key = (get? first key).or (get? second key) := by
  induction first with
  | nil => rfl
  | cons entry rest ih =>
      obtain ⟨k, value⟩ := entry
      rw [List.cons_append, get?_cons, get?_cons, ih]
      by_cases h : k = key
      · rw [if_pos h, if_pos h, Option.some_or]
      · rw [if_neg h, if_neg h]

/-- An entry that is found is in the table. -/
theorem mem_of_get? {table : OrderedMap α} {key : String} {value : α}
    (h : table.get? key = some value) : (key, value) ∈ table := by
  induction table with
  | nil => exact absurd h (by simp)
  | cons entry rest ih =>
      obtain ⟨k, first⟩ := entry
      rw [get?_cons] at h
      by_cases hk : k = key
      · rw [if_pos hk, Option.some.injEq] at h
        rw [hk, h]
        exact List.mem_cons_self
      · rw [if_neg hk] at h
        exact List.mem_cons_of_mem _ (ih h)

/-- Where no key repeats, every entry is found. -/
theorem Distinct.get?_of_mem {table : OrderedMap α} (h : table.Distinct) {key : String} {value : α}
    (hm : (key, value) ∈ table) : table.get? key = some value := by
  induction table with
  | nil => exact absurd hm List.not_mem_nil
  | cons entry rest ih =>
      obtain ⟨k, first⟩ := entry
      have hd : k ∉ keys rest ∧ (keys rest).Nodup := List.nodup_cons.mp h
      rcases List.mem_cons.mp hm with heq | hrest
      · obtain ⟨rfl, rfl⟩ := Prod.mk.inj heq
        rw [get?_cons, if_pos rfl]
      · -- the entry stands further back, so its key is not the first one
        have hk : ¬k = key := by
          intro e
          exact hd.1 (e ▸ List.mem_map_of_mem hrest)
        rw [get?_cons, if_neg hk]
        exact ih hd.2 hrest

/-! ## 2. Erasing -/

/-- The keys that are left are the ones that were not dropped, in their order. -/
theorem keys_without (table : OrderedMap α) (dropped : List String) :
    (table.without dropped).keys = table.keys.filter fun key => !dropped.contains key := by
  rw [keys, keys, List.filter_map]
  rfl

/-- Erasing keeps the keys distinct. -/
theorem Distinct.without {table : OrderedMap α} (h : table.Distinct) (dropped : List String) :
    (table.without dropped).Distinct := by
  rw [Distinct, keys_without]
  exact List.Nodup.sublist List.filter_sublist h

/-! ## 3. Runs of writes -/

@[simp] theorem extend_nil (table : OrderedMap α) : table.extend [] = table := rfl

@[simp] theorem extend_cons (table rest : OrderedMap α) (key : String) (value : α) :
    table.extend ((key, value) :: rest) = (table.insert key value).extend rest := rfl

/-- Two runs after each other are one run. -/
theorem extend_append (table first second : OrderedMap α) :
    table.extend (first ++ second) = (table.extend first).extend second :=
  List.foldl_append

/-- The last value that a run writes under a key is read back; a key that is not written keeps its
value. -/
theorem get?_extend (table extra : OrderedMap α) (key : String) :
    (table.extend extra).get? key = (get? extra.reverse key).or (table.get? key) := by
  induction extra generalizing table with
  | nil => rfl
  | cons entry rest ih =>
      obtain ⟨k, value⟩ := entry
      rw [extend_cons, ih, List.reverse_cons, get?_append, Option.or_assoc]
      congr 1
      by_cases h : k = key
      · rw [h, get?_insert_self, get?_cons, if_pos rfl, Option.some_or]
      · rw [get?_insert_of_ne (fun e => h e.symm), get?_cons, if_neg h, get?_nil, Option.none_or]

/-- A run leaves the old keys in place and appends the new ones in order of first arrival. -/
theorem keys_extend (table extra : OrderedMap α) :
    (table.extend extra).keys
      = table.keys ++ (extra.keys.filter fun key => !table.keys.contains key).eraseDups := by
  induction extra generalizing table with
  | nil => simp [keys]
  | cons entry rest ih =>
      obtain ⟨k, value⟩ := entry
      rw [extend_cons, ih, keys_insert, keys_cons]
      by_cases h : k ∈ table.keys
      · rw [if_pos h, List.filter_cons_of_neg (by simpa using h)]
      · rw [if_neg h, List.filter_cons_of_pos (by simpa using h), List.eraseDups_cons,
          List.append_assoc, List.singleton_append, List.filter_filter]
        congr 4
        funext key
        rw [Bool.eq_iff_iff]
        simp [and_comm]

/-- Nothing repeats in an empty table. -/
@[simp] theorem distinct_nil : Distinct ([] : OrderedMap α) := List.nodup_nil

/-- A key in front repeats nothing where it does not come again. -/
@[simp] theorem distinct_cons {key : String} {value : α} {rest : OrderedMap α} :
    Distinct ((key, value) :: rest) ↔ key ∉ rest.keys ∧ rest.Distinct := List.nodup_cons

/-- Writing keeps the keys distinct. -/
theorem Distinct.extend {table : OrderedMap α} (h : table.Distinct) (extra : OrderedMap α) :
    (table.extend extra).Distinct := by
  induction extra generalizing table with
  | nil => exact h
  | cons entry rest ih => exact ih (h.insert entry.1 entry.2)

/-! ## 4. Tables from bindings -/

/-- The table of a run has distinct keys, whatever the run. -/
theorem distinct_ofBindings (bindings : List (String × α)) : (ofBindings bindings).Distinct :=
  distinct_nil.extend bindings

/-- The table of a run holds the keys in order of first arrival. -/
theorem keys_ofBindings (bindings : List (String × α)) :
    (ofBindings bindings).keys = (keys bindings).eraseDups := by
  have hall : ((keys bindings).filter fun key => !(keys ([] : OrderedMap α)).contains key)
      = keys bindings :=
    List.filter_eq_self.mpr fun _ _ => rfl
  rw [ofBindings, keys_extend, hall]
  exact List.nil_append _

/-- The table of a run holds the last value of each key. -/
theorem get?_ofBindings (bindings : List (String × α)) (key : String) :
    (ofBindings bindings).get? key = get? bindings.reverse key := by
  rw [ofBindings, get?_extend, get?_nil, Option.or_none]

/-- The entries of a table come from the bindings that made it. -/
theorem mem_of_mem_ofBindings {bindings : List (String × α)} {entry : String × α}
    (h : entry ∈ ofBindings bindings) : entry ∈ bindings := by
  have hget := (distinct_ofBindings bindings).get?_of_mem h
  rw [get?_ofBindings] at hget
  exact List.mem_reverse.mp (mem_of_get? hget)

/-- Writing new and distinct keys appends them. -/
theorem extend_of_distinct {table extra : OrderedMap α} (h : Distinct (table ++ extra)) :
    table.extend extra = table ++ extra := by
  induction extra generalizing table with
  | nil => rw [extend_nil, List.append_nil]
  | cons entry rest ih =>
      obtain ⟨k, value⟩ := entry
      have hnew : table.insert k value = table ++ [(k, value)] := by
        have hk : k ∉ table.keys := by
          intro hm
          have hnodup : (table.keys ++ k :: keys rest).Nodup := by
            have := h
            rwa [Distinct, keys, List.map_append] at this
          exact (List.nodup_append.mp hnodup).2.2 k hm k List.mem_cons_self rfl
        clear ih h
        induction table with
        | nil => rfl
        | cons first others ih =>
            obtain ⟨l, old⟩ := first
            rw [keys_cons, List.mem_cons, not_or] at hk
            rw [insert, if_neg (fun e => hk.1 e.symm), ih hk.2, List.cons_append]
      rw [extend_cons, hnew, ih (by rwa [List.append_assoc, List.singleton_append]),
        List.append_assoc, List.singleton_append]

/-- A run with distinct keys is its own table. -/
theorem Distinct.ofBindings_eq {bindings : List (String × α)} (h : Distinct bindings) :
    ofBindings bindings = bindings :=
  extend_of_distinct (by exact h)

end Statechart.OrderedMap
