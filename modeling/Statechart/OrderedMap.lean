/-
`OrderedMap.lean` -- string-keyed tables that remember the order in which their keys first came.

Every table of the library is one of these: the members of a JSON object, a state's `on` and
`states` tables, the implementations of an options record. A table is the plain list of its
entries. Writing to a key that is present replaces the value and moves nothing, writing to a new
key appends, and erasing keeps the order of what is left. No operation below introduces a second
entry for a key. A list that has one all the same (JSON text may repeat a member) is read by its
first entry.
-/

set_option autoImplicit false

namespace Statechart

/-- A table from strings to `α`, as the list of its entries in order of first arrival. -/
abbrev OrderedMap (α : Type) : Type := List (String × α)

namespace OrderedMap

variable {α β : Type}

/-! ## 1. Operations -/

/-- The keys, in order. -/
def keys (table : OrderedMap α) : List String := table.map Prod.fst

/-- The value of the first entry for `key`. -/
def get? : OrderedMap α → String → Option α
  | [], _ => none
  | (k, value) :: rest, key => if k = key then some value else get? rest key

/-- Whether `key` has an entry. -/
def contains (table : OrderedMap α) (key : String) : Bool := (table.get? key).isSome

/-- Bind `key` to `value`: in place when the key is present, at the end when it is new. -/
def insert : OrderedMap α → String → α → OrderedMap α
  | [], key, value => [(key, value)]
  | (k, old) :: rest, key, value =>
      if k = key then (k, value) :: rest else (k, old) :: insert rest key value

/-- Everything but the entries for the given keys, in its order. -/
def without (table : OrderedMap α) (dropped : List String) : OrderedMap α :=
  table.filter fun entry => !dropped.contains entry.1

/-- Everything but the entries for `key`, in its order. -/
def erase (table : OrderedMap α) (key : String) : OrderedMap α := table.without [key]

/-- Insert the entries of `extra` from left to right. -/
def extend (table extra : OrderedMap α) : OrderedMap α :=
  extra.foldl (fun acc entry => acc.insert entry.1 entry.2) table

/-- The table that a run of bindings leaves: each key where it came first, with its last value. -/
def ofBindings (bindings : List (String × α)) : OrderedMap α := extend [] bindings

/-- Apply `f` to every value. -/
def mapValues (f : α → β) (table : OrderedMap α) : OrderedMap β :=
  table.map fun entry => (entry.1, f entry.2)

/-- No key has two entries. -/
def Distinct (table : OrderedMap α) : Prop := table.keys.Nodup

/-- Equality of tables up to the order of their entries, with `eq` to compare values. -/
def same (eq : α → α → Bool) (left right : OrderedMap α) : Bool :=
  left.length == right.length &&
    left.all fun entry =>
      match right.get? entry.1 with
      | some value => eq entry.2 value
      | none => false

/-! ## 2. What each operation does to `get?` and `keys` -/

@[simp] theorem get?_nil (key : String) : get? ([] : OrderedMap α) key = none := rfl

@[simp] theorem keys_nil : keys ([] : OrderedMap α) = [] := rfl

@[simp] theorem keys_cons (k : String) (value : α) (rest : OrderedMap α) :
    keys ((k, value) :: rest) = k :: rest.keys := rfl

theorem get?_cons (k : String) (value : α) (rest : OrderedMap α) (key : String) :
    get? ((k, value) :: rest) key = if k = key then some value else get? rest key := rfl

/-- A key has an entry exactly when it is listed. -/
theorem get?_eq_none_iff {table : OrderedMap α} {key : String} :
    table.get? key = none ↔ key ∉ table.keys := by
  induction table with
  | nil => simp [keys]
  | cons entry rest ih =>
      obtain ⟨k, value⟩ := entry
      rw [get?_cons]
      by_cases h : k = key
      · simp [h]
      · have h' : ¬key = k := fun e => h e.symm
        simp [h, h', ih]

/-- A table contains the keys that it lists. -/
theorem contains_iff {table : OrderedMap α} {key : String} :
    table.contains key = true ↔ key ∈ table.keys := by
  rw [contains, Option.isSome_iff_ne_none, ne_eq, get?_eq_none_iff, Classical.not_not]

/-- What was written under a key is read back. -/
@[simp] theorem get?_insert_self (table : OrderedMap α) (key : String) (value : α) :
    (table.insert key value).get? key = some value := by
  induction table with
  | nil => simp [insert, get?]
  | cons entry rest ih =>
      obtain ⟨k, old⟩ := entry
      by_cases h : k = key
      · simp [insert, get?, h]
      · simp [insert, get?, h, ih]

/-- Writing under one key leaves the others alone. -/
theorem get?_insert_of_ne {table : OrderedMap α} {key other : String} {value : α}
    (h : other ≠ key) : (table.insert key value).get? other = table.get? other := by
  induction table with
  | nil => simp [insert, get?, h.symm]
  | cons entry rest ih =>
      obtain ⟨k, old⟩ := entry
      by_cases hk : k = key
      · subst hk
        simp [insert, get?, h.symm]
      · rw [insert, if_neg hk, get?_cons, get?_cons, ih]

/-- Writing under a present key moves nothing, and a new key goes to the end. -/
theorem keys_insert (table : OrderedMap α) (key : String) (value : α) :
    (table.insert key value).keys
      = if key ∈ table.keys then table.keys else table.keys ++ [key] := by
  induction table with
  | nil => simp [insert, keys]
  | cons entry rest ih =>
      obtain ⟨k, old⟩ := entry
      by_cases hk : k = key
      · simp [insert, hk]
      · have hk' : ¬key = k := fun e => hk e.symm
        rw [insert, if_neg hk, keys_cons, ih, keys_cons]
        by_cases hm : key ∈ keys rest
        · simp [hm]
        · simp [hm, hk']

/-- Inserting keeps the keys distinct. -/
theorem Distinct.insert {table : OrderedMap α} (h : table.Distinct) (key : String) (value : α) :
    (table.insert key value).Distinct := by
  unfold Distinct at *
  rw [keys_insert]
  by_cases hm : key ∈ table.keys
  · rw [if_pos hm]
    exact h
  · rw [if_neg hm]
    refine List.nodup_append.mpr ⟨h, by simp, ?_⟩
    intro a ha b hb
    simp only [List.mem_singleton] at hb
    subst hb
    exact fun e => hm (e ▸ ha)

/-- A dropped key has no entry left, and every other key keeps its value. -/
theorem get?_without (table : OrderedMap α) (dropped : List String) (key : String) :
    (table.without dropped).get? key = if key ∈ dropped then none else table.get? key := by
  induction table with
  | nil => simp [without, get?]
  | cons entry rest ih =>
      obtain ⟨k, value⟩ := entry
      simp only [without] at ih ⊢
      by_cases hd : dropped.contains k = true
      · rw [List.filter_cons_of_neg (by simpa using hd), ih, get?_cons]
        by_cases hk : k = key
        · subst hk
          have hm : k ∈ dropped := by simpa using hd
          simp [hm]
        · simp [hk]
      · rw [List.filter_cons_of_pos (by simpa using hd), get?_cons, get?_cons, ih]
        by_cases hk : k = key
        · subst hk
          have hm : ¬k ∈ dropped := by simpa using hd
          simp [hm]
        · simp [hk]

end OrderedMap

end Statechart
