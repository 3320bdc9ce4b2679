/-
`Proofs/Tables.lean` -- more about tables: runs of writes over each other, and keyed lists.

A run of writes may be collapsed to a table before it is written, and a series of tables may be
written as one run. A list of values with optional keys becomes a table by its keys; the last value
of a key is what the table holds.
-/
import Mathlib.Data.List.Forall2
import Mathlib.Data.List.Induction
import Mathlib.Data.List.Nodup
import Statechart.OrderedMap.Lemmas
import Statechart.Siblings.Merge

set_option autoImplicit false

namespace Statechart

/-! ## 1. Related optional values and related lists -/

section Rel

variable {α β γ δ : Type} {rel : α → β → Prop} {rel' : γ → δ → Prop}

theorem rel_self {rel : α → α → Prop} {a? : Option α} (h : ∀ a, a? = some a → rel a a) :
    Option.Rel rel a? a? := by
  cases a? with
  | none => exact .none
  | some a => exact .some (h a rfl)

/-- Of two related optional values both are present or none is. -/
theorem isSome_eq_of_rel {a? : Option α} {b? : Option β} (h : Option.Rel rel a? b?) :
    a?.isSome = b?.isSome := by
  cases h with
  | none => rfl
  | some _ => rfl

/-- Optional values are related where both are present or none is, and where they are related if both
are. -/
theorem rel_iff {a? : Option α} {b? : Option β} :
    Option.Rel rel a? b? ↔ (a?.isSome ↔ b?.isSome) ∧
      ∀ a b, a? = some a → b? = some b → rel a b := by
  constructor
  · intro h
    refine ⟨by rw [isSome_eq_of_rel h], fun a b ha hb => ?_⟩
    rw [ha, hb] at h
    cases h with
    | some hab => exact hab
  · rintro ⟨hsome, hrel⟩
    cases a? with
    | none =>
        cases b? with
        | none => exact .none
        | some b => simp at hsome
    | some a =>
        cases b? with
        | none => simp at hsome
        | some b => exact .some (hrel a b rfl rfl)

theorem rel_imp {rel' : α → β → Prop} {a? : Option α} {b? : Option β}
    (himp : ∀ a b, rel a b → rel' a b) (h : Option.Rel rel a? b?) : Option.Rel rel' a? b? := by
  cases h with
  | none => exact .none
  | some hab => exact .some (himp _ _ hab)

theorem rel_or {a? a'? : Option α} {b? b'? : Option β} (h : Option.Rel rel a? b?)
    (h' : Option.Rel rel a'? b'?) : Option.Rel rel (a?.or a'?) (b?.or b'?) := by
  cases h with
  | none => exact h'
  | some hab => exact .some hab

/-- Related steps on related values. -/
theorem rel_bind {a? : Option α} {b? : Option β} {f : α → Option γ} {g : β → Option δ}
    (h : Option.Rel rel a? b?)
    (hnext : ∀ a b, a? = some a → rel a b → Option.Rel rel' (f a) (g b)) :
    Option.Rel rel' (a?.bind f) (b?.bind g) := by
  cases h with
  | none => exact .none
  | some hab => exact hnext _ _ rfl hab

theorem rel_map {a? : Option α} {b? : Option β} {f : α → γ} {g : β → δ}
    (h : Option.Rel rel a? b?) (hnext : ∀ a b, rel a b → rel' (f a) (g b)) :
    Option.Rel rel' (a?.map f) (b?.map g) := by
  cases h with
  | none => exact .none
  | some hab => exact .some (hnext _ _ hab)

theorem rel_getD {a? : Option α} {b? : Option β} {a : α} {b : β} (h : Option.Rel rel a? b?)
    (hdefault : rel a b) : rel (a?.getD a) (b?.getD b) := by
  cases h with
  | none => exact hdefault
  | some hab => exact hab

/-- What is related to a present value is present. -/
theorem exists_of_rel_some {a : α} {b? : Option β} (h : Option.Rel rel (some a) b?) :
    ∃ b, b? = some b ∧ rel a b := by
  cases h with
  | some hab => exact ⟨_, rfl, hab⟩

/-- Each value on the right of two related lists is related to one on the left. -/
theorem exists_of_mem_right {left : List α} {right : List β} (h : List.Forall₂ rel left right)
    {b : β} (hb : b ∈ right) : ∃ a ∈ left, rel a b := by
  induction h with
  | nil => exact absurd hb List.not_mem_nil
  | @cons a first _ _ hfirst _ ih =>
      rcases List.mem_cons.mp hb with rfl | hrest
      · exact ⟨a, List.mem_cons_self, hfirst⟩
      · obtain ⟨later, hlater, hrel⟩ := ih hrest
        exact ⟨later, List.mem_cons_of_mem _ hlater, hrel⟩

/-- Reading a list of values is reading each of them. -/
theorem mapM_eq_some_iff {read : α → Option β} {values : List α} {results : List β} :
    values.mapM read = some results ↔
      List.Forall₂ (fun value result => read value = some result) values results := by
  induction values generalizing results with
  | nil =>
      rw [List.forall₂_nil_left_iff, List.mapM_nil]
      exact ⟨fun h => (Option.some.inj h).symm, fun h => h ▸ rfl⟩
  | cons value rest ih =>
      rw [List.mapM_cons, List.forall₂_cons_left_iff]
      constructor
      · intro h
        obtain ⟨first, hfirst, h⟩ := Option.bind_eq_some_iff.mp h
        obtain ⟨others, hothers, h⟩ := Option.bind_eq_some_iff.mp h
        exact ⟨first, others, hfirst, ih.mp hothers, (Option.some.inj h).symm⟩
      · rintro ⟨first, others, hfirst, hothers, rfl⟩
        rw [hfirst, ih.mpr hothers]
        rfl

end Rel

namespace OrderedMap

variable {α : Type}

/-- A key is listed exactly when it has an entry. -/
theorem isSome_get?_iff {table : OrderedMap α} {key : String} :
    (table.get? key).isSome ↔ key ∈ table.keys := by
  rw [Option.isSome_iff_ne_none, ne_eq, get?_eq_none_iff, Decidable.not_not]

/-- A key is looked up by the first entry for it. -/
theorem get?_eq_find? (table : OrderedMap α) (key : String) :
    table.get? key = (table.find? fun entry => entry.1 == key).map Prod.snd := by
  induction table with
  | nil => rfl
  | cons entry rest ih =>
      obtain ⟨k, value⟩ := entry
      rw [get?_cons]
      by_cases h : k = key
      · rw [if_pos h, List.find?_cons_of_pos (by simpa using h)]
        rfl
      · rw [if_neg h, List.find?_cons_of_neg (by simpa using h), ih]

/-- Changing values by their keys changes what is found. -/
theorem get?_map_by_key {β : Type} (f : String → α → β) (table : OrderedMap α) (key : String) :
    get? (table.map fun entry => (entry.1, f entry.1 entry.2)) key
      = (table.get? key).map (f key) := by
  induction table with
  | nil => rfl
  | cons entry rest ih =>
      obtain ⟨first, value⟩ := entry
      rw [List.map_cons, get?_cons, get?_cons, ih]
      by_cases h : first = key
      · rw [if_pos h, if_pos h, h]
        rfl
      · rw [if_neg h, if_neg h]

/-- In a table without repetition a key has one value, wherever the search begins. -/
theorem Distinct.get?_reverse {table : OrderedMap α} (h : table.Distinct) (key : String) :
    OrderedMap.get? table.reverse key = table.get? key := by
  have hreverse : Distinct table.reverse := by
    rw [Distinct, keys, List.map_reverse]
    exact List.nodup_reverse.mpr h
  cases hfound : table.get? key with
  | none =>
      rw [get?_eq_none_iff, keys, List.map_reverse, List.mem_reverse]
      exact get?_eq_none_iff.mp hfound
  | some value => exact hreverse.get?_of_mem (List.mem_reverse.mpr (mem_of_get? hfound))

/-- Distinct keys are each kept. -/
theorem eraseDups_of_nodup {keys : List String} (h : keys.Nodup) : keys.eraseDups = keys := by
  induction keys with
  | nil => rfl
  | cons key rest ih =>
      obtain ⟨hnew, hrest⟩ := List.nodup_cons.mp h
      have hkept : (rest.filter fun other => !other == key) = rest := by
        refine List.filter_eq_self.mpr fun other hother => ?_
        have hne : ¬other = key := fun e => hnew (e ▸ hother)
        simpa using hne
      rw [List.eraseDups_cons, hkept, ih hrest]

/-- Writing a table without repetition appends its new keys in their order. -/
theorem Distinct.keys_extend {extra : OrderedMap α} (h : extra.Distinct) (table : OrderedMap α) :
    (table.extend extra).keys
      = table.keys ++ extra.keys.filter fun key => !table.keys.contains key := by
  have hnew : (extra.keys.filter fun key => !table.keys.contains key).Nodup :=
    List.Nodup.sublist List.filter_sublist h
  rw [OrderedMap.keys_extend, eraseDups_of_nodup hnew]

/-- In a table without repetition the values are those that are found. -/
theorem Distinct.forall_mem_iff {p : α → Prop} {table : OrderedMap α} (h : table.Distinct) :
    (∀ entry ∈ table, p entry.2) ↔ ∀ key value, table.get? key = some value → p value :=
  ⟨fun hmem key value hfound => hmem (key, value) (mem_of_get? hfound),
    fun hfound entry hentry => hfound entry.1 entry.2 (h.get?_of_mem hentry)⟩

/-! ## 2. Tables with the same keys in the same order -/

section Alike

variable {β : Type} {rel : α → β → Prop}

/-- Two tables with the same keys in the same order, and related values. -/
def Alike (rel : α → β → Prop) (left : OrderedMap α) (right : OrderedMap β) : Prop :=
  List.Forall₂ (fun a b => a.1 = b.1 ∧ rel a.2 b.2) left right

theorem Alike.refl {rel : α → α → Prop} (h : ∀ a, rel a a) (table : OrderedMap α) :
    Alike rel table table :=
  List.forall₂_same.mpr fun entry _ => ⟨rfl, h entry.2⟩

/-- Tables whose entries are equal are equal. -/
theorem Alike.eq {left right : OrderedMap α} (h : Alike Eq left right) : left = right := by
  refine List.forall₂_eq_eq_eq ▸ List.Forall₂.imp (fun _ _ hentry => ?_) h
  exact Prod.ext hentry.1 hentry.2

theorem Alike.imp {rel' : α → β → Prop} (himp : ∀ a b, rel a b → rel' a b) {left : OrderedMap α}
    {right : OrderedMap β} (h : Alike rel left right) : Alike rel' left right :=
  List.Forall₂.imp (fun _ _ hentry => ⟨hentry.1, himp _ _ hentry.2⟩) h

/-- What follows from the relation for the entries on the left follows for the tables. -/
theorem Alike.imp_of_mem {rel' : α → β → Prop} {left : OrderedMap α} {right : OrderedMap β}
    (h : Alike rel left right) (himp : ∀ entry ∈ left, ∀ b, rel entry.2 b → rel' entry.2 b) :
    Alike rel' left right := by
  have hboth := (List.forall₂_and_left left right).mpr ⟨fun _ hentry => hentry, h⟩
  exact hboth.imp fun entry _ hentry => ⟨hentry.2.1, himp entry hentry.1 _ hentry.2.2⟩

theorem Alike.mapValues {γ δ : Type} {rel' : γ → δ → Prop} {f : α → γ} {g : β → δ}
    {left : OrderedMap α} {right : OrderedMap β} (h : Alike rel left right)
    (himp : ∀ a b, rel a b → rel' (f a) (g b)) :
    Alike rel' (left.mapValues f) (right.mapValues g) := by
  rw [Alike, OrderedMap.mapValues, OrderedMap.mapValues, List.forall₂_map_left_iff,
    List.forall₂_map_right_iff]
  exact List.Forall₂.imp (fun _ _ hentry => ⟨hentry.1, himp _ _ hentry.2⟩) h

theorem Alike.keys_eq {left : OrderedMap α} {right : OrderedMap β} (h : Alike rel left right) :
    left.keys = right.keys := by
  induction h with
  | nil => rfl
  | cons hentry _ ih => exact congrArg₂ List.cons hentry.1 ih

/-- Alike tables hold related values, or none, under each key. -/
theorem Alike.get? {left : OrderedMap α} {right : OrderedMap β} (h : Alike rel left right)
    (key : String) : Option.Rel rel (left.get? key) (right.get? key) := by
  induction h with
  | nil => exact .none
  | @cons a b _ _ hentry _ ih =>
      obtain ⟨k, value⟩ := a
      obtain ⟨k', value'⟩ := b
      obtain ⟨rfl, hvalue⟩ : k = k' ∧ rel value value' := hentry
      rw [get?_cons, get?_cons]
      by_cases hk : k = key
      · rw [if_pos hk, if_pos hk]
        exact .some hvalue
      · rw [if_neg hk, if_neg hk]
        exact ih

theorem Alike.insert {left : OrderedMap α} {right : OrderedMap β} (h : Alike rel left right)
    (key : String) {a : α} {b : β} (hab : rel a b) :
    Alike rel (left.insert key a) (right.insert key b) := by
  induction h with
  | nil => exact .cons ⟨rfl, hab⟩ .nil
  | @cons x y _ _ hentry hrest ih =>
      obtain ⟨k, value⟩ := x
      obtain ⟨k', value'⟩ := y
      obtain ⟨rfl, hvalue⟩ : k = k' ∧ rel value value' := hentry
      rw [OrderedMap.insert, OrderedMap.insert]
      by_cases hk : k = key
      · rw [if_pos hk, if_pos hk]
        exact .cons ⟨rfl, hab⟩ hrest
      · rw [if_neg hk, if_neg hk]
        exact .cons ⟨rfl, hvalue⟩ ih

theorem Alike.extend {left : OrderedMap α} {right : OrderedMap β} (h : Alike rel left right)
    {extra : OrderedMap α} {extra' : OrderedMap β} (hextra : Alike rel extra extra') :
    Alike rel (left.extend extra) (right.extend extra') := by
  induction hextra generalizing left right with
  | nil => exact h
  | @cons a b _ _ hentry _ ih =>
      obtain ⟨k, value⟩ := a
      obtain ⟨k', value'⟩ := b
      obtain ⟨rfl, hvalue⟩ : k = k' ∧ rel value value' := hentry
      exact ih (h.insert k hvalue)

end Alike

/-! ## 3. Writes over each other -/

/-- Of two writes to one key the later one counts. -/
theorem insert_insert_self (table : OrderedMap α) (key : String) (old new : α) :
    (table.insert key old).insert key new = table.insert key new := by
  induction table with
  | nil => simp [insert]
  | cons entry rest ih =>
      obtain ⟨k, value⟩ := entry
      by_cases h : k = key
      · rw [insert, if_pos h, insert, if_pos h, insert, if_pos h]
      · rw [insert, if_neg h, insert, if_neg h, insert, if_neg h, ih]

/-- A write to a present key changes places with a write to another key. -/
theorem insert_comm_of_mem {table : OrderedMap α} {key other : String} (h : key ∈ table.keys)
    (hne : key ≠ other) (value value' : α) :
    (table.insert key value).insert other value'
      = (table.insert other value').insert key value := by
  induction table with
  | nil => exact absurd h List.not_mem_nil
  | cons entry rest ih =>
      obtain ⟨k, first⟩ := entry
      by_cases hk : k = key
      · have hother : ¬k = other := fun e => hne (hk.symm.trans e)
        rw [insert, if_pos hk, insert, if_neg hother, insert, if_neg hother, insert, if_pos hk]
      · have hmem : key ∈ keys rest := (List.mem_cons.mp h).resolve_left fun e => hk e.symm
        rw [insert, if_neg hk]
        by_cases hother : k = other
        · rw [insert, if_pos hother, insert, if_pos hother, insert, if_neg hk]
        · rw [insert, if_neg hother, insert, if_neg hother, insert, if_neg hk, ih hmem]

/-- A write to a present key changes places with a run that does not write to it. -/
theorem insert_extend_of_not_mem {table extra : OrderedMap α} {key : String}
    (h : key ∈ table.keys) (hextra : key ∉ extra.keys) (value : α) :
    (table.extend extra).insert key value = (table.insert key value).extend extra := by
  induction extra generalizing table with
  | nil => rfl
  | cons entry rest ih =>
      obtain ⟨k, first⟩ := entry
      rw [keys_cons, List.mem_cons, not_or] at hextra
      have hmem : key ∈ (table.insert k first).keys := by
        rw [keys_insert]
        split
        · exact h
        · exact List.mem_append_left _ h
      rw [extend_cons, extend_cons, ih hmem hextra.2, insert_comm_of_mem h hextra.1]

/-- A write to the run is a write behind the run. -/
theorem extend_insert {extra : OrderedMap α} (h : extra.Distinct) (table : OrderedMap α)
    (key : String) (value : α) :
    table.extend (extra.insert key value) = (table.extend extra).insert key value := by
  induction extra generalizing table with
  | nil => rfl
  | cons entry rest ih =>
      obtain ⟨k, first⟩ := entry
      have hd : k ∉ keys rest ∧ (keys rest).Nodup := List.nodup_cons.mp h
      by_cases hk : k = key
      · -- the run writes to this key first of all, so the new value can be put off to the end
        subst hk
        have hmem : k ∈ (table.insert k first).keys := by
          rw [← isSome_get?_iff, get?_insert_self]
          rfl
        rw [insert, if_pos rfl, extend_cons, extend_cons, insert_extend_of_not_mem hmem hd.1,
          insert_insert_self]
      · rw [insert, if_neg hk, extend_cons, extend_cons, ih hd.2]

/-- Collapsing a run before it is written changes nothing. -/
theorem extend_ofBindings (table : OrderedMap α) (bindings : List (String × α)) :
    table.extend (ofBindings bindings) = table.extend bindings := by
  -- from the right, since the last write of the run is the last one of either side
  induction bindings using List.reverseRecOn with
  | nil => rfl
  | append_singleton bindings entry ih =>
      have hlast : ∀ front : OrderedMap α,
          front.extend (bindings ++ [entry]) = (front.extend bindings).insert entry.1 entry.2 :=
        fun front => extend_append front bindings [entry]
      rw [ofBindings, hlast, hlast, ← ofBindings, extend_insert (distinct_ofBindings bindings), ih]

/-- What is found under a key is the first entry for it. -/
theorem get?_eq_some_iff {table : OrderedMap α} {key : String} {value : α} :
    table.get? key = some value ↔
      ∃ before after, table = before ++ (key, value) :: after ∧ key ∉ keys before := by
  constructor
  · intro h
    induction table with
    | nil => exact absurd h (by simp)
    | cons entry rest ih =>
        obtain ⟨k, first⟩ := entry
        rw [get?_cons] at h
        by_cases hk : k = key
        · rw [if_pos hk, Option.some.injEq] at h
          subst hk h
          exact ⟨[], rest, rfl, List.not_mem_nil⟩
        · rw [if_neg hk] at h
          obtain ⟨before, after, rfl, hnew⟩ := ih h
          refine ⟨(k, first) :: before, after, rfl, ?_⟩
          rw [keys_cons, List.mem_cons, not_or]
          exact ⟨fun e => hk e.symm, hnew⟩
  · rintro ⟨before, after, rfl, hnew⟩
    rw [get?_append, get?_eq_none_iff.mpr hnew, Option.none_or, get?_cons, if_pos rfl]

/-- What the table of a run holds under a key is what the run binds it to last. -/
theorem get?_ofBindings_eq_some_iff {bindings : List (String × α)} {key : String} {value : α} :
    (ofBindings bindings).get? key = some value ↔
      ∃ before after, bindings = before ++ (key, value) :: after ∧ key ∉ keys after := by
  rw [get?_ofBindings, get?_eq_some_iff]
  constructor
  · rintro ⟨before, after, hsplit, hnew⟩
    refine ⟨after.reverse, before.reverse, ?_, ?_⟩
    · rw [← List.reverse_reverse bindings, hsplit, List.reverse_append, List.reverse_cons,
        List.append_assoc, List.singleton_append]
    · rwa [keys, List.map_reverse, List.mem_reverse]
  · rintro ⟨before, after, rfl, hnew⟩
    refine ⟨after.reverse, before.reverse, ?_, ?_⟩
    · rw [List.reverse_append, List.reverse_cons, List.append_assoc, List.singleton_append]
    · rwa [keys, List.map_reverse, List.mem_reverse]

/-- A series of tables is written as one run. -/
theorem foldl_extend (table : OrderedMap α) (tables : List (OrderedMap α)) :
    tables.foldl extend table = table.extend tables.flatten := by
  induction tables generalizing table with
  | nil => rfl
  | cons first rest ih => rw [List.foldl_cons, ih, List.flatten_cons, extend_append]

end OrderedMap

end Statechart
