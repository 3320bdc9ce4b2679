/-
`Proofs/Unions.lean` -- the block of an invoked service as one union.

The block is made in two stages: the records of the children are united among themselves, and what
comes of that is written over the attributes of the service. The stages do not show. The block is
the union of the attributes and then of one record after the other: a key stands where it first
comes, with the whole value of the last of them that has it.
-/
import Statechart.Compile.Invoke
import Statechart.Proofs.Tables

set_option autoImplicit false

namespace Statechart

/-! ## 1. Unions of tables -/

namespace OrderedMap

variable {α : Type}

/-- A table is the union of others, from the first to the last. -/
structure UnionOf (sources : List (OrderedMap α)) (table : OrderedMap α) : Prop where
  /-- The keys stand in the order in which they first come, and each of them once. -/
  keys : table.keys = (sources.flatMap OrderedMap.keys).eraseDups
  /-- Under a key stands, as a whole, the value of the last source that has the key. -/
  get?_eq_some_iff : ∀ key value, table.get? key = some value ↔
    ∃ before source after, sources = before ++ source :: after ∧ source.get? key = some value ∧
      ∀ later ∈ after, key ∉ later.keys

theorem unionOf_nil : UnionOf [] ([] : OrderedMap α) := by
  refine ⟨rfl, fun key value => ⟨?_, ?_⟩⟩
  · intro h
    exact absurd h (by simp)
  · rintro ⟨before, source, after, hsplit, -, -⟩
    exact absurd hsplit.symm (List.append_ne_nil_of_right_ne_nil _ (List.cons_ne_nil _ _))

/-- The last source that has a key is the one at the end, if it has the key, and otherwise the last
one of those in front of it. -/
theorem exists_source_append_singleton_iff {sources : List (OrderedMap α)} {last : OrderedMap α}
    {key : String} {value : α} :
    (∃ before source after, sources ++ [last] = before ++ source :: after ∧
        source.get? key = some value ∧ ∀ later ∈ after, key ∉ later.keys) ↔
      last.get? key = some value ∨ last.get? key = none ∧
        ∃ before source after, sources = before ++ source :: after ∧
          source.get? key = some value ∧ ∀ later ∈ after, key ∉ later.keys := by
  constructor
  · rintro ⟨before, source, after, hsplit, hsource, hlater⟩
    rcases List.eq_nil_or_concat' after with rfl | ⟨others, final, rfl⟩
    · obtain ⟨-, hend⟩ := List.append_inj' hsplit rfl
      obtain rfl : last = source := List.singleton_inj.mp hend
      exact .inl hsource
    · rw [← List.cons_append, ← List.append_assoc] at hsplit
      obtain ⟨hfront, hend⟩ := List.append_inj' hsplit rfl
      obtain rfl : last = final := List.singleton_inj.mp hend
      refine .inr ⟨get?_eq_none_iff.mpr (hlater last ?_), before, source, others, hfront, hsource, ?_⟩
      · exact List.mem_append_right _ List.mem_cons_self
      · intro later hmem
        exact hlater later (List.mem_append_left _ hmem)
  · rintro (hfound | ⟨hend, before, source, after, rfl, hsource, hlater⟩)
    · exact ⟨sources, last, [], rfl, hfound, fun _ hmem => absurd hmem List.not_mem_nil⟩
    · refine ⟨before, source, after ++ [last], List.append_assoc .., hsource, ?_⟩
      intro later hmem
      rcases List.mem_append.mp hmem with hafter | hlast
      · exact hlater later hafter
      · rw [List.mem_singleton.mp hlast]
        exact get?_eq_none_iff.mp hend

/-- One more source is united with the others by being written over them. -/
theorem UnionOf.extend {sources : List (OrderedMap α)} {table last : OrderedMap α}
    (h : UnionOf sources table) (hlast : last.Distinct) :
    UnionOf (sources ++ [last]) (table.extend last) := by
  constructor
  · -- a key is new to the table exactly if it is in none of the other sources
    have hseen : ∀ key, table.keys.contains key
        = (sources.flatMap OrderedMap.keys).contains key := by
      intro key
      rw [Bool.eq_iff_iff, List.contains_iff_mem, List.contains_iff_mem, h.keys, List.mem_eraseDups]
    rw [keys_extend, List.flatMap_append, List.flatMap_singleton, List.eraseDups_append,
      List.removeAll, ← h.keys]
    simp only [hseen]
  · intro key value
    rw [get?_extend, hlast.get?_reverse, Option.or_eq_some_iff, h.get?_eq_some_iff,
      exists_source_append_singleton_iff]

/-- Writing sources over each other, one after the other, unites them. -/
theorem unionOf_foldl_extend {sources : List (OrderedMap α)}
    (h : ∀ source ∈ sources, source.Distinct) : UnionOf sources (sources.foldl extend []) := by
  induction sources using List.reverseRecOn with
  | nil => exact unionOf_nil
  | append_singleton sources last ih =>
      rw [List.foldl_append]
      refine (ih fun source hsource => h source (List.mem_append_left _ hsource)).extend ?_
      exact h last (List.mem_append_right _ List.mem_cons_self)

end OrderedMap

/-! ## 2. Records -/

namespace Siblings

theorem value_mergeRecords (children : List Fragment) :
    (mergeRecords children).value = OrderedMap.ofBindings (records children).flatten := by
  rw [mergeRecords, OrderedMap.foldl_extend]
  rfl

/-- Records may be united in two parts, and the second part written over the first. -/
theorem value_mergeRecords_append (xs ys : List Fragment) :
    (mergeRecords (xs ++ ys)).value = (mergeRecords xs).value.extend (mergeRecords ys).value := by
  have hrecords : records (xs ++ ys) = records xs ++ records ys := List.filterMap_append
  rw [value_mergeRecords, value_mergeRecords, value_mergeRecords, OrderedMap.extend_ofBindings,
    hrecords, List.flatten_append, OrderedMap.ofBindings, OrderedMap.extend_append]
  rfl

/-- Only records are united. -/
theorem records_filter_record (children : List Fragment) :
    records (children.filter fun child => child.record?.isSome) = records children := by
  rw [records, List.filterMap_filter]
  refine List.filterMap_congr fun child _ => ?_
  cases child <;> rfl

/-- Each child that is no record is named in a warning. -/
theorem log_mergeRecords (children : List Fragment) :
    (mergeRecords children).log
      = (children.filter fun child => child.record?.isNone).map fun child =>
          .childIgnored child.kindName := by
  refine List.map_congr_left fun child hchild => ?_
  have hother : child.record?.isNone = true := (List.mem_filter.mp hchild).2
  cases child with
  | record members => cases hother
  | state | transition | invoke | options => rfl

end Siblings

/-! ## 3. The block of a service -/

namespace Compile

theorem value_invoke (attributes : Attributes) (children : List Fragment) :
    (invoke attributes children).value
      = attributes.extend (Siblings.records children).flatten := by
  have hblock : (invoke attributes children).value
      = attributes.extend (Siblings.mergeRecords children).value := rfl
  rw [hblock, Siblings.value_mergeRecords, OrderedMap.extend_ofBindings]

/-- The records of the children are written over the attributes as though they came one by one. -/
theorem value_invoke_eq_foldl {attributes : Attributes} (distinct : attributes.Distinct)
    (children : List Fragment) :
    (invoke attributes children).value
      = (attributes :: Siblings.records children).foldl OrderedMap.extend [] := by
  have hfirst : OrderedMap.extend [] attributes = attributes := distinct.ofBindings_eq
  rw [value_invoke, List.foldl_cons, hfirst, OrderedMap.foldl_extend]

/-- A block is the union of attributes and of the records among children, and all that is said is
which children are no records. -/
structure Unites (attributes : Attributes) (children : List Fragment) (block : Logged Attributes) :
    Prop where
  /-- The block is written in one go, the attributes first and then record after record. -/
  value_eq : block.value
    = (attributes :: Siblings.records children).foldl OrderedMap.extend []
  unionOf : OrderedMap.UnionOf (attributes :: Siblings.records children) block.value
  /-- Other children may as well be left out. -/
  value_filter : block.value
    = (invoke attributes (children.filter fun child => child.record?.isSome)).value
  /-- For each of them there is one warning, in their order. -/
  log_eq : block.log
    = (children.filter fun child => child.record?.isNone).map fun child =>
        .childIgnored child.kindName
  level_eq : ∀ notice ∈ block.log, notice.level = .warn

end Compile

/-- **One union.** Where neither the attributes of a service nor the records among its children
repeat a member, its block is their union, from the first to the last, and each child that is no
record gives one warning and nothing else. And records may be united in two parts, whatever else is
among the children. -/
theorem invoke_unites {attributes : Attributes} {children : List Fragment}
    (distinct : ∀ source ∈ attributes :: Siblings.records children, OrderedMap.Distinct source) :
    Compile.Unites attributes children (Compile.invoke attributes children) ∧
      ∀ xs ys : List Fragment, (Siblings.mergeRecords (xs ++ ys)).value
        = (Siblings.mergeRecords xs).value.extend (Siblings.mergeRecords ys).value := by
  have hvalue := Compile.value_invoke_eq_foldl (distinct attributes List.mem_cons_self) children
  have hlog := (Compile.log_invoke attributes children).trans (Siblings.log_mergeRecords children)
  refine ⟨⟨hvalue, ?union, ?others, hlog, ?level⟩, Siblings.value_mergeRecords_append⟩
  case union =>
    rw [hvalue]
    exact OrderedMap.unionOf_foldl_extend distinct
  case others => rw [Compile.value_invoke, Compile.value_invoke, Siblings.records_filter_record]
  case level =>
    intro notice hnotice
    rw [hlog] at hnotice
    obtain ⟨child, -, rfl⟩ := List.mem_map.mp hnotice
    rfl

/-- Attributes of a service with an outcome of its own. -/
def fetchAttributes : Attributes :=
  [("src", .str "fetch"), ("onDone", .obj [("target", .str "idle"), ("cond", .str "ready")])]

/-- Outcomes of the service, the first of them twice, and children that have no place in it. -/
def fetchChildren : List Fragment :=
  [.record (Compile.outcome "onDone" [("target", .str "shown")]), .state {},
    .record (Compile.outcome "onError" [("target", .str "failed")]), .options {},
    .record (Compile.outcome "onDone" [("target", .str "stored")])]

theorem invoke_unites_fetchChildren :
    (∀ source ∈ fetchAttributes :: Siblings.records fetchChildren, OrderedMap.Distinct source) ∧
      (Compile.invoke fetchAttributes fetchChildren).value.keys = ["src", "onDone", "onError"] ∧
      (Compile.invoke fetchAttributes fetchChildren).value.get? "onDone"
        = some (.obj [("target", .str "stored")]) ∧
      (Compile.invoke fetchAttributes fetchChildren).log
        = [.childIgnored "state", .childIgnored "options"] := by
  have hdistinct : ∀ source ∈ fetchAttributes :: Siblings.records fetchChildren,
      OrderedMap.Distinct source := by
    show ∀ source ∈ _, (OrderedMap.keys source).Nodup
    decide
  obtain ⟨unites, -⟩ := invoke_unites hdistinct
  refine ⟨hdistinct, unites.unionOf.keys.trans (by decide), ?_, unites.log_eq⟩
  exact (unites.unionOf.get?_eq_some_iff "onDone" _).mpr
    ⟨[fetchAttributes, Compile.outcome "onDone" [("target", .str "shown")],
        Compile.outcome "onError" [("target", .str "failed")]],
      Compile.outcome "onDone" [("target", .str "stored")], [], rfl, rfl,
      fun _ hmem => absurd hmem List.not_mem_nil⟩

end Statechart
